import StoredRoutine.Script.Arithmetic
import StoredRoutine.Script.Code.Operand

/-!
# `StoredRoutine.Script.Code.Operation`: operators

An operator is written in two parts: what happens to its left operand before the right one is
written, and the instruction itself. Operators on numerals are computed at once. A small whole
number stands in the instruction, and so does any other numeral with a small number among the
constants; what else is an operand has to be in a register.
-/

set_option autoImplicit false

namespace StoredRoutine.Script.Drafting

/-- An instruction that gives a value, which goes wherever it is needed. -/
def resulting (line : Nat) (i : Instruction) : Drafting Operand := do
  return { held := .pending (← emit line i) }

/-! ### Operators with one operand -/

/-- The opposite truth value. -/
def negate (o : Operand) : Drafting Operand := do
  let held ←
    match o.held with
    | .constant v => pure (.constant (.bool !v.isTrue))
    | .compared position => do
      rewrite position (·.negated)
      pure (.compared position)
    | .place p => do
      release p.register
      pure (Held.pending (← emit 0 (.unary unset .not p)))
    | _ => do
      let p ← next
      let _ ← moveTo p o
      release p.register
      pure (Held.pending (← emit 0 (.unary unset .not p)))
  return { held, whenTrue := keepless o.whenFalse, whenFalse := keepless o.whenTrue }

/-- An operator with one operand. -/
def unary (line : Nat) (op : UnaryOp) (o : Operand) : Drafting Operand := do
  let o ← settle o
  match op with
  | .not => negate o
  | op =>
    match o.numeral?.bind (Number.foldedUnary? op) with
    | some n => return { held := .constant (.number n) }
    | none =>
      let p ← toAny o
      release p.register
      resulting line (.unary unset op p)

/-! ### The left operand -/

/-- Brings the left operand of an operator to where it stays while the right one is evaluated. -/
def leftOperand (op : BinaryOp) (o : Operand) : Drafting Operand := do
  let o ← settle o
  let inRegister : Drafting Operand := do return { held := .place (← toAny o) }
  match op with
  | .concat => return { held := .place (← toNext o) }
  | .arith _ => if o.numeral?.isSome then return o else inRegister
  | .compare .equal => equalOperand o
  | .compare .notEqual => equalOperand o
  | .compare _ => if o.isShortNumber then return o else inRegister
where
  /-- The left operand of an equality. -/
  equalOperand (o : Operand) : Drafting Operand := do
    if o.numeral?.isSome then return o
    else
      match ← toSource o with
      | .constant v => return { held := .constant v }
      | .place p => return { held := .place p }

/-! ### Arithmetic -/

/-- Both operands in registers, the right one first. -/
def inRegisters (a b : Operand) : Drafting (Source × Source) := do
  let q ← toAny b
  let p ← toAny a
  releaseBoth p.register q.register
  return (.place p, .place q)

/-- The left operand in a register, the right one as a constant. -/
def withConstant (a : Operand) (n : Number) : Drafting (Source × Source) := do
  let p ← toAny a
  release p.register
  return (.place p, .constant (.number n))

/-- The numeral that the operand is, if an instruction can refer to it. -/
def numeralConstant? (o : Operand) : Drafting (Option Number) := do
  match o.numeral? with
  | none => return none
  | some n => return (← toConstant? o).map fun _ => n

/-- Operands of which the right one may be a constant. -/
def maybeConstant (a b : Operand) : Drafting (Source × Source) := do
  match ← numeralConstant? b with
  | some n => withConstant a n
  | none => inRegisters a b

/-- The word that an operand is, if it fits into an instruction with either sign. -/
def shortEitherWay? (o : Operand) : Option Int64 :=
  o.int?.filter fun n => Operand.fitsShort n && Operand.fitsShort (-n)

/-- The operands of an operator that may be exchanged, for which `isConstant` says whether an
operand may stand in the instruction. -/
def exchangeable (short : Bool) (isConstant : Operand → Bool) (a b : Operand) :
    Drafting (Source × Source) := do
  let (first, second, exchanged) := if isConstant a then (b, a, true) else (a, b, false)
  let constant? ←
    if short && second.isShortInt then pure second.numeral?
    else if isConstant second then numeralConstant? second
    else pure none
  match constant? with
  | none => inRegisters a b
  | some n => do
    let (p, c) ← withConstant first n
    return if exchanged then (c, p) else (p, c)

/-- The operands of an operator as the instruction has them. -/
def arithOperands (op : ArithOp) (a b : Operand) : Drafting (Source × Source) := do
  let isNumeral (o : Operand) : Bool := o.numeral?.isSome
  let isInt (o : Operand) : Bool := o.int?.isSome
  match op with
  | .add => exchangeable true isNumeral a b
  | .mul => exchangeable false isNumeral a b
  | .bitAnd => exchangeable false isInt a b
  | .bitOr => exchangeable false isInt a b
  | .bitXor => exchangeable false isInt a b
  | .sub =>
    match shortEitherWay? b with
    | some n => withConstant a (.int n)
    | none => maybeConstant a b
  | .shiftLeft =>
    match a.int?.filter Operand.fitsShort, shortEitherWay? b with
    | some n, _ => do
      let (p, c) ← withConstant b (.int n)
      return (c, p)
    | none, some n => withConstant a (.int n)
    | none, none => inRegisters a b
  | .shiftRight =>
    match b.int?.filter Operand.fitsShort with
    | some n => withConstant a (.int n)
    | none => inRegisters a b
  | _ => maybeConstant a b

/-- Arithmetic. -/
def arith (line : Nat) (op : ArithOp) (a b : Operand) : Drafting Operand := do
  let folded? := do Number.folded? op (← a.numeral?) (← b.numeral?)
  match folded? with
  | some n => return { held := .constant (.number n) }
  | none =>
    let (p, q) ← arithOperands op a b
    resulting line (.arith unset op p q)

/-! ### Comparisons and strings -/

/-- A comparison that jumps if it comes out as said. -/
def comparing (line : Nat) (op : Comparison) (a b : Source) (holds : Bool) : Drafting Operand := do
  return { held := .compared (← emit line (.compare op a b holds 0)) }

/-- An equality. -/
def equality (line : Nat) (holds : Bool) (a b : Operand) : Drafting Operand := do
  let (a, b) :=
    match a.held with
    | .place _ => (a, b)
    | _ => (b, a)
  let p ← toAny a
  let q ← match b.numeral?.filter fun _ => b.isShortNumber with
    | some n => pure (Source.constant (.number n))
    | none => toSource b
  match q with
  | .place q => releaseBoth p.register q.register
  | .constant _ => release p.register
  comparing line .equal (.place p) q holds

/-- A comparison by order. -/
def ordering (line : Nat) (op : Comparison) (a b : Operand) : Drafting Operand := do
  match a.numeral?.filter fun _ => a.isShortNumber, b.numeral?.filter fun _ => b.isShortNumber with
  | _, some n =>
    let p ← toAny a
    release p.register
    comparing line op (.place p) (.constant (.number n)) true
  | some n, none =>
    let q ← toAny b
    release q.register
    comparing line op (.constant (.number n)) (.place q) true
  | none, none =>
    let p ← toAny a
    let q ← toAny b
    releaseBoth p.register q.register
    comparing line op (.place p) (.place q) true

/-- A comparison. -/
def compared (line : Nat) (op : CompareOp) (a b : Operand) : Drafting Operand :=
  match op with
  | .equal => equality line true a b
  | .notEqual => equality line false a b
  | .less => ordering line .less a b
  | .lessEqual => ordering line .lessEqual a b
  | .greater => ordering line .less b a
  | .greaterEqual => ordering line .lessEqual b a

/-- Joins strings. Several joints in a row are one instruction. -/
def joined (line : Nat) (a b : Operand) : Drafting Operand := do
  let q ← toNext b
  let first := q.register - 1
  match ← previous? with
  | some (.concat start count) =>
    if start = q.register then
      rewrite ((← position) - 1) fun _ => .concat first (count + 1)
    else
      let _ ← emit line (.concat first 2)
  | _ =>
    let _ ← emit line (.concat first 2)
  release q.register
  return a

/-- An operator with two operands, of which the left one was prepared. -/
def binary (line : Nat) (op : BinaryOp) (a b : Operand) : Drafting Operand := do
  let b ← settle b
  match op with
  | .concat => joined line a b
  | .arith op => arith line op a b
  | .compare op => compared line op a b

end StoredRoutine.Script.Drafting
