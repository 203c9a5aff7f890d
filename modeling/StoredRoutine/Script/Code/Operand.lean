import StoredRoutine.Script.Code.Draft

/-!
# `StoredRoutine.Script.Code.Operand`: where the value of an expression is

When an expression has been written its value need not be in a register yet: it may be a constant, a
field that nobody has read, the result of an instruction that lacks a place for it, or the outcome
of jumps. The functions here bring it to where it is needed, and no earlier.
-/

set_option autoImplicit false

namespace StoredRoutine.Script

/-- A jump that lacks its target. -/
structure OpenJump where
  position : Nat
  /-- Whether the value that it decides on may be the value of the whole expression. -/
  keeps : Bool

/-- Where a value is, apart from jumps. -/
inductive Held where
  | nothing
  | constant (value : Constant)
  | place (p : Place)
  /-- A variable of a function around. -/
  | outer (index : Nat)
  /-- A field that has not been read. -/
  | field (line : Nat) (object : Holder) (key : Source)
  /-- The result of an instruction that lacks a place for it. -/
  | pending (position : Nat)
  /-- The results of a call, from a register on. -/
  | call (position first : Nat)
  /-- The further arguments of the function. -/
  | varargs (position : Nat)
  /-- A comparison that jumps. -/
  | compared (position : Nat)

/-- The value of an expression. -/
structure Operand where
  held : Held
  /-- The jumps that are taken when the expression is true. -/
  whenTrue : List OpenJump := []
  /-- The jumps that are taken when the expression is false. -/
  whenFalse : List OpenJump := []

namespace Operand

/-- Whether jumps lead out of the expression. -/
def hasJumps (o : Operand) : Bool := !o.whenTrue.isEmpty || !o.whenFalse.isEmpty

/-- Whether the expression may have any number of values. -/
def isOpen (o : Operand) : Bool :=
  match o.held with
  | .call .. => true
  | .varargs _ => true
  | _ => false

/-- The numeral that the expression is. -/
def numeral? (o : Operand) : Option Number :=
  if o.hasJumps then none
  else
    match o.held with
    | .constant (.number n) => some n
    | _ => none

/-- The constant that the expression is. -/
def constant? (o : Operand) : Option Constant :=
  if o.hasJumps then none
  else
    match o.held with
    | .constant v => some v
    | _ => none

/-- The word that the expression is as a numeral. -/
def int? (o : Operand) : Option Int64 :=
  match o.numeral? with
  | some (.int n) => some n
  | _ => none

/-- Whether a word fits into an instruction as it is. -/
def fitsShort (n : Int64) : Bool := -127 ≤ n && n ≤ 128

/-- Whether the expression is a word that fits into an instruction as it is. -/
def isShortInt (o : Operand) : Bool := o.int?.any fitsShort

/-- Whether the expression is a numeral that fits into an instruction as it is. -/
def isShortNumber (o : Operand) : Bool := (o.numeral?.bind Number.toInt64?).any fitsShort

end Operand

namespace Drafting

/-! ### Jumps -/

/-- Gives a jump its target; a value that it keeps goes to a place if there is one. Answers whether
the jump does keep it. -/
def land (j : OpenJump) (keep : Option Place) (target : Nat) : Drafting Unit :=
  rewrite j.position fun i =>
    match i.withTarget target with
    | .branch c holds _ t =>
      .branch c holds (if j.keeps then keep.filter (fun p => p.register != c.register) else none) t
    | i => i

/-- Gives jumps that keep no value their target. -/
def landAll (jumps : List OpenJump) (target : Nat) : Drafting Unit :=
  jumps.forM fun j => land j none target

/-- Gives jumps that keep no value the next position as their target. -/
def landHere (jumps : List OpenJump) : Drafting Unit := do
  let here ← mark
  landAll jumps here

/-- Writes a jump. -/
def jump : Drafting OpenJump := do return ⟨← emit 0 (.jump 0), false⟩

/-- Writes a jump that belongs to another instruction. -/
def skip : Drafting OpenJump := do return ⟨← emit 0 (.skip 0), false⟩

/-- The same jumps, which keep no value. -/
def keepless (jumps : List OpenJump) : List OpenJump := jumps.map fun j => { j with keeps := false }

/-! ### Bringing values into registers -/

/-- Gives the register of an operand back. -/
def releaseOperand (o : Operand) : Drafting Unit :=
  match o.held with
  | .place p => release p.register
  | _ => pure ()

/-- A place that is to be set later. -/
def unset : Place := ⟨0, false⟩

/-- Reads what has not been read, and takes the first of several values. -/
def settle (o : Operand) : Drafting Operand :=
  match o.held with
  | .outer i => do return { o with held := .pending (← emit 0 (.getOuter unset i)) }
  | .field line object key => do
    match object, key with
    | .place p, .place q => releaseBoth p.register q.register
    | .place p, .constant _ => release p.register
    | .outer _, _ => pure ()
    return { o with held := .pending (← emit line (.getField unset object key)) }
  | .call _ first => return { o with held := .place ⟨first, false⟩ }
  | .varargs position => do
    rewrite position fun
      | .varargs dest _ => .varargs dest (some 1)
      | i => i
    return { o with held := .pending position }
  | _ => return o

/-- Whether a constant stands in an instruction that loads it. -/
def loadsDirectly : Constant → Bool
  | .number (.int n) => -65535 ≤ n && n ≤ 65536
  | .number (.float x) =>
    match Number.toInt64? (.float x) with
    | some n => -65535 ≤ n && n ≤ 65536
    | none => false
  | .string _ => false
  | _ => true

/-- Brings a settled value to a place, unless it is the outcome of a comparison. -/
def moveTo (dest : Place) (o : Operand) : Drafting Operand := do
  match o.held with
  | .constant v =>
    if !loadsDirectly v then
      let _ ← constantNumber v
    let _ ← emit 0 (.load dest v)
    return { o with held := .place dest }
  | .pending position =>
    rewrite position (·.withDest dest)
    return { o with held := .place dest }
  | .place p =>
    if p.register != dest.register then
      let _ ← emit 0 (.copy dest p)
    return { o with held := .place dest }
  | _ => return o

/-- Brings a value to a place, whatever jumps lead out of the expression. -/
def bringTo (dest : Place) (o : Operand) : Drafting Unit := do
  let o ← moveTo dest (← settle o)
  let test : List OpenJump :=
    match o.held with
    | .compared position => [⟨position, false⟩]
    | _ => []
  let isTest := !test.isEmpty
  let o := { o with whenTrue := o.whenTrue ++ test }
  if o.hasJumps then
    let valueless (jumps : List OpenJump) : Bool := jumps.any fun j => !j.keeps
    let mut whenFalse := 0
    let mut whenTrue := 0
    if valueless o.whenTrue || valueless o.whenFalse then
      let around : List OpenJump ← if isTest then pure [] else do pure [← jump]
      whenFalse ← mark
      let _ ← emit 0 (.load dest (.bool false))
      let behind ← skip
      whenTrue ← mark
      let _ ← emit 0 (.load dest (.bool true))
      let here ← mark
      landAll (behind :: around) here
    let last ← mark
    o.whenFalse.forM fun j => land j (some dest) (if j.keeps then last else whenFalse)
    o.whenTrue.forM fun j => land j (some dest) (if j.keeps then last else whenTrue)

/-- Brings a value into the next register, which is taken into use. -/
def toNext (o : Operand) : Drafting Place := do
  let o ← settle o
  releaseOperand o
  let dest ← next
  bringTo dest o
  return dest

/-- Brings a value into any register, if it is in none yet. -/
def toAny (o : Operand) : Drafting Place := do
  let o ← settle o
  match o.held with
  | .place p =>
    if !o.hasJumps then return p
    else if (← level) ≤ p.register then
      bringTo p o
      return p
    else toNext o
  | _ => toNext o

/-- The value without jumps: a constant, or in a register. -/
def toValue (o : Operand) : Drafting Operand := do
  let isTest :=
    match o.held with
    | .compared _ => true
    | _ => false
  if isTest || o.hasJumps then return { held := .place (← toAny o) } else settle o

/-- The constant that the expression is, if an instruction can refer to it. -/
def toConstant? (o : Operand) : Drafting (Option Constant) := do
  match o.constant? with
  | some v => return if (← constantNumber v) ≤ maxConstant then some v else none
  | none => return none

/-- A constant, or a place. -/
def toSource (o : Operand) : Drafting Source := do
  match ← toConstant? o with
  | some v => return .constant v
  | none => return .place (← toAny o)

/-! ### Fields -/

/-- The longest string that instructions can have as the name of a field. -/
def maxFieldName : Nat := 40

/-- The constant key that an instruction for fields can have. Every string becomes a constant. -/
def fieldKey? (key : Operand) : Drafting (Option Constant) := do
  match key.constant? with
  | some (.string b) =>
    let n ← constantNumber (.string b)
    return if n ≤ maxConstant ∧ b.size ≤ maxFieldName then some (.string b) else none
  | some (.number (.int n)) => return if 0 ≤ n ∧ n ≤ 255 then some (.number (.int n)) else none
  | _ => return none

/-- Whether a constant is a string. -/
def isString : Constant → Bool
  | .string _ => true
  | _ => false

/-- A field of an object that is in a place or is a variable of a function around. -/
def field (line : Nat) (object key : Operand) : Drafting Held := do
  let constant? ← fieldKey? key
  match object.held, constant?.filter isString with
  | .outer i, some k => return .field line (.outer i) (.constant k)
  | _, _ =>
    let p ← toAny object
    match constant? with
    | some k => return .field line (.place p) (.constant k)
    | none => return .field line (.place p) (.place (← toAny key))

/-- Brings an object into a register, unless it is a variable of a function around. -/
def toHolder (o : Operand) : Drafting Operand := do
  match o.held with
  | .outer _ => if o.hasJumps then return { held := .place (← toAny o) } else return o
  | _ => return { held := .place (← toAny o) }

/-! ### Conditions -/

/-- Jumps if a settled value is true, or false, as said. -/
def branch (o : Operand) (holds : Bool) : Drafting OpenJump := do
  let negation? ← do
    match o.held with
    | .pending position =>
      if position + 1 = (← current).code.size then
        match (← current).code[position]? with
        | some (.unary _ .not p) => pure (some p)
        | _ => pure none
      else pure none
    | _ => pure none
  match negation? with
  | some p =>
    takeBack
    return ⟨← emit 0 (.branch p (!holds) none 0), false⟩
  | none =>
    let o ← match o.held with
      | .place _ => pure o
      | _ => do
        let dest ← next
        moveTo dest o
    releaseOperand o
    let p :=
      match o.held with
      | .place p => p
      | _ => unset
    return ⟨← emit 0 (.branch p holds none 0), true⟩

/-- Goes on if a value is true. The jumps for the other case are answered. -/
def goIfTrue (o : Operand) : Drafting (List OpenJump) := do
  let o ← settle o
  let jumps : List OpenJump ←
    match o.held with
    | .compared position => do
      rewrite position (·.negated)
      pure [⟨position, false⟩]
    | .constant .nil => do pure [← branch o false]
    | .constant (.bool false) => do pure [← branch o false]
    | .constant _ => pure []
    | _ => do pure [← branch o false]
  landHere o.whenTrue
  return o.whenFalse ++ jumps

/-- Goes on if a value is false. The jumps for the other case are answered. -/
def goIfFalse (o : Operand) : Drafting (List OpenJump) := do
  let o ← settle o
  let jumps : List OpenJump ←
    match o.held with
    | .compared position => pure [⟨position, false⟩]
    | .constant .nil => pure []
    | .constant (.bool false) => pure []
    | _ => do pure [← branch o true]
  landHere o.whenFalse
  return o.whenTrue ++ jumps

/-- What is assigned to. -/
inductive AssignTarget where
  | variable (p : Place)
  | outer (index : Nat)
  | field (object : Holder) (key : Source)

/-- Assigns a value. -/
def store (line : Nat) (target : AssignTarget) (o : Operand) : Drafting Unit := do
  match target with
  | .variable p =>
    releaseOperand o
    bringTo p o
  | .outer i =>
    let p ← toAny o
    let _ ← emit line (.setOuter i p)
    release p.register
  | .field object key =>
    match ← toSource o with
    | .constant v =>
      let _ ← emit line (.setField object key (.constant v))
    | .place p =>
      let _ ← emit line (.setField object key (.place p))
      release p.register

end Drafting

end StoredRoutine.Script
