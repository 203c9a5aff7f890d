import StoredRoutine.Script.Syntax

/-!
# `StoredRoutine.Script.Arithmetic`: arithmetic on numbers

What an operator computes from numbers, when it fails, and when it can be computed before a script
runs.
-/

set_option autoImplicit false

namespace StoredRoutine.Script

/-- Whether an operator works on bits. -/
def ArithOp.isBitwise : ArithOp → Bool
  | .bitAnd => true
  | .bitOr => true
  | .bitXor => true
  | .shiftLeft => true
  | .shiftRight => true
  | _ => false

namespace Number

/-- An operator on the bits of words. -/
def bits (op : ArithOp) (a b : Int64) : Int64 :=
  match op with
  | .bitAnd => a &&& b
  | .bitOr => a ||| b
  | .bitXor => a ^^^ b
  | .shiftLeft => shiftLeft a b
  | _ => shiftRight a b

/-- Arithmetic on numbers; a fault for a zero divisor and for bits of a number that is no word. -/
def arith (op : ArithOp) (a b : Number) : Except String Number :=
  match op with
  | .add => .ok (a.add b)
  | .sub => .ok (a.sub b)
  | .mul => .ok (a.mul b)
  | .div => .ok (a.div b)
  | .pow => .ok (a.pow b)
  | .floorDiv => (a.floorDiv? b).elim (.error "attempt to perform 'n//0'") .ok
  | .floorMod => (a.floorMod? b).elim (.error "attempt to perform 'n%%0'") .ok
  | op =>
    match a.toInt64?, b.toInt64? with
    | some x, some y => .ok (.int (bits op x y))
    | _, _ => .error "number has no integer representation"

/-- The bits of a word turned over; a fault for a number that is no word. -/
def complement (a : Number) : Except String Number :=
  match a.toInt64? with
  | some n => .ok (.int (~~~n))
  | none => .error "number has no integer representation"

/-- Whether a number is zero. -/
def isZero (a : Number) : Bool := a.equal (.int 0)

/-- A result as it may stand in the code: neither a zero of the doubles nor a NaN. -/
def storable? : Except String Number → Option Number
  | .ok (.int n) => some (.int n)
  | .ok (.float x) => if x == 0 then none else some (.float x)
  | _ => none

/-- The result of an operator on numerals, if it is computed before the script runs. A division by
zero is left to the script. -/
def folded? (op : ArithOp) (a b : Number) : Option Number :=
  if (op = .div ∨ op = .floorDiv ∨ op = .floorMod) ∧ b.isZero then none
  else storable? (arith op a b)

/-- The result of an operator on a numeral, if it is computed before the script runs. -/
def foldedUnary? (op : UnaryOp) (a : Number) : Option Number :=
  match op with
  | .neg => storable? (.ok a.neg)
  | .bitNot => storable? a.complement
  | _ => none

end Number

end StoredRoutine.Script
