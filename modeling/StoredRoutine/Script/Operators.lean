import StoredRoutine.Script.Arithmetic
import StoredRoutine.Script.Heap

/-!
# `StoredRoutine.Script.Operators`: operators on values

An operator that has no meaning of its own for its operands asks their metatables for a handler,
the left one first. Numbers stand for themselves, strings of digits for numbers in arithmetic, and
numbers for their texts when strings are joined. What is compared is of one type; strings compare
byte by byte.
-/

set_option autoImplicit false

namespace StoredRoutine.Script

/-- What an operator comes to. -/
inductive Applied where
  | value (v : Value)
  /-- A handler has to be called. -/
  | handler (f : Value) (args : List Value)
  | fault (text : String)

namespace Operators

/-- The event whose handler is asked for an operator. -/
def arithEvent : ArithOp → String
  | .add => "__add"
  | .sub => "__sub"
  | .mul => "__mul"
  | .div => "__div"
  | .floorMod => "__mod"
  | .pow => "__pow"
  | .floorDiv => "__idiv"
  | .bitAnd => "__band"
  | .bitOr => "__bor"
  | .bitXor => "__bxor"
  | .shiftLeft => "__shl"
  | .shiftRight => "__shr"

/-- The handler of an event, from the left or from the right operand. -/
def handler? (h : Heap) (event : String) (a b : Value) : Option Value :=
  let left := h.handler a event
  if !left.isNil then some left
  else
    let right := h.handler b event
    if !right.isNil then some right else none

/-- The message for an operand of the wrong type. -/
def wrongOperand (h : Heap) (doing : String) (v : Value) : String :=
  s!"attempt to {doing} a {h.typeLabel v} value"

/-- What an operator on numbers comes to. -/
def ofNumber : Except String Number → Applied
  | .ok n => .value (.number n)
  | .error text => .fault text

/-- Arithmetic on values that are not both numbers. -/
def arithOther (h : Heap) (op : ArithOp) (a b : Value) : Applied :=
  match a.numberForm?, b.numberForm? with
  | some x, some y => ofNumber (Number.arith op x y)
  | x, _ =>
    match handler? h (arithEvent op) a b with
    | some f => .handler f [a, b]
    | none =>
      let wrong := if x.isSome then b else a
      let what := if op.isBitwise then "perform bitwise operation on" else "perform arithmetic on"
      .fault (wrongOperand h what wrong)

/-- Arithmetic. -/
def arith (h : Heap) (op : ArithOp) (a b : Value) : Applied :=
  match a, b with
  | .number x, .number y => ofNumber (Number.arith op x y)
  | a, b => arithOther h op a b

/-- Joins strings. -/
def concat (h : Heap) (a b : Value) : Applied :=
  match a.stringForm?, b.stringForm? with
  | some x, some y => .value (.string (x ++ y))
  | x, _ =>
    match handler? h "__concat" a b with
    | some f => .handler f [a, b]
    | none => .fault (wrongOperand h "concatenate" (if x.isSome then b else a))

/-- Whether bytes come before others. -/
def bytesBefore : List UInt8 → List UInt8 → Bool
  | [], [] => false
  | [], _ :: _ => true
  | _ :: _, [] => false
  | a :: as, b :: bs => decide (a < b) || (a == b && bytesBefore as bs)

/-- The message for operands that do not compare. -/
def incomparable (h : Heap) (a b : Value) : String :=
  let left := h.typeLabel a
  let right := h.typeLabel b
  if left = right then s!"attempt to compare two {left} values"
  else s!"attempt to compare {left} with {right}"

/-- Whether one value is before another, strictly or not. -/
def before (h : Heap) (strict : Bool) (a b : Value) : Applied :=
  match a, b with
  | .number x, .number y => .value (.bool (if strict then x.less y else x.lessEqual y))
  | .string x, .string y =>
    .value (.bool (if strict then bytesBefore x.data.toList y.data.toList
      else !bytesBefore y.data.toList x.data.toList))
  | a, b =>
    match handler? h (if strict then "__lt" else "__le") a b with
    | some f => .handler f [a, b]
    | none => .fault (incomparable h a b)

/-- Whether values are equal. Two tables may have a handler. -/
def equal (h : Heap) (a b : Value) : Applied :=
  if a.same b then .value (.bool true)
  else
    match a, b with
    | .table _, .table _ =>
      match handler? h "__eq" a b with
      | some f => .handler f [a, b]
      | none => .value (.bool false)
    | _, _ => .value (.bool false)

/-- A comparison. What a handler answers counts as a truth value. -/
def compare (h : Heap) (op : Comparison) (a b : Value) : Applied :=
  match op with
  | .equal => equal h a b
  | .less => before h true a b
  | .lessEqual => before h false a b

/-- The handler of an operator with one operand. -/
def askUnary (h : Heap) (event doing : String) (v : Value) : Applied :=
  let f := h.handler v event
  if f.isNil then .fault (wrongOperand h doing v) else .handler f [v, v]

/-- An operator with one operand, except for the length. -/
def unary (h : Heap) (op : UnaryOp) (v : Value) : Applied :=
  match op with
  | .neg =>
    match v.numberForm? with
    | some n => .value (.number n.neg)
    | none => askUnary h "__unm" "perform arithmetic on" v
  | .bitNot =>
    match v.numberForm? with
    | some n => ofNumber n.complement
    | none => askUnary h "__bnot" "perform bitwise operation on" v
  | _ => .value (.bool !v.isTrue)

end Operators

end StoredRoutine.Script
