import StoredRoutine.Engine.Basic
import StoredRoutine.Text.Bytes

/-!
# `StoredRoutine.Engine.Arguments`: the arguments of services

Services convert their arguments before they do anything. A text may be given as a number, a whole
number as any number, which loses its fraction, or as a string that stands for one, and a flag as
any value. An argument of another type is a failure; one that may be missing may also be nil.
-/

set_option autoImplicit false

namespace StoredRoutine.Arguments

open Script (TableId Value)

/-- The argument of the given number, counted from zero; nil if it is missing. -/
def nth (args : List Value) (i : Nat) : Value := args.getD i .nil

/-- The bytes of a string, or of a number. -/
def bytes (v : Value) : Outcome ByteArray :=
  match v.stringForm? with
  | some b => .ok b
  | none => .error Serving.mismatch

/-- A text. -/
def text (v : Value) : Outcome String := do
  match String.fromUTF8? (← bytes v) with
  | some s => return s
  | none => throw Serving.mismatch

/-- An argument that may be missing. -/
def optional {α : Type} (read : Value → Outcome α) (v : Value) : Outcome (Option α) :=
  if v.isNil then .ok none else (read v).map some

/-- A whole number. -/
def whole (v : Value) : Outcome Int64 :=
  match v.intForm? with
  | some n => .ok n
  | none =>
    let part? :=
      match v.numberForm? with
      | some (.float x) => (if x < 0 then Script.Number.ceilOf? x else Script.Number.floorOf? x)
      | _ => none
    match part?.bind Script.Number.intOfWhole? with
    | some n => .ok n
    | none => .error Serving.mismatch

/-- A flag, which is not set if it is missing. -/
def flag (v : Value) : Bool := v.isTrue

/-- A table. -/
def table : Value → Outcome TableId
  | .table id => .ok id
  | _ => .error Serving.mismatch

/-- A limit on the number of rows; 0 stands for none. -/
def limit (v : Value) : Outcome Nat := do
  return ((← optional whole v).getD 0).toInt.toNat

end StoredRoutine.Arguments
