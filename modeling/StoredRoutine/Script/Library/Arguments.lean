import StoredRoutine.Script.Heap

/-!
# `StoredRoutine.Script.Library.Arguments`: what library functions take

Library functions check their arguments themselves. A fault says which argument is wrong; the
machine adds the name of the function and the place of the call.
-/

set_option autoImplicit false

namespace StoredRoutine.Script.Library

/-- Why a library function does not answer. -/
inductive Fault where
  /-- A message, to which the place of the call is added. -/
  | message (text : String)
  /-- A message as it is. -/
  | bare (text : String)
  /-- An argument, counted from one, is wrong. -/
  | argument (number : Nat) (text : String)

/-- What a library function answers. -/
abbrev Answer (α : Type) : Type := Except Fault α

/-- The text for a value of another type than the one expected; the value may be missing. -/
def expected (what : String) (given : Option Value) : String :=
  what ++ " expected, got " ++ given.elim "no value" (·.typeName)

/-- The argument of the given number, counted from zero, if there is one. -/
def given? (args : List Value) (i : Nat) : Option Value := args[i]?

/-- The argument of the given number, counted from zero; nil if it is missing. -/
def argument (args : List Value) (i : Nat) : Value := (given? args i).getD .nil

/-- An argument that may be nil but not missing. -/
def any (args : List Value) (i : Nat) : Answer Value :=
  match given? args i with
  | some v => .ok v
  | none => .error (.argument (i + 1) "value expected")

/-- A table. -/
def table (args : List Value) (i : Nat) : Answer TableId :=
  match given? args i with
  | some (.table id) => .ok id
  | v => .error (.argument (i + 1) (expected "table" v))

/-- A number, or a string that stands for one. -/
def number (args : List Value) (i : Nat) : Answer Number :=
  match (argument args i).numberForm? with
  | some n => .ok n
  | none => .error (.argument (i + 1) (expected "number" (given? args i)))

/-- A whole number. -/
def whole (args : List Value) (i : Nat) : Answer Int64 := do
  let n ← number args i
  match n.toInt64? with
  | some n => return n
  | none => throw (.argument (i + 1) "number has no integer representation")

/-- A whole number, or the default if there is none. -/
def wholeOr (args : List Value) (i : Nat) (default : Int64) : Answer Int64 :=
  if (argument args i).isNil then .ok default else whole args i

/-- A string, or a number as its text. -/
def string (args : List Value) (i : Nat) : Answer ByteArray :=
  match (argument args i).stringForm? with
  | some b => .ok b
  | none => .error (.argument (i + 1) (expected "string" (given? args i)))

/-- A string, or the default if there is none. -/
def stringOr (args : List Value) (i : Nat) (default : ByteArray) : Answer ByteArray :=
  if (argument args i).isNil then .ok default else string args i

/-- A place in a string of the given length: a negative one counts from the end, and one before
the start is zero. -/
def place (length : Nat) (n : Int64) : Nat :=
  if 0 ≤ n then n.toInt.toNat else (n.toInt + length + 1).toNat

end StoredRoutine.Script.Library
