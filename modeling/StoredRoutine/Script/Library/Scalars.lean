import StoredRoutine.Script.Library.Arguments

/-!
# `StoredRoutine.Script.Library.Scalars`: functions on numbers and on strings of bytes

Letters are those of the ASCII range.
-/

set_option autoImplicit false

namespace StoredRoutine.Script.Library

/-- A double as a word if it equals one. -/
def roundedNumber (x : Float) : Number := (Number.ofFloat x).normalized

/-- Rounds a number that is no word, and makes it one if it fits. -/
def rounded (round : Float → Float) : Number → Number
  | .int n => .int n
  | .float x => roundedNumber (round x)
  | .nan s => .nan s

/-- The kind of a number; nil for any other value. -/
def numberKind : Value → Value
  | .number (.int _) => .ofText "integer"
  | .number _ => .ofText "float"
  | _ => .nil

/-- The number without its sign. -/
def absolute : Number → Number
  | .int n => .int (if n < 0 then -n else n)
  | .float x => .float x.abs
  | .nan _ => .nan false

/-- The first of the arguments that no other one is before. -/
def extremum (before : Number → Number → Bool) (args : List Value) : Answer Value := do
  let first ← number args 0
  let rest ← (List.range (args.length - 1)).mapM fun i => number args (i + 1)
  return .number (rest.foldl (fun acc n => if before n acc then n else acc) first)

/-- The remainder of a division that goes toward zero. -/
def fmod (args : List Value) : Answer Value := do
  let a ← number args 0
  let b ← number args 1
  match a, b with
  | .int x, .int y =>
    if y = 0 then throw (.argument 2 "zero") else return .number (.int (x % y))
  | a, b => return .number (Number.floatOp Number.remainder a b)

/-- The word that a number equals; nil if there is none. -/
def toWhole (args : List Value) : Answer Value := do
  let v ← any args 0
  match v with
  | .number n => return (n.toInt64?.map Value.ofInt).getD .nil
  | .string _ => return (v.intForm?.map Value.ofInt).getD .nil
  | _ => return .nil

end StoredRoutine.Script.Library

namespace StoredRoutine.Script.Library

/-- The greatest size of a string that is made by repeating. -/
def maxRepeated : Nat := 2 ^ 30

/-- Changes every byte as a character. -/
def mapBytes (f : Char → Char) (b : ByteArray) : ByteArray :=
  Text.bytesOfChars ((Text.byteChars b).map f)

/-- Repeats a string, with a separator between. -/
def repeatString (args : List Value) : Answer Value := do
  let s ← string args 0
  let n ← whole args 1
  let sep ← stringOr args 2 ByteArray.empty
  if n ≤ 0 then return .string ByteArray.empty
  else
    let count := n.toInt.toNat
    if maxRepeated < count * (s.size + sep.size) then throw (.message "resulting string too large")
    else
      let more := sep.data ++ s.data
      if more.isEmpty then return .string ByteArray.empty
      else return .string ⟨Nat.repeat (· ++ more) (count - 1) s.data⟩

/-- The bytes between two places, both included. -/
def slice (s : ByteArray) (first last : Nat) : ByteArray :=
  let first := max first 1
  let last := min last s.size
  if last < first then ByteArray.empty else s.extract (first - 1) last

/-- A part of a string. -/
def subString (args : List Value) : Answer Value := do
  let s ← string args 0
  let first ← whole args 1
  let last ← wholeOr args 2 (-1)
  return .string (slice s (place s.size first) (place s.size last))

/-- The bytes of a part of a string, as numbers. -/
def bytes (args : List Value) : Answer (List Value) := do
  let s ← string args 0
  let first ← wholeOr args 1 1
  let last ← wholeOr args 2 first
  return (slice s (place s.size first) (place s.size last)).data.toList.map fun b => .ofNat b.toNat

/-- The string of bytes that are given as numbers. -/
def ofBytes (args : List Value) : Answer Value := do
  let bs ← (List.range args.length).mapM fun i => do
    let n ← whole args i
    if 0 ≤ n ∧ n ≤ 255 then return UInt8.ofNat n.toInt.toNat
    else throw (.argument (i + 1) "value out of range")
  return .string ⟨bs.toArray⟩

end StoredRoutine.Script.Library
