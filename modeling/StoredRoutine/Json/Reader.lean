import StoredRoutine.Json.Basic
import StoredRoutine.Text.Hex
import StoredRoutine.Decimal.Reading

/-!
# `StoredRoutine.Json.Reader`: reading a document

The reader accepts the standard grammar, at most `maxDepth` containers inside each other, and blanks
between tokens. A failure is the number of characters that were left when it was noticed; `read?`
turns it into a line and a column.

A number with a point or an exponent is read in machine arithmetic: the digits that fit an unsigned
word of sixty-four bits form a whole number, and the result is that number, as a double, times or
divided by a power of ten. This is not always the nearest double, but it is what documents are
compared by.
-/

set_option autoImplicit false

namespace StoredRoutine.Json

/-- A reader takes characters and answers a value and the characters after it, or how many were
left when it gave up. -/
abbrev Reader (α : Type) : Type := List Char → Except Nat (α × List Char)

/-- The most containers that may lie inside each other. -/
def maxDepth : Nat := 127

/-- Drops blanks: space, tab, line feed and carriage return. -/
def skipBlanks (cs : List Char) : List Char :=
  cs.dropWhile fun c => c = ' ' ∨ c = '\t' ∨ c = '\n' ∨ c = '\r'

/-- The code unit that four hexadecimal digits denote. -/
def codeUnit? (a b c d : Char) : Option Nat := do
  let a ← Text.hexValue? a
  let b ← Text.hexValue? b
  let c ← Text.hexValue? c
  let d ← Text.hexValue? d
  return ((a * 16 + b) * 16 + c) * 16 + d

/-- The character a simple escape stands for. -/
def simpleEscape? (c : Char) : Option Char :=
  if c = '"' ∨ c = '\\' ∨ c = '/' then some c
  else if c = 'b' then some '\x08'
  else if c = 'f' then some '\x0c'
  else if c = 'n' then some '\n'
  else if c = 'r' then some '\r'
  else if c = 't' then some '\t'
  else none

/-- The rest of a text after its opening quote. A code unit that is half of a surrogate pair has to
come with the other half. -/
def readText : Reader (List Char)
  | [] => .error 0
  | '"' :: rest => .ok ([], rest)
  | '\\' :: 'u' :: a :: b :: c :: d :: '\\' :: 'u' :: e :: f :: g :: h :: rest =>
    match codeUnit? a b c d with
    | none => .error rest.length
    | some u =>
      if 0xD800 ≤ u ∧ u < 0xDC00 then
        match codeUnit? e f g h with
        | none => .error rest.length
        | some v =>
          if 0xDC00 ≤ v ∧ v < 0xE000 then
            let point := 0x10000 + (u - 0xD800) * 0x400 + (v - 0xDC00)
            (readText rest).map fun r => (Char.ofNat point :: r.1, r.2)
          else .error rest.length
      else if 0xDC00 ≤ u ∧ u < 0xE000 then .error rest.length
      else
        (readText ('\\' :: 'u' :: e :: f :: g :: h :: rest)).map fun r =>
          (Char.ofNat u :: r.1, r.2)
  | '\\' :: 'u' :: a :: b :: c :: d :: rest =>
    match codeUnit? a b c d with
    | none => .error rest.length
    | some u =>
      if 0xD800 ≤ u ∧ u < 0xE000 then .error rest.length
      else (readText rest).map fun r => (Char.ofNat u :: r.1, r.2)
  | '\\' :: c :: rest =>
    match simpleEscape? c with
    | none => .error rest.length
    | some e => (readText rest).map fun r => (e :: r.1, r.2)
  | c :: rest =>
    if c.toNat < 0x20 ∨ c = '\\' then .error rest.length
    else (readText rest).map fun r => (c :: r.1, r.2)

/-- Appends digits to a whole number as long as it fits sixty-four bits. Answers the number and how
many digits it took. -/
def appendDigits : Nat → List Char → Nat × Nat
  | n, [] => (n, 0)
  | n, d :: rest =>
    let next := 10 * n + (d.toNat - 48)
    if 2 ^ 64 ≤ next then (n, 0)
    else
      let (m, taken) := appendDigits next rest
      (m, taken + 1)

/-- A power of ten as a double. -/
def powerOfTen (e : Nat) : Float := Decimal.nearestFloat false (10 ^ e) 1

/-- The double `x * 10 ^ e`, or nothing when it is too large. A large negative exponent is applied
in steps of 308. -/
def scale? (x : Float) (e : Int) : Option Float :=
  if e.natAbs ≤ 308 then
    if 0 ≤ e then
      let y := x * powerOfTen e.natAbs
      if y.isInf then none else some y
    else some (x / powerOfTen e.natAbs)
  else if x == 0 then some x
  else if 0 ≤ e then none
  else scale? (x / powerOfTen 308) (e + 308)
termination_by (-e).toNat
decreasing_by omega

/-- The parts of a number: sign, digits before the point, digits after it if there is one, and the
exponent if there is one. -/
structure NumberParts where
  negative : Bool
  whole : List Char
  fraction : Option (List Char)
  exponent : Option Int

/-- Splits a number off the front of a text. -/
def readNumberParts : Reader NumberParts := fun cs =>
  let (negative, cs) :=
    match cs with
    | '-' :: rest => (true, rest)
    | cs => (false, cs)
  let (whole, rest) := Decimal.splitDigits cs
  match whole with
  | [] => .error rest.length
  | '0' :: _ :: _ => .error rest.length
  | _ => do
    let (fraction, rest) ←
      match rest with
      | '.' :: rest =>
        let (ds, rest) := Decimal.splitDigits rest
        if ds.isEmpty then .error rest.length else pure (some ds, rest)
      | rest => pure (none, rest)
    match rest with
    | c :: rest =>
      if c = 'e' ∨ c = 'E' then
        let (minus, rest) := Decimal.splitSign rest
        let (ds, rest) := Decimal.splitDigits rest
        if ds.isEmpty then .error rest.length
        else
          let e : Int := Decimal.natOfDigits ds
          pure (⟨negative, whole, fraction, some (if minus then -e else e)⟩, rest)
      else pure (⟨negative, whole, fraction, none⟩, c :: rest)
    | [] => pure (⟨negative, whole, fraction, none⟩, [])

/-- The number that the parts denote, or nothing when it is out of range. -/
def NumberParts.value? (p : NumberParts) : Option JsonNumber :=
  let (n, taken) := appendDigits 0 p.whole
  let asFloat (m : Nat) (e : Int) : Option JsonNumber :=
    -- An exponent beyond thirty-two bits leaves nothing to compute.
    let x? : Option Float :=
      if 2 ^ 31 ≤ (p.exponent.getD 0).natAbs then
        if m ≠ 0 ∧ 0 ≤ p.exponent.getD 0 then none else some 0
      else scale? (Float.ofNat m) e
    x?.map fun x => .float (if p.negative then -x else x)
  if taken = p.whole.length ∧ p.fraction.isNone ∧ p.exponent.isNone then
    if ¬p.negative then some (.integer n)
    else if n = 0 ∨ 2 ^ 63 < n then some (.float (-(Float.ofNat n)))
    else some (.integer (-(n : Int)))
  else
    let skipped : Int := (p.whole.length - taken : Nat)
    let (m, places) := appendDigits n (p.fraction.getD [])
    asFloat m (skipped - places + p.exponent.getD 0)

/-- A number. -/
def readNumber : Reader JsonNumber := fun cs => do
  let (parts, rest) ← readNumberParts cs
  match parts.value? with
  | some n => pure (n, rest)
  | none => .error rest.length

/-- A fixed word. -/
def readWord (word : String) (value : Json) : Reader Json := fun cs =>
  if word.toList.isPrefixOf cs then .ok (value, cs.drop word.length) else .error cs.length

/-- The items of an array after the first bracket or comma, up to the closing bracket. `fuel` bounds
the number of items. -/
def readItems (item : Reader Json) : Nat → Reader (List Json)
  | 0 => fun cs => .error cs.length
  | fuel + 1 => fun cs => do
    let (v, rest) ← item cs
    match skipBlanks rest with
    | ',' :: rest =>
      let (vs, rest) ← readItems item fuel rest
      pure (v :: vs, rest)
    | ']' :: rest => pure ([v], rest)
    | rest => .error rest.length

/-- The members of an object after the first brace or comma, up to the closing brace. The key says
how the value is read. -/
def readMembers (item : String → Reader Json) : Nat → Reader (List (String × Json))
  | 0 => fun cs => .error cs.length
  | fuel + 1 => fun cs =>
    match skipBlanks cs with
    | '"' :: rest => do
      let (cs, rest) ← readText rest
      let key := String.ofList cs
      match skipBlanks rest with
      | ':' :: rest =>
        let (v, rest) ← item key rest
        match skipBlanks rest with
        | ',' :: rest =>
          let (ms, rest) ← readMembers item fuel rest
          pure ((key, v) :: ms, rest)
        | '\x7d' :: rest => pure ([(key, v)], rest)
        | rest => .error rest.length
      | rest => .error rest.length
    | rest => .error rest.length

/-- An object after the opening brace. -/
def readObject (item : String → Reader Json) : Reader Json := fun cs =>
  match skipBlanks cs with
  | '\x7d' :: rest => .ok (.object [], rest)
  | rest => (readMembers item (rest.length + 1) rest).map fun r => (.object r.1, r.2)

/-- A document whose containers are read by `inner`; without it no container may be entered. -/
def readValue (inner : Option (Reader Json)) : Reader Json := fun cs =>
  match skipBlanks cs with
  | [] => .error 0
  | 'n' :: rest => readWord "null" .null ('n' :: rest)
  | 't' :: rest => readWord "true" (.bool true) ('t' :: rest)
  | 'f' :: rest => readWord "false" (.bool false) ('f' :: rest)
  | '"' :: rest => (readText rest).map fun r => (.string (String.ofList r.1), r.2)
  | '[' :: rest =>
    match inner, skipBlanks rest with
    | none, _ => .error rest.length
    | some _, ']' :: rest => .ok (.array [], rest)
    | some item, rest => (readItems item (rest.length + 1) rest).map fun r => (.array r.1, r.2)
  | '\x7b' :: rest =>
    match inner with
    | none => .error rest.length
    | some item => readObject (fun _ => item) rest
  | c :: rest => (readNumber (c :: rest)).map fun r => (.number r.1, r.2)

/-- A raw document: members are in the order of the text and may repeat a key. `depth` is how many
containers may still be entered. -/
def readRaw : Nat → Reader Json
  | 0 => readValue none
  | depth + 1 => readValue (some (readRaw depth))

mutual

/-- The document with its members sorted and without repeated keys. -/
def sorted : Json → Json
  | .array items => .array (sortedItems items)
  | .object members => .object (sortMembers (sortedMembers members))
  | j => j

/-- Sorts inside every item. -/
def sortedItems : List Json → List Json
  | [] => []
  | j :: rest => sorted j :: sortedItems rest

/-- Sorts inside every member. -/
def sortedMembers : List (String × Json) → List (String × Json)
  | [] => []
  | (k, j) :: rest => (k, sorted j) :: sortedMembers rest

end

/-- Where a text stops being a document. Lines and columns count from one. -/
structure ReadError where
  line : Nat
  column : Nat
  deriving Repr, DecidableEq

/-- The place in a text before its last `left` characters. -/
def ReadError.place (text : List Char) (left : Nat) : ReadError :=
  let before := text.take (text.length - left)
  { line := before.count '\n' + 1
    column := (before.reverse.takeWhile fun c => c ≠ '\n').length }

/-- The message for a text that is no document. -/
def ReadError.message (e : ReadError) : String :=
  s!"malformed document at line {e.line} column {e.column}"

/-- Reads a whole text by a reader of documents. -/
def readWhole? (document : Reader Json) (text : String) : Except ReadError Json :=
  let cs := text.toList
  match document cs with
  | .error left => .error (ReadError.place cs left)
  | .ok (j, rest) =>
    let rest := skipBlanks rest
    if rest.isEmpty then .ok j else .error (ReadError.place cs rest.length)

/-- Reads a whole text as a document. -/
def read? (text : String) : Except ReadError Json :=
  (readWhole? (readRaw maxDepth) text).map sorted

end StoredRoutine.Json
