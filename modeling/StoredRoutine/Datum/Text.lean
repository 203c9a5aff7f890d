import StoredRoutine.Catalog.Descriptor
import StoredRoutine.Datum.Basic
import StoredRoutine.Json.Reader
import StoredRoutine.Numeric

/-!
# `StoredRoutine.Datum.Text`: values from text and back

`ofText` reads a text as a value of a type under a type modifier, `toText` writes a value. They
are what a host applies to numbers of exact decimals, enum labels, types that have no
representation of their own, and texts that scripts hand to columns of another type. Arrays and
rows have no text form.
-/

set_option autoImplicit false

namespace StoredRoutine.Datum

open Decimal

/-! ### Failures -/

/-- A text that is no form of a value of the type. -/
def invalidSyntax (typeName text : String) : Failure :=
  .conversion s!"invalid input syntax for type {typeName}: \"{text}\""

/-- A text that is no number of the type's width. -/
def outOfRange (typeName text : String) : Failure :=
  .conversion s!"value \"{text}\" is out of range or invalid for type {typeName}"

/-- A text that is no label of the enum. -/
def invalidLabel (typeName text : String) : Failure :=
  .conversion s!"invalid input value for enum {typeName}: \"{text}\""

/-! ### Forms of the scalar types -/

/-- Truth values have six spellings each. -/
def boolOfText? (text : String) : Option Bool :=
  let word := Text.foldCase (Text.trim text)
  if ["t", "true", "y", "yes", "on", "1"].contains word then some true
  else if ["f", "false", "n", "no", "off", "0"].contains word then some false
  else none

/-- A whole number of a given width in bits, blanks around it allowed. -/
def intOfText? (bits : Nat) (text : String) : Option Int :=
  (readInt? (Text.trim text).toList).filter fun n =>
    -(2 ^ (bits - 1) : Int) ≤ n ∧ n < 2 ^ (bits - 1)

/-- A double, blanks around it allowed, letters in either case. -/
def floatOfText? (text : String) : Option Float :=
  readFloat? (Text.foldCase (Text.trim text)).toList

/-- The length that a type modifier of a character type sets. -/
def charLength? (typeMod : Int32) : Option Nat :=
  if typeMod < 4 then none else some (typeMod.toInt - 4).toNat

/-- The type modifier of a character type of the given length. -/
def charTypeMod (len : Int32) : Int32 := len + 4

/-- The text cut to `max` characters, if only spaces are lost. -/
def cutSpaces? (max : Nat) (text : String) : Option String :=
  let cs := text.toList
  if (cs.drop max).all (· = ' ') then some (String.ofList (cs.take max)) else none

/-- A text of bounded length. -/
def varcharOfText (text : String) (typeMod : Int32) : Outcome String :=
  match charLength? typeMod with
  | none => .ok text
  | some max =>
    match cutSpaces? max text with
    | some cut => .ok cut
    | none => .error (.conversion s!"value too long for type character varying({max})")

/-- A text of fixed length, filled with spaces. -/
def bpcharOfText (text : String) (typeMod : Int32) : Outcome String :=
  match charLength? typeMod with
  | none => .ok text
  | some width =>
    match cutSpaces? width text with
    | some cut =>
      .ok (String.ofList (cut.toList ++ List.replicate (width - cut.toList.length) ' '))
    | none => .error (.conversion s!"value too long for type character({width})")

/-- The byte that a pair of characters denotes: two hexadecimal digits, the first of which may be
replaced by a plus sign. -/
def bytePair? (a b : Char) : Option UInt8 := do
  let high ← if a = '+' then some 0 else Text.hexValue? a
  let low ← Text.hexValue? b
  return UInt8.ofNat (16 * high + low)

/-- The bytes of a word of pairs. -/
def bytePairs? : List Char → Option (List UInt8)
  | [] => some []
  | a :: b :: rest => do
    let byte ← bytePair? a b
    let bytes ← bytePairs? rest
    return byte :: bytes
  | [_] => none

/-- Bytes, in hexadecimal after `\x`; any other text stands for its own bytes. -/
def byteaOfText? (text : String) : Option ByteArray :=
  match text.toList with
  | '\\' :: 'x' :: hex => (bytePairs? hex).map fun bytes => ⟨bytes.toArray⟩
  | _ => some text.toUTF8

/-- The hexadecimal form of bytes. -/
def textOfBytea (bytes : ByteArray) : String :=
  String.ofList ('\\' :: 'x' :: bytes.data.toList.flatMap Text.hexByte)

/-! ### Input and output -/

/-- Turns the absence of a value into a failure. -/
def orFail {α : Type} (f : Failure) : Option α → Outcome α
  | some a => .ok a
  | none => .error f

/-- Reads a text as a value of a scalar type. `name` is the name of the type, for messages. -/
def scalarOfText (s : Scalar) (name text : String) (typeMod : Int32) : Outcome Datum :=
  match s with
  | .bool => orFail (invalidSyntax name text) ((boolOfText? text).map .bool)
  | .int2 => orFail (outOfRange name text) ((intOfText? 16 text).map fun n => .int2 (Int16.ofInt n))
  | .int4 => orFail (outOfRange name text) ((intOfText? 32 text).map fun n => .int4 (Int32.ofInt n))
  | .int8 => orFail (outOfRange name text) ((intOfText? 64 text).map fun n => .int8 (Int64.ofInt n))
  | .float4 =>
    orFail (invalidSyntax name text) ((floatOfText? text).map fun x => .float4 x.toFloat32)
  | .float8 => orFail (invalidSyntax name text) ((floatOfText? text).map .float8)
  | .numeric => (Numeric.ofText text typeMod).map .numeric
  | .text => .ok (.text text)
  | .varchar => (varcharOfText text typeMod).map .text
  | .bpchar => (bpcharOfText text typeMod).map .text
  | .bytea => orFail (invalidSyntax name text) ((byteaOfText? text).map .bytea)
  | .json =>
    match Json.read? text with
    | .ok j => .ok (.json j)
    | .error e => .error (.conversion e.message)
  | .refcursor => .ok (.refcursor text)

/-- Reads a text as a value of a type. A type that is neither an enum nor a known scalar keeps the
text as it is. -/
def ofText (d : TypeDescriptor) (text : String) (typeMod : Int32) : Outcome Datum :=
  match d.kind with
  | .enum labels =>
    if labels.contains text then .ok (.enum text) else .error (invalidLabel d.name text)
  | _ =>
    match Scalar.ofId? d.id with
    | some s => scalarOfText s d.name text typeMod
    | none => .ok (.other text)

/-- Writes a value as text. -/
def toText : Datum → Outcome String
  | .bool b => .ok (if b then "t" else "f")
  | .int2 n => .ok (toString n.toInt)
  | .int4 n => .ok (toString n.toInt)
  | .int8 n => .ok (toString n.toInt)
  | .float4 x => .ok (FloatStyle.plain.render x.toFloat)
  | .float8 x => .ok (FloatStyle.plain.render x)
  | .numeric s => .ok s
  | .text s => .ok s
  | .enum s => .ok s
  | .refcursor s => .ok s
  | .other s => .ok s
  | .bytea b => .ok (textOfBytea b)
  | .json j => .ok j.render
  | .array _ => .error (.conversion "no text output for array values")
  | .row _ => .error (.conversion "no text output for record values")

end StoredRoutine.Datum
