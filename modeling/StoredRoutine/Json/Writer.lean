import StoredRoutine.Json.Basic
import StoredRoutine.Text.Hex
import StoredRoutine.Decimal.Layout

/-!
# `StoredRoutine.Json.Writer`: the compact text of a document

No blanks are written, members come in the order of the document, and doubles are written with the
fewest digits that read back. A text escapes the quote, the backslash and the control characters.
-/

set_option autoImplicit false

namespace StoredRoutine.Json

/-- The written form of one character of a text. -/
def escapeChar (c : Char) : List Char :=
  if c = '"' then ['\\', '"']
  else if c = '\\' then ['\\', '\\']
  else if c = '\x08' then ['\\', 'b']
  else if c = '\t' then ['\\', 't']
  else if c = '\n' then ['\\', 'n']
  else if c = '\x0c' then ['\\', 'f']
  else if c = '\r' then ['\\', 'r']
  else if c.toNat < 0x20 then
    ['\\', 'u', '0', '0', Text.hexDigit (c.toNat / 16), Text.hexDigit (c.toNat % 16)]
  else [c]

/-- A text in quotes. -/
def quote (s : String) : List Char := '"' :: s.toList.flatMap escapeChar ++ ['"']

/-- The text of a number. A double that is not finite has no place in a document and reads as
null. -/
def JsonNumber.render : JsonNumber → List Char
  | .integer n => (toString n).toList
  | .float x => (Decimal.FloatStyle.document.render x).toList

mutual

/-- The characters of a document. -/
def chars : Json → List Char
  | .null => "null".toList
  | .bool true => "true".toList
  | .bool false => "false".toList
  | .number n => JsonNumber.render n
  | .string s => quote s
  | .array items => '[' :: itemChars items ++ [']']
  | .object members => '\x7b' :: memberChars members ++ ['\x7d']

/-- The items of an array, commas between them. -/
def itemChars : List Json → List Char
  | [] => []
  | [v] => chars v
  | v :: rest => chars v ++ ',' :: itemChars rest

/-- The members of an object, commas between them. -/
def memberChars : List (String × Json) → List Char
  | [] => []
  | [(k, v)] => quote k ++ ':' :: chars v
  | (k, v) :: rest => quote k ++ ':' :: chars v ++ ',' :: memberChars rest

end

/-- The compact text of a document. -/
def render (j : Json) : String := String.ofList j.chars

end StoredRoutine.Json
