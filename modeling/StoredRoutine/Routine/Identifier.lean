/-!
# `StoredRoutine.Routine.Identifier`: names that scripts can use

An identifier of the script language is an ASCII letter or underscore followed by ASCII letters,
digits and underscores, and is no reserved word. Any name can be turned into one.
-/

set_option autoImplicit false

namespace StoredRoutine.Identifier

/-- The reserved words of the script language. -/
def reserved : List String :=
  ["and", "break", "do", "else", "elseif", "end", "false", "for", "function", "goto", "if", "in",
   "local", "nil", "not", "or", "repeat", "return", "then", "true", "until", "while"]

/-- Whether a character can start an identifier. -/
def isStart (c : Char) : Bool := c = '_' || c.isAlpha

/-- Whether a character can occur in an identifier. -/
def isPart (c : Char) : Bool := c = '_' || c.isAlphanum

/-- Whether characters have the form of an identifier, reserved words included. -/
def isShaped : List Char → Bool
  | [] => false
  | c :: rest => isStart c && rest.all isPart

/-- Whether a name is an identifier. -/
def isValid (name : String) : Bool := isShaped name.toList && !reserved.contains name

/-- Replaces every character that cannot occur by an underscore, puts an underscore in front of a
leading digit, and one behind a reserved word. -/
def sanitize (name : String) : String :=
  let cs := name.toList.map fun c => if isPart c then c else '_'
  let cs :=
    match cs with
    | [] => ['_']
    | c :: rest => if c.isDigit then '_' :: c :: rest else c :: rest
  let word := String.ofList cs
  if reserved.contains word then word ++ "_" else word

end StoredRoutine.Identifier
