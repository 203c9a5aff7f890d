import StoredRoutine.Json.Basic

/-!
# `StoredRoutine.Json.Access`: looking into a document

Each function answers nothing when the document is of another kind.
-/

set_option autoImplicit false

namespace StoredRoutine.Json

/-- The first member of an object with the given key. -/
def member? (key : String) : Json → Option Json
  | .object members => members.lookup key
  | _ => none

/-- The whole number that a document is. -/
def int? : Json → Option Int
  | .number (.integer n) => some n
  | _ => none

/-- The text that a document is. -/
def text? : Json → Option String
  | .string s => some s
  | _ => none

/-- The truth value that a document is. -/
def bool? : Json → Option Bool
  | .bool b => some b
  | _ => none

/-- The items of an array. -/
def items? : Json → Option (List Json)
  | .array items => some items
  | _ => none

/-- Whether a document is null. -/
def isNull : Json → Bool
  | .null => true
  | _ => false

end StoredRoutine.Json
