/-!
# `StoredRoutine.Json.Basic`: json documents

A document is a tree of arrays and objects over scalars. The members of an object are sorted by
key and no key occurs twice. Numbers are held as integers when they are written as such and fit
sixty-four bits, and as doubles otherwise.
-/

set_option autoImplicit false

namespace StoredRoutine

/-- A number of a document. -/
inductive JsonNumber where
  /-- A whole number from `-2 ^ 63` up to `2 ^ 64 - 1`. -/
  | integer (value : Int)
  | float (value : Float)
  deriving Repr, Inhabited

/-- Numbers are equal when they are held in the same way and compare equal. -/
instance : BEq JsonNumber where
  beq
    | .integer a, .integer b => a == b
    | .float a, .float b => a == b
    | _, _ => false

/-- A json document. -/
inductive Json where
  | null
  | bool (value : Bool)
  | number (value : JsonNumber)
  | string (value : String)
  | array (items : List Json)
  /-- The members, sorted by key. -/
  | object (members : List (String × Json))
  deriving Repr, Inhabited

namespace Json

/-- Adds a member to sorted members; the value of a key that is there already is replaced. -/
def insertMember {α : Type} (key : String) (value : α) :
    List (String × α) → List (String × α)
  | [] => [(key, value)]
  | (k, v) :: rest =>
    if key = k then (key, value) :: rest
    else if key < k then (key, value) :: (k, v) :: rest
    else (k, v) :: insertMember key value rest

/-- Sorts members by key; of several with one key the last counts. -/
def sortMembers {α : Type} (members : List (String × α)) : List (String × α) :=
  members.foldl (fun acc m => insertMember m.1 m.2 acc) []

mutual

/-- Whether two documents are the same. -/
def same : Json → Json → Bool
  | .null, .null => true
  | .bool a, .bool b => a == b
  | .number a, .number b => a == b
  | .string a, .string b => a == b
  | .array as, .array bs => sameItems as bs
  | .object as, .object bs => sameMembers as bs
  | _, _ => false

/-- Whether two lists of documents are the same. -/
def sameItems : List Json → List Json → Bool
  | [], [] => true
  | a :: as, b :: bs => same a b && sameItems as bs
  | _, _ => false

/-- Whether two lists of members are the same. -/
def sameMembers : List (String × Json) → List (String × Json) → Bool
  | [], [] => true
  | (k, a) :: as, (l, b) :: bs => k == l && same a b && sameMembers as bs
  | _, _ => false

end

instance : BEq Json := ⟨same⟩

end Json

end StoredRoutine
