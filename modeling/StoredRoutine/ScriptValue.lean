import StoredRoutine.Datum.Basic

/-!
# `StoredRoutine.ScriptValue`: values on the script side

`ScriptValue` is the closed set of values that marshaling produces and consumes. It knows nothing
of a running script: a table is its entries in the order of their keys, a row object is a snapshot
of the row it holds.
-/

set_option autoImplicit false

namespace StoredRoutine

/-- The key of a table entry. -/
inductive ScriptKey where
  | int (value : Int64)
  | text (value : String)
  deriving Repr, DecidableEq

namespace ScriptKey

/-- The text of a key. -/
def display : ScriptKey → String
  | .int n => toString n.toInt
  | .text s => s

/-- Integers come before texts; texts compare by character. -/
def before : ScriptKey → ScriptKey → Bool
  | .int a, .int b => decide (a < b)
  | .int _, .text _ => true
  | .text _, .int _ => false
  | .text a, .text b => decide (a < b)

end ScriptKey

/-- A value on the script side. -/
inductive ScriptValue where
  | nil
  | bool (value : Bool)
  | int (value : Int64)
  | number (value : Float)
  /-- A string of bytes. -/
  | string (bytes : ByteArray)
  /-- A table, its entries in the order of their keys. -/
  | table (entries : List (ScriptKey × ScriptValue))
  /-- A row object, with its row unless the layout has been released. -/
  | tuple (row : Option RowValue)
  /-- A cursor, by the name of its portal. -/
  | cursor (name : String)

instance : Inhabited ScriptValue := ⟨.nil⟩

/-- The entries of a table, in the order of their keys. -/
abbrev ScriptTable : Type := List (ScriptKey × ScriptValue)

namespace ScriptTable

/-- Sets the value of a key, in its place. -/
def insert (key : ScriptKey) (value : ScriptValue) : ScriptTable → ScriptTable
  | [] => [(key, value)]
  | (k, v) :: rest =>
    if key = k then (key, value) :: rest
    else if key.before k then (key, value) :: (k, v) :: rest
    else (k, v) :: insert key value rest

/-- The value of a key. -/
def find? (key : ScriptKey) (entries : ScriptTable) : Option ScriptValue := entries.lookup key

/-- The table with the given entries, entered in order. -/
def ofEntries (entries : List (ScriptKey × ScriptValue)) : ScriptTable :=
  entries.foldl (fun t e => insert e.1 e.2 t) []

/-- The table with the keys `1, 2, …`. -/
def ofSequence (values : List ScriptValue) : ScriptTable :=
  values.zipIdx.map fun v => (.int (Int64.ofNat (v.2 + 1)), v.1)

/-- Whether the keys are exactly `1, 2, …` and there is one. -/
def isSequence (entries : ScriptTable) : Bool :=
  !entries.isEmpty
    && entries.zipIdx.all fun e => decide (e.1.1 = .int (Int64.ofNat (e.2 + 1)))

/-- A found value is smaller than the table. -/
theorem sizeOf_of_find? {entries : ScriptTable} {key : ScriptKey} {value : ScriptValue}
    (h : find? key entries = some value) : sizeOf value < sizeOf entries := by
  induction entries with
  | nil => simp [find?] at h
  | cons e rest ih =>
    obtain ⟨k, v⟩ := e
    simp only [find?, List.lookup_cons] at h
    split at h
    · cases h
      simp
      omega
    · have := ih h
      simp
      omega

end ScriptTable

namespace ScriptValue

/-- The value of a text. -/
def ofText (s : String) : ScriptValue := .string s.toUTF8

/-- The name of a value's type. -/
def typeName : ScriptValue → String
  | .nil => "nil"
  | .bool _ => "boolean"
  | .int _ => "number"
  | .number _ => "number"
  | .string _ => "string"
  | .table _ => "table"
  | .tuple _ => "tuple"
  | .cursor _ => "cursor"

/-- The text of a string that is valid UTF-8. -/
def text? : ScriptValue → Option String
  | .string b => String.fromUTF8? b
  | _ => none

/-- Whether a value is nil. -/
def isNil : ScriptValue → Bool
  | .nil => true
  | _ => false

end ScriptValue

end StoredRoutine
