import StoredRoutine.ScriptValue

/-!
# `StoredRoutine.Marshal.Document`: json documents as script values

A document becomes a script value by structure. A table cannot hold nil, so nulls inside
containers are dropped; an array with nulls keeps the positions of the others and so leaves holes.
A table becomes an array when its keys are exactly `1, 2, …`, and an object under the texts of its
keys otherwise.
-/

set_option autoImplicit false

namespace StoredRoutine

/-- A number: an integer when it fits sixty-four bits with a sign, a double otherwise. -/
def ScriptValue.ofJsonNumber : JsonNumber → ScriptValue
  | .integer n => if n < 2 ^ 63 then .int (Int64.ofInt n) else .number (Float.ofInt n)
  | .float x => .number x

mutual

/-- The script form of a document. -/
def ScriptValue.ofJson : Json → ScriptValue
  | .null => .nil
  | .bool b => .bool b
  | .number n => .ofJsonNumber n
  | .string s => .ofText s
  | .array items => .table (ScriptTable.ofItems 1 items)
  | .object members => .table (ScriptTable.ofMembers members)

/-- The entries of an array whose first item has the given position. -/
def ScriptTable.ofItems : Int64 → List Json → ScriptTable
  | _, [] => []
  | i, .null :: rest => ScriptTable.ofItems (i + 1) rest
  | i, j :: rest => (.int i, ScriptValue.ofJson j) :: ScriptTable.ofItems (i + 1) rest

/-- The entries of an object. -/
def ScriptTable.ofMembers : List (String × Json) → ScriptTable
  | [] => []
  | (_, .null) :: rest => ScriptTable.ofMembers rest
  | (k, j) :: rest => (.text k, ScriptValue.ofJson j) :: ScriptTable.ofMembers rest

end

mutual

/-- The document of a script value. Row objects, numbers that are not finite and strings that are
not UTF-8 have none. -/
def ScriptValue.toJson : ScriptValue → Outcome Json
  | .nil => .ok .null
  | .bool b => .ok (.bool b)
  | .int n => .ok (.number (.integer n.toInt))
  | .number x =>
    if x.isFinite then .ok (.number (.float x))
    else .error (.conversion "json cannot represent NaN or infinity")
  | .string b =>
    match String.fromUTF8? b with
    | some s => .ok (.string s)
    | none => .error (.conversion "json strings must be valid UTF-8")
  | .cursor name => .ok (.string name)
  | .tuple _ => .error (.conversion "cannot convert tuple to json")
  | .table entries =>
    (ScriptTable.toMembers entries).map fun members =>
      if ScriptTable.isSequence entries then .array (members.map (·.2))
      else .object (Json.sortMembers members)

/-- The documents of the entries, under the texts of their keys. -/
def ScriptTable.toMembers : List (ScriptKey × ScriptValue) → Outcome (List (String × Json))
  | [] => .ok []
  | (k, v) :: rest => do
    let j ← ScriptValue.toJson v
    let members ← ScriptTable.toMembers rest
    return (k.display, j) :: members

end

end StoredRoutine
