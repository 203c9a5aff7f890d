import StoredRoutine.Script.Table.Shape

/-!
# `StoredRoutine.Script.Table.Basic`: tables

A table holds a value for each of its keys, none of which is nil. Its shape tells in which order
they are traversed and what its length is.
-/

set_option autoImplicit false

namespace StoredRoutine.Script

/-- A table. -/
structure Table where
  /-- What the table holds. No value is nil. -/
  values : Std.HashMap Key Value := {}
  shape : Shape := {}
  metatable : Option TableId := none

instance : Inhabited Table := ⟨{}⟩

namespace Table

/-- A table with room for items and for entries. -/
def withRoom (items entries : Nat) : Table := { shape := Shape.ofSizes items entries }

/-- The value of a key; nil if there is none. -/
def getKey (t : Table) (key : Key) : Value := t.values.getD key .nil

/-- The value of a key, without asking the metatable. -/
def get (t : Table) (key : Value) : Value :=
  match Key.ofValue? key with
  | some k => t.getKey k
  | none => .nil

/-- Sets the value of a key. -/
def setKey (t : Table) (key : Key) (value : Value) : Table :=
  let ⟨values, shape, metatable⟩ := t
  let shape :=
    if shape.contains key then shape.touch key
    else if value.isNil then shape
    else shape.insert (fun k => values.contains k) key
  let values := if value.isNil then values.erase key else values.insert key value
  ⟨values, shape, metatable⟩

/-- Sets the value of a key. Nothing happens for a value that can be no key. -/
def set (t : Table) (key value : Value) : Table :=
  match Key.ofValue? key with
  | some k => t.setKey k value
  | none => t

/-- Takes notice that a key was looked up, which a later length may depend on. -/
def touch (t : Table) (key : Value) : Table :=
  match key with
  | .number (.int n) =>
    if (Int64.ofNat t.shape.hint) < n then { t with shape := t.shape.touch (.int n) } else t
  | _ => t

/-- Sets items behind a number of items, all at once. -/
def fill (t : Table) (items : Nat) (values : List Value) : Table :=
  let ⟨held, shape, metatable⟩ := t
  let shape := shape.ensureItems (fun k => held.contains k) (items + values.length)
  (values.zipIdx (items + 1)).foldl (fun t v => t.setKey (.ofNat v.2) v.1) ⟨held, shape, metatable⟩

/-- The length of a table: a number with a value, or zero, behind which there is none. -/
def length (t : Table) : Nat × Table :=
  let (n, shape) := t.shape.length fun i => t.values.contains (.ofNat i)
  (n, { t with shape })

/-- The keys and values in the order of the traversal. -/
def pairs (t : Table) : List (Value × Value) :=
  t.shape.keys.filterMap fun key => (t.values[key]?).map fun v => (key.value, v)

/-- The pair after a key in the traversal, the first one after nil. Nothing for a key that is no
key of the table; `some none` at the end. -/
def next? (t : Table) (key : Value) : Option (Option (Value × Value)) :=
  let place? : Option Nat :=
    if key.isNil then some 0
    else ((Key.ofValue? key).bind t.shape.placeOf?).map (· + 1)
  place?.map fun place =>
    (t.shape.firstFrom? (fun k => t.values.contains k) (t.shape.size - place) place).map fun k =>
      (k.value, t.getKey k)

end Table

end StoredRoutine.Script
