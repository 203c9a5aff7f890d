import StoredRoutine.Proofs.Engine.Aside
import StoredRoutine.Proofs.Script.Closed

/-!
# `StoredRoutine.Proofs.Engine.Records`: what trigger functions find

The record of an event is a table with the names of the event, the table of its relation, and one
or two tuples. It is complete before it becomes the global `trigger` (`Serving.publishEvent_eq`), so
all that is said of its fields is said of the heap in which it is made.

A table that is made of fields has the last value of each name. From this follows what the table of
a relation shows when it is made (`Heap.Describes`): the name of the relation, its identifier, and
the positions of its columns. An event makes the table of its relation unless the engine has it, and
has no influence on tables that are there (`Serving.makeRecord_eq`).
-/

set_option autoImplicit false

namespace StoredRoutine

open Script (Heap Key Table TableId Value)

/-! ### Tables that are made of fields -/

namespace Script

/-- The value of the last field with a key; nil if there is none. -/
def lastField (fields : List (String × Value)) (key : Key) : Value :=
  fields.foldl (fun found f => if Key.ofText f.1 == key then f.2 else found) .nil

theorem Table.getKey_foldl_setKey (fields : List (String × Value)) (t : Table) (key : Key) :
    (fields.foldl (fun t f => t.setKey (.ofText f.1) f.2) t).getKey key =
      fields.foldl (fun found f => if Key.ofText f.1 == key then f.2 else found)
        (t.getKey key) := by
  induction fields generalizing t with
  | nil => rfl
  | cons f rest ih => rw [List.foldl_cons, List.foldl_cons, ih, Table.getKey_setKey]

/-- Fields of other names make no difference. -/
theorem lastField_append_of_ne {fields others : List (String × Value)} {key : Key}
    (hother : ∀ f ∈ others, Key.ofText f.1 ≠ key) :
    lastField (fields ++ others) key = lastField fields key := by
  unfold lastField
  rw [List.foldl_append]
  generalize fields.foldl _ _ = found
  induction others generalizing found with
  | nil => rfl
  | cons f rest ih =>
    obtain ⟨hf, hrest⟩ := List.forall_mem_cons.mp hother
    rw [List.foldl_cons, if_neg (by simpa using hf)]
    exact ih hrest found

/-- The last field has the key. -/
theorem lastField_concat (fields : List (String × Value)) (name : String) (v : Value) :
    lastField (fields ++ [(name, v)]) (.ofText name) = v := by
  unfold lastField
  rw [List.foldl_append, List.foldl_cons, List.foldl_nil, if_pos (beq_self_eq_true _)]

namespace Heap

variable {h : Heap}

/-- A new table of fields. -/
theorem getKey_tableOf (h : Heap) (fields : List (String × Value)) (key : Key) :
    ((h.tableOf fields).2.table (h.tableOf fields).1).getKey key = lastField fields key := by
  have hempty : ({} : Table).getKey key = .nil := Std.HashMap.getD_empty
  unfold tableOf lastField
  rw [table_newTable, if_pos rfl, Table.getKey_foldl_setKey, hempty]

theorem rawGet_tableOf (h : Heap) (fields : List (String × Value)) (name : String) :
    (h.tableOf fields).2.rawGet (h.tableOf fields).1 (.ofText name) =
      lastField fields (.ofText name) := getKey_tableOf h fields (.ofText name)

theorem lt_size_tableOf (h : Heap) (fields : List (String × Value)) :
    (h.tableOf fields).1.index < (h.tableOf fields).2.tables.size := by
  rw [size_tableOf]
  exact Nat.lt_succ_self _

/-- The tables that are there stay what they are. -/
theorem table_tableOf_of_lt (fields : List (String × Value)) {id : TableId}
    (hid : id.index < h.tables.size) : (h.tableOf fields).2.table id = h.table id := by
  unfold tableOf
  rw [table_newTable, if_neg]
  rintro rfl
  exact Nat.lt_irrefl _ hid

end Heap

end Script

/-! ### Relations -/

/-- The position of the column with the name that a key is; nil if there is no such column. Of
several columns with one name it is the last. -/
def Relation.position (r : Relation) (key : Key) : Value :=
  Script.lastField (r.layout.attributes.zipIdx.map fun a => (a.1.name, .ofNat (a.2 + 1))) key

theorem Relation.position_of_not_mem {r : Relation} {key : Key}
    (hnone : ∀ a ∈ r.layout.attributes, Key.ofText a.name ≠ key) : r.position key = .nil := by
  have hother : ∀ f ∈ r.layout.attributes.zipIdx.map fun a => (a.1.name, Value.ofNat (a.2 + 1)),
      Key.ofText f.1 ≠ key := by
    intro f hf
    obtain ⟨a, ha, rfl⟩ := List.mem_map.mp hf
    exact hnone a.1 (List.fst_mem_of_mem_zipIdx ha)
  unfold position
  rw [← List.nil_append (List.map _ _), Script.lastField_append_of_ne hother]
  rfl

/-- A column behind which there is none of its name. -/
theorem Relation.position_of_append {r : Relation} {before after : List Attribute} {a : Attribute}
    (hcolumns : r.layout.attributes = before ++ a :: after)
    (hlast : ∀ b ∈ after, Key.ofText b.name ≠ .ofText a.name) :
    r.position (.ofText a.name) = .ofNat (before.length + 1) := by
  unfold position
  rw [hcolumns, List.zipIdx_append, List.map_append, List.zipIdx_cons, List.map_cons,
    List.append_cons, Script.lastField_append_of_ne]
  · refine (Script.lastField_concat _ _ _).trans ?_
    rw [Nat.zero_add]
  · intro f hf
    obtain ⟨b, hb, rfl⟩ := List.mem_map.mp hf
    exact hlast b.1 (List.fst_mem_of_mem_zipIdx hb)

/-- A table shows the name, the identifier and the columns of a relation. -/
structure Script.Heap.Describes (h : Heap) (id : TableId) (r : Relation) : Prop where
  name : h.rawGet id (.ofText "name") = .ofText r.name
  oid : h.rawGet id (.ofText "oid") = .ofNat r.id.toNat
  attributes : ∃ positions, h.rawGet id (.ofText "attributes") = .table positions ∧
    ∀ key, (h.table positions).getKey key = r.position key

namespace Script.Heap.Describes

variable {h h' : Heap} {id : TableId} {r : Relation}

/-- A table with a value is there. -/
theorem lt_size (hd : h.Describes id r) : id.index < h.tables.size := by
  by_contra hnone
  have hempty : h.table id = {} := by
    unfold Heap.table
    rw [Array.getD_eq_getD_getElem?, Array.getElem?_eq_none (Nat.le_of_not_lt hnone)]
    rfl
  have hname := hd.name
  unfold Heap.rawGet at hname
  rw [hempty] at hname
  have hnil : ({} : Table).get (.ofText "name") = .nil := Std.HashMap.getD_empty
  cases hnil.symm.trans hname

/-- Only two tables matter. -/
theorem of_same (hd : h.Describes id r) (hid : h'.table id = h.table id)
    (hpositions : ∀ positions, h.rawGet id (.ofText "attributes") = .table positions →
      h'.table positions = h.table positions) : h'.Describes id r := by
  have hfield (name : String) : h'.rawGet id (.ofText name) = h.rawGet id (.ofText name) := by
    unfold Heap.rawGet
    rw [hid]
  refine ⟨(hfield _).trans hd.name, (hfield _).trans hd.oid, ?_⟩
  obtain ⟨positions, hattributes, hall⟩ := hd.attributes
  refine ⟨positions, (hfield _).trans hattributes, ?_⟩
  rw [hpositions positions hattributes]
  exact hall

/-- A new table does not matter, if those that do are there. -/
theorem tableOf (hd : h.Describes id r)
    (hpositions : ∀ positions, h.rawGet id (.ofText "attributes") = .table positions →
      positions.index < h.tables.size) (fields : List (String × Value)) :
    (h.tableOf fields).2.Describes id r :=
  hd.of_same (table_tableOf_of_lt fields hd.lt_size) fun positions hattributes =>
    table_tableOf_of_lt fields (hpositions positions hattributes)

end Script.Heap.Describes

namespace Serving

variable {e : Engine}

/-- The table of a relation that the engine has. -/
theorem relationTable_known {r : Relation} {id : TableId}
    (hknown : e.relations.lookup r.id = some id) : relationTable r e = (.ok (.table id), e) := by
  have hget : (get : Serving Engine) e = (.ok e, e) := rfl
  unfold relationTable
  rw [run_bind, hget]
  simp only [hknown]
  rfl

/-- The table of a relation that the engine does not have is made. It shows the relation, whatever
tables are made next. -/
theorem relationTable_unknown {r : Relation} (hunknown : e.relations.lookup r.id = none) :
    ∃ id heap, relationTable r e =
        (.ok (.table id), { e with heap, relations := (r.id, id) :: e.relations }) ∧
      ∀ fields, (heap.tableOf fields).2.Describes id r := by
  have hget : (get : Serving Engine) e = (.ok e, e) := rfl
  unfold relationTable
  rw [run_bind, hget]
  simp only [hunknown]
  refine ⟨_, _, rfl, fun fields => ?_⟩
  let columns := r.layout.attributes.zipIdx.map fun a => (a.1.name, Value.ofNat (a.2 + 1))
  -- the positions are there when the table of the relation is made
  have hlt := Heap.lt_size_tableOf e.heap columns
  have hattributes := Heap.rawGet_tableOf (e.heap.tableOf columns).2 [("name", .ofText r.name),
    ("oid", .ofNat r.id.toNat), ("attributes", .table (e.heap.tableOf columns).1)] "attributes"
  refine Heap.Describes.tableOf ⟨Heap.rawGet_tableOf _ _ "name", Heap.rawGet_tableOf _ _ "oid", _,
    hattributes, fun key => ?_⟩ (fun positions hpositions => ?_) fields
  · exact (congrArg (Table.getKey · key) (Heap.table_tableOf_of_lt _ hlt)).trans
      (Heap.getKey_tableOf e.heap columns key)
  · cases hattributes.symm.trans hpositions
    rw [Heap.size_tableOf]
    exact Nat.lt_succ_of_lt hlt

/-! ### Records -/

/-- A row becomes a tuple in a field, and scripts stay what they are. -/
theorem rowField_spec (name : String) (row : Option RowValue) (state : TupleState) (e : Engine) :
    ∃ fields tuple e', rowField name row state e = (.ok (fields, tuple), e') ∧
      (∀ f ∈ fields, f.1 = name) ∧ e.SameScripts e' := by
  cases row with
  | none => exact ⟨[], none, e, rfl, fun f hf => absurd hf List.not_mem_nil, .refl e⟩
  | some row =>
    refine ⟨_, _, _, rfl, fun f hf => ?_, rfl, rfl, rfl, rfl, rfl, rfl⟩
    rw [List.mem_singleton.mp hf]

/-- The fields of a record before those for rows. -/
def eventFields (t : TriggerEvent) (relation : Value) : List (String × Value) :=
  [("name", .ofText t.name), ("when", .ofText t.time.word), ("level", .ofText t.level.word),
    ("operation", .ofText t.operation.word), ("relation", relation)]

/-- Makes the record of an event. Answers it with the tuple with which its field `row` starts. -/
def makeRecord (t : TriggerEvent) : Serving (TableId × Option TupleId) := do
  let relation ← relationTable t.relation
  let forRow (row : Option RowValue) : Option RowValue := row.filter fun _ => t.level == .row
  let (rowFields, tuple) ← rowField "row" (forRow t.currentRow) .writable
  let (oldFields, _) ← rowField "old" (forRow t.oldRow) .readOnly
  modifyGet fun e =>
    let (id, heap) := e.heap.tableOf (eventFields t relation ++ rowFields ++ oldFields)
    ((id, tuple), { e with heap })

/-- A record consists of the fields of the event and those of its rows. -/
theorem makeRecord_eq {t : TriggerEvent} {e₁ e₂ e₃ : Engine} {relation : Value}
    {rowFields oldFields : List (String × Value)} {tuple old : Option TupleId}
    (hrelation : relationTable t.relation e = (.ok relation, e₁))
    (hrow : rowField "row" (t.currentRow.filter fun _ => t.level == .row) .writable e₁ =
      (.ok (rowFields, tuple), e₂))
    (hold : rowField "old" (t.oldRow.filter fun _ => t.level == .row) .readOnly e₂ =
      (.ok (oldFields, old), e₃)) :
    makeRecord t e =
      (.ok ((e₃.heap.tableOf (eventFields t relation ++ rowFields ++ oldFields)).1, tuple),
        { e₃ with
          heap := (e₃.heap.tableOf (eventFields t relation ++ rowFields ++ oldFields)).2 }) := by
  unfold makeRecord
  rw [run_bind, hrelation]
  dsimp only
  rw [run_bind, hrow]
  dsimp only
  rw [run_bind, hold]
  rfl

/-- Whatever rows there are, the record shows the table of the relation. -/
theorem makeRecord_of_relationTable {t : TriggerEvent} {e₁ : Engine} {relation : TableId}
    (hrelation : relationTable t.relation e = (.ok (.table relation), e₁)) :
    ∃ record tuple e' fields, makeRecord t e = (.ok (record, tuple), e') ∧
      e'.heap.rawGet record (.ofText "relation") = .table relation ∧
      e'.relations = e₁.relations ∧ e'.heap = (e₁.heap.tableOf fields).2 := by
  obtain ⟨rowFields, tuple, e₂, hrow, hrowNames, hsame⟩ :=
    rowField_spec "row" (t.currentRow.filter fun _ => t.level == .row) .writable e₁
  obtain ⟨oldFields, old, e₃, hold, holdNames, hsame'⟩ :=
    rowField_spec "old" (t.oldRow.filter fun _ => t.level == .row) .readOnly e₂
  have hheap : e₃.heap = e₁.heap := hsame'.heap.trans hsame.heap
  have hmade := makeRecord_eq hrelation hrow hold
  rw [hheap] at hmade
  refine ⟨_, _, _, _, hmade, ?_, hsame'.relations.trans hsame.relations, rfl⟩
  show (Heap.tableOf _ _).2.rawGet (Heap.tableOf _ _).1 _ = _
  rw [Heap.rawGet_tableOf, Script.lastField_append_of_ne, Script.lastField_append_of_ne]
  · rfl
  · exact fun f hf => hrowNames f hf ▸ by decide
  · exact fun f hf => holdNames f hf ▸ by decide

/-- The record of an event is made, and shows the table of its relation: the one that the engine
has, or a new one. -/
theorem makeRecord_spec (t : TriggerEvent) (e : Engine) :
    ∃ record tuple relation e', makeRecord t e = (.ok (record, tuple), e') ∧
      e'.heap.rawGet record (.ofText "relation") = .table relation ∧
      (e.relations.lookup t.relation.id = some relation ∧ e'.relations = e.relations ∨
        e.relations.lookup t.relation.id = none ∧
          e'.relations = (t.relation.id, relation) :: e.relations ∧
          e'.heap.Describes relation t.relation) := by
  cases hknown : e.relations.lookup t.relation.id with
  | some relation =>
    obtain ⟨record, tuple, e', _, hmade, hshown, hrelations, -⟩ :=
      makeRecord_of_relationTable (relationTable_known hknown)
    exact ⟨record, tuple, relation, e', hmade, hshown, .inl ⟨rfl, hrelations⟩⟩
  | none =>
    obtain ⟨relation, heap, hrelation, hdescribes⟩ := relationTable_unknown hknown
    obtain ⟨record, tuple, e', fields, hmade, hshown, hrelations, hheap⟩ :=
      makeRecord_of_relationTable hrelation
    refine ⟨record, tuple, relation, e', hmade, hshown, .inr ⟨rfl, hrelations, ?_⟩⟩
    rw [hheap]
    exact hdescribes fields

/-- An event is published when its record is complete. -/
theorem publishEvent_eq (t : TriggerEvent) :
    publishEvent t = makeRecord t >>= fun made => modifyGet fun e =>
      (made, { e with heap := e.heap.setGlobal triggerGlobal (.table made.1) }) := by
  funext e
  unfold publishEvent makeRecord
  simp only [run_bind]
  cases relationTable t.relation e with
  | mk outcome e₁ =>
    cases outcome with
    | error f => rfl
    | ok relation =>
      obtain ⟨rowFields, tuple, e₂, hrow, -⟩ :=
        rowField_spec "row" (t.currentRow.filter fun _ => t.level == .row) .writable e₁
      obtain ⟨oldFields, old, e₃, hold, -⟩ :=
        rowField_spec "old" (t.oldRow.filter fun _ => t.level == .row) .readOnly e₂
      simp only [hrow, hold]
      rfl

end Serving

end StoredRoutine
