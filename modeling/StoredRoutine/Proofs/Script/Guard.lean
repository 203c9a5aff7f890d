import StoredRoutine.Proofs.Script.Heap

/-!
# `StoredRoutine.Proofs.Script.Guard`: the metatable that keeps the globals

The globals of trusted scripts have a metatable that refuses new ones (`Heap.GuardedBy`). It is a
table like any other, so it keeps the globals only as long as no script has it in its hands. Two
things see to that. It is not among the values of the heap, and the library does not show it,
since it is locked by a field `__metatable` of its own.

`Heap.Conforms Q` says that all values in a heap have the property `Q`, and that a table without the
property can only be such a guard. Whatever happens to a heap keeps this if it changes tables with
the property only, and leaves their metatables alone (`Heap.Conforms.modifyTable`), or exchanges the
metatable of a table whose metatable is not locked (`Heap.Conforms.setMetatable`).
-/

set_option autoImplicit false

namespace StoredRoutine.Script

/-- A table is the metatable of the globals, and of nothing else. It refuses new globals, and it is
locked. -/
structure Heap.GuardedBy (h : Heap) (guard : TableId) : Prop where
  made : guard.index < h.tables.size
  globals : guard ≠ h.globals
  strings : guard ≠ h.strings
  guards : (h.table h.globals).metatable = some guard
  alone : ∀ id, (h.table id).metatable = some guard → id = h.globals
  refuses : (h.table guard).getKey (.ofText "__newindex") = .service .denyGlobal
  locked : (h.table guard).getKey (.ofText "__metatable") = .bool false

/-- All values in a heap have a property, and so have all tables but guards of the globals. -/
structure Heap.Conforms (Q : Value → Prop) (h : Heap) : Prop extends h.Holds Q where
  hidden : ∀ guard, ¬ Q (.table guard) → h.GuardedBy guard

/-- Where all tables have the property, nothing is hidden. -/
theorem Heap.Holds.conforms {Q : Value → Prop} {h : Heap} (hh : h.Holds Q)
    (htables : ∀ id, Q (.table id)) : h.Conforms Q :=
  ⟨hh, fun guard hguard => absurd (htables guard) hguard⟩

/-! ### Metatables -/

theorem Table.metatable_set (t : Table) (key v : Value) :
    (t.set key v).metatable = t.metatable := by
  unfold Table.set
  split <;> rfl

theorem Table.metatable_fill (t : Table) (items : Nat) (values : List Value) :
    (t.fill items values).metatable = t.metatable := by
  have hfold (entries : List (Value × Nat)) (t : Table) :
      (entries.foldl (fun t v => t.setKey (.ofNat v.2) v.1) t).metatable = t.metatable := by
    induction entries generalizing t with
    | nil => rfl
    | cons v rest ih => exact ih _
  exact hfold _ _

/-! ### The values of keys -/

theorem Value.eq_nil_of_isNil {v : Value} (hv : v.isNil = true) : v = .nil := by
  cases v with
  | nil => rfl
  | _ => cases hv

theorem Table.getKey_setKey (t : Table) (k k' : Key) (v : Value) :
    (t.setKey k v).getKey k' = if k == k' then v else t.getKey k' := by
  have hvalues : (t.setKey k v).values =
      if v.isNil then t.values.erase k else t.values.insert k v := rfl
  rw [Table.getKey, hvalues]
  by_cases hnil : v.isNil = true
  · rw [if_pos hnil, Std.HashMap.getD_erase, Value.eq_nil_of_isNil hnil, Table.getKey]
  · rw [if_neg hnil, Std.HashMap.getD_insert, Table.getKey]

namespace Heap

variable {Q : Value → Prop} {h : Heap} {guard : TableId}

theorem handler_of_metatable_eq_none {id : TableId} (hnone : (h.table id).metatable = none)
    (event : String) : h.handler (.table id) event = .nil := by
  have hmeta : h.metatable? (.table id) = none := hnone
  unfold handler
  rw [hmeta]

theorem handler_of_metatable_eq_some {id m : TableId} (hsome : (h.table id).metatable = some m)
    (event : String) : h.handler (.table id) event = (h.table m).getKey (.ofText event) := by
  have hmeta : h.metatable? (.table id) = some m := hsome
  unfold handler
  rw [hmeta]

/-! ### Guards -/

/-- A guard stays one if it stays as it is, and no table gets another metatable. -/
theorem GuardedBy.of_same {h' : Heap} (hg : h.GuardedBy guard)
    (hsize : h.tables.size ≤ h'.tables.size) (hglobals : h'.globals = h.globals)
    (hstrings : h'.strings = h.strings) (hvalues : (h'.table guard).values = (h.table guard).values)
    (hmeta : ∀ id, (h'.table id).metatable = (h.table id).metatable) : h'.GuardedBy guard where
  made := Nat.lt_of_lt_of_le hg.made hsize
  globals := hglobals ▸ hg.globals
  strings := hstrings ▸ hg.strings
  guards := by rw [hmeta, hglobals, hg.guards]
  alone id hid := by
    rw [hmeta] at hid
    rw [hglobals, hg.alone id hid]
  refuses := by rw [Table.getKey, hvalues, ← Table.getKey, hg.refuses]
  locked := by rw [Table.getKey, hvalues, ← Table.getKey, hg.locked]

theorem GuardedBy.newTable (hg : h.GuardedBy guard) {t : Table} (ht : t.metatable = none) :
    (h.newTable t).2.GuardedBy guard := by
  have hsame (id : TableId) (hid : id.index ≠ h.tables.size) :
      (h.newTable t).2.table id = h.table id := by
    rw [table_newTable, if_neg]
    rintro rfl
    exact hid rfl
  have hold : guard.index ≠ h.tables.size := Nat.ne_of_lt hg.made
  refine hg.of_same ?_ rfl rfl ?_ ?_
  · show h.tables.size ≤ (h.tables.push t).size
    simp
  · rw [hsame guard hold]
  · intro id
    by_cases hid : id.index = h.tables.size
    · -- there was no table, and the new one has no metatable
      have hnone : h.table id = {} := by
        unfold Heap.table
        rw [Array.getD_eq_getD_getElem?, Array.getElem?_eq_none (by omega)]
        rfl
      rw [hnone, table_newTable]
      split
      · exact ht
      · rw [hnone]
    · rw [hsame id hid]

/-- A table other than the guard changes, or only the shape of a table does. -/
theorem GuardedBy.modifyTable (hg : h.GuardedBy guard) {id : TableId} {f : Table → Table}
    (hvalues : guard = id → (f (h.table id)).values = (h.table id).values)
    (hmeta : (f (h.table id)).metatable = (h.table id).metatable) :
    (h.modifyTable id f).GuardedBy guard := by
  refine hg.of_same ?_ rfl rfl ?_ ?_
  · show h.tables.size ≤ (h.tables.modify id.index f).size
    simp
  · rw [table_modifyTable]
    split
    next heq =>
      rw [hvalues heq.1, heq.1]
    · rfl
  · intro other
    rw [table_modifyTable]
    split
    -- the table that changes keeps its metatable
    next heq => rw [hmeta, heq.1]
    · rfl

/-- A table that is not locked gets another metatable. -/
theorem GuardedBy.setMetatable (hg : h.GuardedBy guard) {id : TableId} {metatable : Option TableId}
    (hopen : (h.handler (.table id) "__metatable").isNil = true)
    (hnew : metatable ≠ some guard) :
    (h.modifyTable id fun t => { t with metatable }).GuardedBy guard := by
  -- the globals are locked
  have hother : id ≠ h.globals := by
    rintro rfl
    rw [handler_of_metatable_eq_some hg.guards, hg.locked] at hopen
    cases hopen
  have hglobals : ((h.modifyTable id fun t => { t with metatable }).table h.globals) =
      h.table h.globals := by
    rw [table_modifyTable, if_neg]
    exact fun heq => hother heq.1.symm
  have hvalues : ((h.modifyTable id fun t => { t with metatable }).table guard).values =
      (h.table guard).values := by
    rw [table_modifyTable]
    split
    next heq => rw [heq.1]
    · rfl
  refine ⟨?_, hg.globals, hg.strings, ?_, ?_, ?_, ?_⟩
  · show guard.index < (h.tables.modify id.index _).size
    simpa using hg.made
  · show ((h.modifyTable id _).table h.globals).metatable = _
    rw [hglobals, hg.guards]
  · -- the new metatable is not the guard, so no table has come by it
    intro other hmeta
    rw [table_modifyTable] at hmeta
    split at hmeta
    · exact absurd hmeta hnew
    · exact hg.alone other hmeta
  · rw [Table.getKey, hvalues, ← Table.getKey, hg.refuses]
  · rw [Table.getKey, hvalues, ← Table.getKey, hg.locked]

/-! ### What scripts get to see -/

namespace Conforms

theorem globals (hh : h.Conforms Q) : Q (.table h.globals) := by
  refine Classical.byContradiction fun hn => ?_
  exact (hh.hidden h.globals hn).globals rfl

theorem strings (hh : h.Conforms Q) : Q (.table h.strings) := by
  refine Classical.byContradiction fun hn => ?_
  exact (hh.hidden h.strings hn).strings rfl

/-- A guard is there already, so a new table is none. -/
theorem fresh (hh : h.Conforms Q) : Q (.table ⟨h.tables.size⟩) := by
  refine Classical.byContradiction fun hn => ?_
  exact Nat.lt_irrefl h.tables.size (hh.hidden _ hn).made

/-- A table that is not locked has the property. -/
theorem unlocked (hh : h.Conforms Q) {m : TableId}
    (hopen : (h.rawGet m (.ofText "__metatable")).isNil = true) : Q (.table m) := by
  refine Classical.byContradiction fun hn => ?_
  have hlocked : h.rawGet m (.ofText "__metatable") = .bool false := (hh.hidden m hn).locked
  rw [hlocked] at hopen
  cases hopen

/-! ### What can happen to a heap -/

theorem newTable (hh : h.Conforms Q) {t : Table} (ht : t.Holds Q) (hmeta : t.metatable = none) :
    (h.newTable t).2.Conforms Q :=
  ⟨hh.toHolds.newTable ht, fun guard hguard => (hh.hidden guard hguard).newTable hmeta⟩

theorem modifyTable (hh : h.Conforms Q) {id : TableId} (hid : Q (.table id)) {f : Table → Table}
    (hf : (f (h.table id)).Holds Q)
    (hmeta : (f (h.table id)).metatable = (h.table id).metatable) :
    (h.modifyTable id f).Conforms Q where
  toHolds := hh.toHolds.modifyTable id hf
  hidden guard hguard := by
    -- the table that changes is shown, so it is not the guard
    refine (hh.hidden guard hguard).modifyTable (fun heq => ?_) hmeta
    rw [heq] at hguard
    exact absurd hid hguard

/-- Only the shape of a table changes. -/
theorem reshape (hh : h.Conforms Q) {id : TableId} {f : Table → Table}
    (hvalues : (f (h.table id)).values = (h.table id).values)
    (hmeta : (f (h.table id)).metatable = (h.table id).metatable) :
    (h.modifyTable id f).Conforms Q :=
  ⟨hh.toHolds.modifyTable id (Table.holds_of_values_eq (hh.table id) hvalues),
    fun guard hguard => (hh.hidden guard hguard).modifyTable (fun _ => hvalues) hmeta⟩

theorem setMetatable (hh : h.Conforms Q) {id : TableId} {metatable : Option TableId}
    (hopen : (h.handler (.table id) "__metatable").isNil = true)
    (hnew : ∀ m, metatable = some m → Q (.table m)) :
    (h.modifyTable id fun t => { t with metatable }).Conforms Q where
  toHolds := hh.toHolds.modifyTable id (Table.holds_of_values_eq (hh.table id) rfl)
  hidden guard hguard :=
    (hh.hidden guard hguard).setMetatable hopen fun heq => hguard (hnew guard heq)

theorem rawSet (own : Innate Q) (hh : h.Conforms Q) {id : TableId} (hid : Q (.table id))
    {key v : Value} (hk : Q key) (hv : Q v) : (h.rawSet id key v).Conforms Q :=
  hh.modifyTable hid ((hh.table id).set own hk hv) (Table.metatable_set _ key v)

theorem setGlobal (own : Innate Q) (hh : h.Conforms Q) (name : String) {v : Value} (hv : Q v) :
    (h.setGlobal name v).Conforms Q :=
  hh.modifyTable hh.globals ((hh.table h.globals).setKey (own _ rfl) hv) rfl

theorem touch (hh : h.Conforms Q) (id : TableId) (key : Value) : (h.touch id key).Conforms Q := by
  unfold Heap.touch
  split
  · split
    · -- what may change is where the search for the last item starts
      refine hh.reshape ?_ ?_
      · unfold Table.touch
        dsimp only
        split <;> rfl
      · unfold Table.touch
        dsimp only
        split <;> rfl
    · exact hh
  · exact hh

theorem length (hh : h.Conforms Q) (id : TableId) : (h.length id).2.Conforms Q :=
  hh.reshape rfl rfl

/-- The fields of a new table do not give it a metatable. -/
theorem metatable_foldl_setKey (fields : List (String × Value)) (t : Table) :
    (fields.foldl (fun t f => t.setKey (.ofText f.1) f.2) t).metatable = t.metatable := by
  induction fields generalizing t with
  | nil => rfl
  | cons f rest ih => exact ih _

theorem tableOf (own : Innate Q) (hh : h.Conforms Q) {fields : List (String × Value)}
    (hf : ∀ f ∈ fields, Q f.2) :
    (h.tableOf fields).2.Conforms Q ∧ Q (.table (h.tableOf fields).1) :=
  ⟨hh.newTable (foldl_setKey_holds own hf Table.holds_empty) (metatable_foldl_setKey fields {}),
    hh.fresh⟩

/-- The tables do not change. -/
theorem withHolds {h' : Heap} (hh : h.Conforms Q) (hh' : h'.Holds Q)
    (htables : h'.tables = h.tables) (hglobals : h'.globals = h.globals)
    (hstrings : h'.strings = h.strings) : h'.Conforms Q where
  toHolds := hh'
  hidden guard hguard := by
    have hsame (id : TableId) : h'.table id = h.table id := by rw [Heap.table, htables, Heap.table]
    exact (hh.hidden guard hguard).of_same (Nat.le_of_eq (by rw [htables])) hglobals hstrings
      (by rw [hsame]) fun id => by rw [hsame]

theorem write (hh : h.Conforms Q) (cell : CellId) {v : Value} (hv : Q v) :
    (h.write cell v).Conforms Q := hh.withHolds (hh.toHolds.write cell hv) rfl rfl rfl

theorem newCell (hh : h.Conforms Q) {v : Value} (hv : Q v) : (h.newCell v).2.Conforms Q :=
  hh.withHolds (hh.toHolds.newCell hv) rfl rfl rfl

theorem newCells (hh : h.Conforms Q) {vs : List Value} (hvs : AllOf Q vs) :
    (h.newCells vs).2.Conforms Q := by
  induction vs generalizing h with
  | nil => exact hh
  | cons v rest ih =>
    obtain ⟨hv, hrest⟩ := List.forall_mem_cons.mp hvs
    exact ih (hh.newCell hv) hrest

theorem newClosure (hh : h.Conforms Q) (c : Closure) : (h.newClosure c).2.Conforms Q :=
  hh.withHolds (hh.toHolds.newClosure c) rfl rfl rfl

theorem newThread (hh : h.Conforms Q) {body : Value} (hb : Q body) :
    (h.newThread body).2.Conforms Q := hh.withHolds (hh.toHolds.newThread hb) rfl rfl rfl

theorem setThread (hh : h.Conforms Q) (t : ThreadId) {s : ThreadState} (hs : s.Holds Q) :
    (h.setThread t s).Conforms Q := hh.withHolds (hh.toHolds.setThread t hs) rfl rfl rfl

theorem newMain (hh : h.Conforms Q) (chunk : List Char) (code : FunctionCode) :
    (h.newMain chunk code).2.Conforms Q :=
  (hh.newCells (List.forall_mem_singleton.mpr hh.globals)).newClosure _

end Conforms

end Heap

end StoredRoutine.Script
