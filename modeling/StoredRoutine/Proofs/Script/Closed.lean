import StoredRoutine.Proofs.Script.Guard
import StoredRoutine.Script.Library.Globals

/-!
# `StoredRoutine.Proofs.Script.Closed`: the heap with nothing but the library

A heap is closed if the values in it are of the kind that scripts make on their own, apart from
tables that are there, and if no table has a metatable. The library is built from one closed heap to
the next (`Library.start_closed`). Of a closed heap all is known that matters for the values in it:
they have every property that is innate and that the tables have (`Heap.Closed.holdsAll`).

The globals are set one after the other, and tables, functions and variables are made in between. So
what is shown of them is that a heap still defines what it has defined before (`Heap.Defines`).
-/

set_option autoImplicit false

namespace StoredRoutine.Script

/-- A value that scripts can make on their own, or one of the first tables. -/
def Value.Made (n : Nat) (v : Value) : Prop :=
  v.isForeign = false ∨ ∃ id : TableId, v = .table id ∧ id.index < n

theorem Value.innate_made (n : Nat) : Innate (Value.Made n) := fun _ hv => .inl hv

theorem Value.made_table {n : Nat} {id : TableId} (hid : id.index < n) : (Value.table id).Made n :=
  .inr ⟨id, rfl, hid⟩

theorem Value.Made.mono {n m : Nat} (hnm : n ≤ m) {v : Value} (hv : v.Made n) : v.Made m := by
  rcases hv with hv | ⟨id, rfl, hid⟩
  · exact .inl hv
  · exact made_table (Nat.lt_of_lt_of_le hid hnm)

/-- A heap with no foreign values but its own tables, none of which has a metatable. -/
structure Heap.Closed (h : Heap) : Prop where
  holds : h.Holds (Value.Made h.tables.size)
  globals : h.globals.index < h.tables.size
  strings : h.strings.index < h.tables.size
  plain : ∀ id, (h.table id).metatable = none

theorem Heap.size_setGlobal (h : Heap) (name : String) (v : Value) :
    (h.setGlobal name v).tables.size = h.tables.size := Array.size_modify

theorem Heap.size_tableOf (h : Heap) (fields : List (String × Value)) :
    (h.tableOf fields).2.tables.size = h.tables.size + 1 := Array.size_push _

namespace Heap.Closed

variable {h : Heap}

/-- A new table has no metatable, and the values in it were there before. -/
theorem newTable (hh : h.Closed) {t : Table} (ht : t.Holds (Value.Made h.tables.size))
    (hmeta : t.metatable = none) :
    (h.newTable t).2.Closed ∧ (Value.table (h.newTable t).1).Made (h.newTable t).2.tables.size := by
  have hsize : (h.newTable t).2.tables.size = h.tables.size + 1 := Array.size_push t
  refine ⟨⟨?_, ?_, ?_, fun id => ?_⟩, ?_⟩
  · -- what was made before a table is made after it, too
    rw [hsize]
    exact (hh.holds.newTable ht).mono fun _ hv => hv.mono (Nat.le_succ _)
  · rw [hsize]
    exact Nat.lt_succ_of_lt hh.globals
  · rw [hsize]
    exact Nat.lt_succ_of_lt hh.strings
  · rw [table_newTable]
    split
    · exact hmeta
    · exact hh.plain id
  · rw [hsize]
    exact Value.made_table (Nat.lt_succ_self _)

theorem tableOf (hh : h.Closed) {fields : List (String × Value)}
    (hf : ∀ f ∈ fields, f.2.Made h.tables.size) :
    (h.tableOf fields).2.Closed ∧
      (Value.table (h.tableOf fields).1).Made (h.tableOf fields).2.tables.size :=
  hh.newTable (foldl_setKey_holds (Value.innate_made _) hf Table.holds_empty)
    (Conforms.metatable_foldl_setKey fields {})

/-- A table gets other values, which were there before. -/
theorem modifyTable (hh : h.Closed) (id : TableId) {f : Table → Table}
    (hf : (f (h.table id)).Holds (Value.Made h.tables.size))
    (hmeta : (f (h.table id)).metatable = none) : (h.modifyTable id f).Closed := by
  have hsize : (h.modifyTable id f).tables.size = h.tables.size := Array.size_modify
  refine ⟨?_, ?_, ?_, fun other => ?_⟩
  · rw [hsize]
    exact hh.holds.modifyTable id hf
  · rw [hsize]
    exact hh.globals
  · rw [hsize]
    exact hh.strings
  · rw [table_modifyTable]
    split
    · exact hmeta
    · exact hh.plain other

theorem rawSet (hh : h.Closed) (id : TableId) {key v : Value} (hk : key.Made h.tables.size)
    (hv : v.Made h.tables.size) : (h.rawSet id key v).Closed := by
  refine hh.modifyTable id ((hh.holds.table id).set (Value.innate_made _) hk hv) ?_
  rw [Table.metatable_set, hh.plain]

theorem setGlobal (hh : h.Closed) (name : String) {v : Value} (hv : v.Made h.tables.size) :
    (h.setGlobal name v).Closed :=
  hh.modifyTable h.globals ((hh.holds.table _).setKey (Value.innate_made _ _ rfl) hv)
    (hh.plain h.globals)

/-- Globals set one after the other. -/
theorem foldl_setGlobal (hh : h.Closed) {fields : List (String × Value)}
    (hf : ∀ f ∈ fields, f.2.isForeign = false) :
    (fields.foldl (fun h f => h.setGlobal f.1 f.2) h).Closed ∧
      (fields.foldl (fun h f => h.setGlobal f.1 f.2) h).tables.size = h.tables.size := by
  -- the number of tables stays, or else the induction would lose what was made before
  induction fields generalizing h with
  | nil => exact ⟨hh, rfl⟩
  | cons f rest ih =>
    obtain ⟨hv, hrest⟩ := List.forall_mem_cons.mp hf
    rw [← size_setGlobal h f.1 f.2]
    exact ih (hh.setGlobal f.1 (.inl hv)) hrest

/-- The tables do not change. -/
theorem withHolds {h' : Heap} (hh : h.Closed) (hh' : h'.Holds (Value.Made h.tables.size))
    (htables : h'.tables = h.tables) (hglobals : h'.globals = h.globals)
    (hstrings : h'.strings = h.strings) : h'.Closed where
  holds := htables ▸ hh'
  globals := by
    rw [htables, hglobals]
    exact hh.globals
  strings := by
    rw [htables, hstrings]
    exact hh.strings
  plain id := by
    rw [Heap.table, htables]
    exact hh.plain id

theorem newCells (hh : h.Closed) {values : List Value}
    (hvalues : AllOf (Value.Made h.tables.size) values) :
    (h.newCells values).2.Closed ∧ (h.newCells values).2.tables = h.tables := by
  induction values generalizing h with
  | nil => exact ⟨hh, rfl⟩
  | cons v rest ih =>
    obtain ⟨hv, hrest⟩ := List.forall_mem_cons.mp hvalues
    exact ih (hh.withHolds (hh.holds.newCell hv) rfl rfl rfl) hrest

/-- All values of a closed heap have a property that is innate and that its tables have. -/
theorem holdsAll (hh : h.Closed) {Q : Value → Prop} (own : Innate Q)
    (htables : ∀ id : TableId, id.index < h.tables.size → Q (.table id)) : h.Holds Q := by
  refine hh.holds.mono fun v hv => ?_
  rcases hv with hv | ⟨id, rfl, hid⟩
  · exact own v hv
  · exact htables id hid

end Heap.Closed

/-! ### The library -/

namespace Library

variable {h : Heap}

theorem functionsOf_native (group : String) : ∀ f ∈ functionsOf group, f.2.isForeign = false := by
  intro f hf
  rcases List.mem_append.mp hf with hf | hf
  · obtain ⟨x, -, rfl⟩ := List.mem_map.mp hf
    rfl
  · obtain ⟨x, -, rfl⟩ := List.mem_map.mp hf
    rfl

theorem constantsOf_native (group : String) : ∀ f ∈ constantsOf group, f.2.isForeign = false := by
  intro f hf
  unfold constantsOf at hf
  split at hf
  · cases List.mem_singleton.mp hf
    rfl
  · split at hf
    · simp only [List.mem_cons, List.not_mem_nil, or_false] at hf
      rcases hf with rfl | rfl | rfl | rfl <;> rfl
    · split at hf
      · cases List.mem_singleton.mp hf
        rfl
      · cases hf

theorem addGroup_closed (limited : Bool) (hh : h.Closed) (group : String) :
    (addGroup limited h group).Closed := by
  have hfields : ∀ f ∈ ((functionsOf group).filter fun f => !limited || isAllowed group f.1)
      ++ constantsOf group, f.2.isForeign = false := by
    intro f hf
    rcases List.mem_append.mp hf with hf | hf
    · exact functionsOf_native group f (List.mem_filter.mp hf).1
    · exact constantsOf_native group f hf
  unfold addGroup
  dsimp only
  split
  · exact (hh.foldl_setGlobal hfields).1
  · split
    · exact hh
    · obtain ⟨hmade, hid⟩ := hh.tableOf fun f hf => .inl (hfields f hf)
      exact hmade.setGlobal _ hid

theorem foldl_addGroup_closed (limited : Bool) (groups : List String) (hh : h.Closed) :
    (groups.foldl (addGroup limited) h).Closed := by
  induction groups generalizing h with
  | nil => exact hh
  | cons group rest ih => exact ih (addGroup_closed limited hh group)

/-- A heap with nothing in it but the outermost thread. -/
theorem holds_outermost {Q : Value → Prop} (own : Innate Q) :
    Heap.Holds Q { threads := #[.active] } where
  table id := by
    unfold Heap.table
    simpa using Table.holds_empty
  read cell := by
    unfold Heap.read
    simpa using own .nil rfl
  thread t := by
    unfold Heap.thread
    cases t.index with
    | zero => exact trivial
    | succ n => exact trivial

/-- The heap with the tables for the globals and for strings, which are empty. -/
theorem closed_empty : Heap.Closed
    { tables := #[{}, {}], threads := #[.active], globals := ⟨0⟩, strings := ⟨1⟩ } := by
  have htables := ((holds_outermost (Value.innate_made 2)).newTable Table.holds_empty).newTable
    (t := {}) Table.holds_empty
  refine ⟨⟨htables.table, htables.read, htables.thread⟩, by decide, by decide, fun id => ?_⟩
  unfold Heap.table
  rw [Array.getD_eq_getD_getElem?]
  match hi : id.index with
  | 0 => rfl
  | 1 => rfl
  | n + 2 => rfl

theorem start_closed (limited : Bool) : (start limited).Closed := by
  have hgroups := foldl_addGroup_closed limited groups closed_empty
  have hfirst : (Value.table ⟨0⟩).Made (groups.foldl (addGroup limited) _).tables.size :=
    Value.made_table (Nat.lt_of_le_of_lt (Nat.zero_le _) hgroups.globals)
  -- the globals are a global, and the methods of strings are the functions of their library
  have hglobals := hgroups.setGlobal "_G" hfirst
  have hstring := hglobals.holds.global (Value.innate_made _) "string"
  exact hglobals.rawSet _ (.inl rfl) hstring

end Library

/-! ### The globals of the library -/

theorem Key.ofText_inj {s t : String} : Key.ofText s = .ofText t ↔ s = t :=
  ⟨fun h => String.toByteArray_inj.mp (Key.string.inj h), congrArg Key.ofText⟩

namespace Heap

variable {h : Heap} {fields new : List (String × Value)}

/-- The table of globals has the fields. -/
structure Defines (h : Heap) (fields : List (String × Value)) : Prop where
  exists_globals : h.globals.index < h.tables.size
  global : ∀ f ∈ fields, h.global f.1 = f.2

namespace Defines

theorem mono (hd : h.Defines fields) (hsub : new ⊆ fields) : h.Defines new :=
  ⟨hd.exists_globals, fun f hf => hd.global f (hsub hf)⟩

/-- Variables, functions and coroutines make no difference. -/
theorem of_tables {h' : Heap} (hd : h.Defines fields) (htables : h'.tables = h.tables)
    (hglobals : h'.globals = h.globals) : h'.Defines fields := by
  obtain ⟨hexists, hglobal⟩ := hd
  unfold Heap.global Heap.table at hglobal
  refine ⟨by rwa [htables, hglobals], fun f hf => ?_⟩
  unfold Heap.global Heap.table
  rw [htables, hglobals]
  exact hglobal f hf

theorem newCells (hd : h.Defines fields) (values : List Value) :
    (h.newCells values).2.Defines fields := by
  induction values generalizing h with
  | nil => exact hd
  | cons v rest ih => exact ih (hd.of_tables rfl rfl)

theorem newOutermost (hd : h.Defines fields) (chunk : List Char) (code : FunctionCode)
    (values : List Value) : (h.newOutermost chunk code values).2.Defines fields := by
  have hcells := hd.newCells values
  unfold Heap.newOutermost
  generalize h.newCells values = made at hcells ⊢
  exact hcells.of_tables rfl rfl

/-- A change of another table makes no difference, and one of the table of globals none if it leaves
the values alone. -/
theorem modifyTable (hd : h.Defines fields) {id : TableId} {f : Table → Table}
    (hid : id = h.globals → ∀ t : Table, (f t).values = t.values) :
    (h.modifyTable id f).Defines fields := by
  refine ⟨?_, fun x hx => ?_⟩
  · show h.globals.index < (h.tables.modify id.index f).size
    rw [Array.size_modify]
    exact hd.exists_globals
  · rw [← hd.global x hx]
    show ((h.modifyTable id f).table h.globals).getKey _ = (h.table h.globals).getKey _
    rw [table_modifyTable]
    split
    next heq =>
      obtain ⟨rfl, -⟩ := heq
      unfold Table.getKey
      rw [hid rfl]
    · rfl

theorem newTable (hd : h.Defines fields) (t : Table) : (h.newTable t).2.Defines fields := by
  refine ⟨?_, fun x hx => ?_⟩
  · show h.globals.index < (h.tables.push t).size
    rw [Array.size_push]
    exact Nat.lt_succ_of_lt hd.exists_globals
  · rw [← hd.global x hx]
    show ((h.newTable t).2.table h.globals).getKey _ = (h.table h.globals).getKey _
    rw [table_newTable, if_neg]
    intro heq
    have hlt := hd.exists_globals
    rw [heq] at hlt
    exact Nat.lt_irrefl _ hlt

theorem tableOf (hd : h.Defines fields) (entries : List (String × Value)) :
    (h.tableOf entries).2.Defines fields := hd.newTable _

/-- A global that is set, next to those of other names. -/
theorem setGlobal (hd : h.Defines fields) (name : String) (v : Value)
    (hname : ∀ f ∈ fields, f.1 ≠ name) : (h.setGlobal name v).Defines ((name, v) :: fields) := by
  have hglobal (other : String) : (h.setGlobal name v).global other =
      if name = other then v else h.global other := by
    show ((h.modifyTable h.globals fun t => t.setKey (.ofText name) v).table h.globals).getKey _ =
      _
    rw [table_modifyTable, if_pos ⟨rfl, hd.exists_globals⟩, Table.getKey_setKey]
    simp only [beq_iff_eq, Key.ofText_inj]
    rfl
  refine ⟨?_, List.forall_mem_cons.mpr ⟨?_, fun f hf => ?_⟩⟩
  · show h.globals.index < (h.tables.modify _ _).size
    rw [Array.size_modify]
    exact hd.exists_globals
  · rw [hglobal, if_pos rfl]
  · rw [hglobal, if_neg (hname f hf).symm]
    exact hd.global f hf

/-- Globals set one after the other, all of which have different names. -/
theorem foldl_setGlobal (hd : h.Defines fields) (hnew : (new.map (·.1)).Nodup)
    (hother : ∀ f ∈ fields, f.1 ∉ new.map (·.1)) :
    (new.foldl (fun h f => h.setGlobal f.1 f.2) h).Defines (new ++ fields) := by
  induction new generalizing h fields with
  | nil => exact hd
  | cons g rest ih =>
    obtain ⟨name, v⟩ := g
    rw [List.map_cons, List.nodup_cons] at hnew
    obtain ⟨hname, hrest⟩ := hnew
    have hset := hd.setGlobal name v fun f hf heq => hother f hf (heq ▸ List.mem_cons_self)
    have hall := ih hset hrest (List.forall_mem_cons.mpr ⟨hname, fun f hf hmem =>
      hother f hf (List.mem_cons_of_mem _ hmem)⟩)
    exact hall.mono List.perm_middle.symm.subset

end Defines

end Heap

namespace Library

variable {h : Heap} {fields : List (String × Value)}

/-- The functions and constants of the library that are globals. -/
def globalFields (limited : Bool) : List (String × Value) :=
  ((functionsOf "_G").filter fun f => !limited || isAllowed "_G" f.1) ++ constantsOf "_G"

/-- A group of its own is one more global. -/
theorem defines_addGroup (hd : h.Defines fields) (limited : Bool) {group : String}
    (hgroup : group ≠ "_G") (hname : ∀ f ∈ fields, f.1 ≠ group) :
    (addGroup limited h group).Defines fields := by
  unfold addGroup
  dsimp only
  rw [if_neg hgroup]
  split
  · exact hd
  · exact ((hd.tableOf _).setGlobal group _ hname).mono (List.subset_cons_self _ _)

theorem defines_foldl_addGroup (hd : h.Defines fields) (limited : Bool) (groups : List String)
    (hgroups : "_G" ∉ groups) (hnames : ∀ f ∈ fields, f.1 ∉ groups) :
    (groups.foldl (addGroup limited) h).Defines fields := by
  induction groups generalizing h with
  | nil => exact hd
  | cons group rest ih =>
    rw [List.mem_cons, not_or] at hgroups
    refine ih (defines_addGroup hd limited (Ne.symm hgroups.1) fun f hf heq => ?_) hgroups.2
      fun f hf hmem => hnames f hf (List.mem_cons_of_mem _ hmem)
    exact hnames f hf (heq ▸ List.mem_cons_self)

/-- The first group are the globals themselves. -/
theorem defines_addGroup_globals (hh : h.Defines []) (limited : Bool) :
    (addGroup limited h "_G").Defines (globalFields limited) := by
  have hnames : ((globalFields limited).map (·.1)).Nodup := by
    cases limited <;> decide +kernel
  have hall := hh.foldl_setGlobal hnames fun _ hf => absurd hf List.not_mem_nil
  rw [List.append_nil] at hall
  unfold addGroup
  exact hall

/-- The heap with the tables for the globals and for strings, which are empty. -/
def unfilled : Heap :=
  { tables := #[{}, {}], threads := #[.active], globals := ⟨0⟩, strings := ⟨1⟩ }

theorem start_defines (limited : Bool) : (start limited).Defines (globalFields limited) := by
  have hunfilled : unfilled.Defines [] := ⟨by decide, fun _ hf => absurd hf List.not_mem_nil⟩
  have hgroups : ∀ f ∈ globalFields limited, f.1 ∉ groups := by
    cases limited <;> decide +kernel
  have hothers := defines_foldl_addGroup (defines_addGroup_globals hunfilled limited) limited
    groups.tail (by decide) fun f hf hmem => hgroups f hf (List.mem_of_mem_tail hmem)
  have hall := (hothers.setGlobal "_G" (.table ⟨0⟩) fun f hf heq =>
    hgroups f hf (heq ▸ by decide)).mono (List.subset_cons_self _ _)
  -- the metatable of strings is another table
  have hstrings : (⟨1⟩ : TableId) ≠ ((groups.tail.foldl (addGroup limited)
      (addGroup limited unfilled "_G")).setGlobal "_G" (.table ⟨0⟩)).globals := by
    cases limited <;> decide +kernel
  exact hall.modifyTable fun heq => absurd heq hstrings

end Library

end StoredRoutine.Script
