import StoredRoutine.Script.Machine.Basic

/-!
# `StoredRoutine.Proofs.Script.Heap`: where the values of scripts come from

A script makes most values on its own. Only the engine makes objects, the functions of iterators
and failures, and a table is either new or one that the script was given (`Value.isForeign`). So a
property of values that every other value has by nature (`Innate`) can only be lost by a foreign
value, and a foreign value only moves: from a table to a register, from there to the arguments of a
call, and so on.

`Heap.Holds` and `Control.Holds` say that all values in a heap or in a control have a property.
The operations on tables and heaps keep this if the values that go in have the property, and
what they answer has it too. `StoredRoutine.Proofs.Script.Machine` goes on with the machine.

A table may lack the property, if it is a metatable that no script gets to see. The globals of
trusted scripts have one (`Heap.GuardedBy`), and `Heap.Conforms` says that there is no other.
-/

set_option autoImplicit false

namespace StoredRoutine.Script

/-- Whether scripts have a value only if it was given to them, or if it is a new table. -/
def Value.isForeign : Value → Bool
  | .table _ => true
  | .object .. => true
  | .failure _ => true
  | .service (.nextRow _) => true
  | _ => false

/-- Every value that scripts make on their own has the property. -/
def Innate (Q : Value → Prop) : Prop := ∀ v : Value, v.isForeign = false → Q v

variable {Q : Value → Prop}

/-! ### Tables -/

/-- The keys and values of a table have a property. -/
def Table.Holds (Q : Value → Prop) (t : Table) : Prop :=
  ∀ (k : Key) (v : Value), t.values[k]? = some v → Q k.value ∧ Q v

/-- A value gives its property to the key that it is. -/
theorem Key.value_of_ofValue? (own : Innate Q) {v : Value} {k : Key} (hk : Key.ofValue? v = some k)
    (hv : Q v) : Q k.value := by
  cases v with
  | nil => simp [Key.ofValue?] at hk
  | number n =>
    -- a number is a key in a normal form, which is a number again
    rw [Key.ofValue?] at hk
    cases hn : n.normalized with
    | int i => rw [hn] at hk; cases hk; exact own _ rfl
    | float x => rw [hn] at hk; cases hk; exact own _ rfl
    | nan s => rw [hn] at hk; cases hk
  | _ => cases hk; exact hv

namespace Table

variable {t : Table}

/-- The shape and the metatable of a table do not count. -/
theorem holds_of_values_eq {t' : Table} (h : t.Holds Q) (heq : t'.values = t.values) :
    t'.Holds Q := by
  intro k v hv
  rw [heq] at hv
  exact h k v hv

theorem holds_empty : Table.Holds Q {} := by
  intro k v hv
  simp at hv

theorem holds_withRoom (items entries : Nat) : (withRoom items entries).Holds Q :=
  holds_of_values_eq holds_empty rfl

theorem Holds.getKey (own : Innate Q) (h : t.Holds Q) (k : Key) : Q (t.getKey k) := by
  rw [Table.getKey, Std.HashMap.getD_eq_getD_getElem?]
  cases hv : t.values[k]? with
  | none => exact own _ rfl
  | some v => exact (h k v hv).2

theorem Holds.get (own : Innate Q) (h : t.Holds Q) (key : Value) : Q (t.get key) := by
  unfold Table.get
  cases Key.ofValue? key with
  | none => exact own _ rfl
  | some k => exact h.getKey own k

theorem Holds.setKey (h : t.Holds Q) {k : Key} {v : Value} (hk : Q k.value) (hv : Q v) :
    (t.setKey k v).Holds Q := by
  intro k' v' hv'
  have hvalues : (t.setKey k v).values =
      if v.isNil then t.values.erase k else t.values.insert k v := rfl
  rw [hvalues] at hv'
  by_cases hnil : v.isNil = true
  · rw [if_pos hnil, Std.HashMap.getElem?_erase] at hv'
    split at hv'
    · cases hv'
    · exact h k' v' hv'
  · rw [if_neg hnil, Std.HashMap.getElem?_insert] at hv'
    split at hv'
    case isTrue heq =>
      cases hv'
      exact ⟨eq_of_beq heq ▸ hk, hv⟩
    case isFalse => exact h k' v' hv'

theorem Holds.set (own : Innate Q) (h : t.Holds Q) {key v : Value} (hk : Q key) (hv : Q v) :
    (t.set key v).Holds Q := by
  unfold Table.set
  cases heq : Key.ofValue? key with
  | none => exact h
  | some k => exact h.setKey (Key.value_of_ofValue? own heq hk) hv

theorem Holds.touch (h : t.Holds Q) (key : Value) : (t.touch key).Holds Q := by
  unfold Table.touch
  split
  · split
    · exact holds_of_values_eq h rfl
    · exact h
  · exact h

/-- Items entered one after the other; their keys are numbers. -/
theorem Holds.foldl_setKey (own : Innate Q) {values : List (Value × Nat)}
    (hvs : ∀ v ∈ values, Q v.1) (h : t.Holds Q) :
    (values.foldl (fun t v => t.setKey (.ofNat v.2) v.1) t).Holds Q := by
  induction values generalizing t with
  | nil => exact h
  | cons v rest ih =>
    obtain ⟨hv, hrest⟩ := List.forall_mem_cons.mp hvs
    exact ih hrest (h.setKey (own _ rfl) hv)

theorem Holds.fill (own : Innate Q) (h : t.Holds Q) (items : Nat) {values : List Value}
    (hvs : ∀ v ∈ values, Q v) : (t.fill items values).Holds Q := by
  refine Holds.foldl_setKey own ?_ (holds_of_values_eq h rfl)
  intro v hv
  exact hvs v.1 (List.fst_mem_of_mem_zipIdx hv)

theorem Holds.length (h : t.Holds Q) : t.length.2.Holds Q := holds_of_values_eq h rfl

/-- What the traversal goes through. -/
theorem Holds.pairs (h : t.Holds Q) : ∀ p ∈ t.pairs, Q p.1 ∧ Q p.2 := by
  intro p hp
  obtain ⟨k, -, hk⟩ := List.mem_filterMap.mp hp
  obtain ⟨v, hv, rfl⟩ := Option.map_eq_some_iff.mp hk
  exact h k v hv


/-- A search of the traversal ends at a key that has a value. -/
theorem firstFrom?_holds {holds : Key → Bool} {s : Shape} {count place : Nat} {k : Key}
    (hk : s.firstFrom? holds count place = some k) : holds k = true := by
  induction count generalizing place with
  | zero => cases hk
  | succ count ih =>
    unfold Shape.firstFrom? at hk
    cases hat : (s.keyAt? place).filter holds with
    | none =>
      rw [hat] at hk
      exact ih hk
    | some found =>
      rw [hat] at hk
      cases hk
      exact (Option.filter_eq_some_iff.mp hat).2

theorem Holds.next? (own : Innate Q) (h : t.Holds Q) {key : Value} {p : Value × Value}
    (hp : t.next? key = some (some p)) : Q p.1 ∧ Q p.2 := by
  unfold Table.next? at hp
  obtain ⟨place, -, hplace⟩ := Option.map_eq_some_iff.mp hp
  obtain ⟨k, hk, rfl⟩ := Option.map_eq_some_iff.mp hplace
  -- the key that is found has a value, so it is one of those that the table holds
  have hin := firstFrom?_holds hk
  rw [Std.HashMap.contains_eq_isSome_getElem?] at hin
  obtain ⟨v, hv⟩ := Option.isSome_iff_exists.mp hin
  exact ⟨(h k v hv).1, h.getKey own k⟩

end Table

/-! ### What waits for a call -/

/-- The values in a list have a property. -/
abbrev AllOf (Q : Value → Prop) (vs : List Value) : Prop := ∀ v ∈ vs, Q v

/-- The values of an activation have a property. -/
structure Activation.Holds (Q : Value → Prop) (a : Activation) : Prop where
  register : ∀ r, Q (a.register r)
  spread : AllOf Q a.spread
  varargs : AllOf Q a.call.varargs

/-- The values that a function of the library keeps have a property. -/
def Native.Holds (Q : Value → Prop) : Native → Prop
  | .joinedLength args => AllOf Q args
  | .joinedItem j => Q j.list
  | _ => True

/-- The values of what waits for a call have a property. -/
def Caller.Holds (Q : Value → Prop) : Caller → Prop
  | .script a => a.Holds Q
  | .concat a left => a.Holds Q ∧ AllOf Q left
  | .native n _ _ => n.Holds Q

/-- The values of what happens next have a property. -/
def Focus.Holds (Q : Value → Prop) : Focus → Prop
  | .run a => a.Holds Q
  | .give values => AllOf Q values
  | .call _ f args => Q f ∧ AllOf Q args
  | .raise error => Q error

/-- The values of a coroutine have a property. -/
def ThreadState.Holds (Q : Value → Prop) : ThreadState → Prop
  | .fresh body => Q body
  | .waiting callers => ∀ c ∈ callers, c.Holds Q
  | _ => True

/-- The values of all stacks that wait have a property. The calls around a run do not count:
messages know their places and nothing else of them. -/
structure Control.Waits (Q : Value → Prop) (c : Control) : Prop where
  callers : ∀ x ∈ c.callers, x.Holds Q
  resumptions : ∀ r ∈ c.resumptions, ∀ x ∈ r.callers, x.Holds Q

/-- The values of a control have a property. -/
structure Control.Holds (Q : Value → Prop) (c : Control) : Prop extends c.Waits Q where
  focus : c.focus.Holds Q

/-! ### Heaps -/

/-- The values of a heap have a property. -/
structure Heap.Holds (Q : Value → Prop) (h : Heap) : Prop where
  table : ∀ id, (h.table id).Holds Q
  read : ∀ cell, Q (h.read cell)
  thread : ∀ t, (h.thread t).Holds Q

/-! A property that is implied is held, too. -/

section

variable {Q' : Value → Prop} (hmono : ∀ v, Q v → Q' v)
include hmono

theorem Activation.Holds.mono {a : Activation} (ha : a.Holds Q) : a.Holds Q' :=
  ⟨fun r => hmono _ (ha.register r), fun v hv => hmono v (ha.spread v hv),
    fun v hv => hmono v (ha.varargs v hv)⟩

theorem Caller.Holds.mono {c : Caller} (hc : c.Holds Q) : c.Holds Q' := by
  cases c with
  | script a => exact Activation.Holds.mono hmono hc
  | concat a left => exact ⟨hc.1.mono hmono, fun v hv => hmono v (hc.2 v hv)⟩
  | native n _ _ =>
    cases n with
    | joinedLength args => exact fun v hv => hmono v (hc v hv)
    | joinedItem j => exact hmono _ hc
    | _ => exact trivial

theorem ThreadState.Holds.mono {s : ThreadState} (hs : s.Holds Q) : s.Holds Q' := by
  cases s with
  | fresh body => exact hmono body hs
  | waiting callers => exact fun c hc => (hs c hc).mono hmono
  | _ => exact trivial

theorem Control.Waits.mono {c : Control} (hc : c.Waits Q) : c.Waits Q' :=
  ⟨fun x hx => (hc.callers x hx).mono hmono,
    fun r hr x hx => (hc.resumptions r hr x hx).mono hmono⟩

theorem Control.Holds.mono {c : Control} (hc : c.Holds Q) : c.Holds Q' where
  toWaits := hc.toWaits.mono hmono
  focus := by
    have hfocus := hc.focus
    generalize c.focus = focus at hfocus ⊢
    cases focus with
    | run a => exact Activation.Holds.mono hmono hfocus
    | give values => exact fun v hv => hmono v (hfocus v hv)
    | call position f args => exact ⟨hmono f hfocus.1, fun v hv => hmono v (hfocus.2 v hv)⟩
    | raise error => exact hmono error hfocus

theorem Heap.Holds.mono {h : Heap} (hh : h.Holds Q) : h.Holds Q' where
  table id k v hv := ⟨hmono _ (hh.table id k v hv).1, hmono v (hh.table id k v hv).2⟩
  read cell := hmono _ (hh.read cell)
  thread t := (hh.thread t).mono hmono

end

section

variable {α : Type} {P : α → Prop} {a : Array α} {v d : α}

theorem forall_getD_push (ha : ∀ i, P (a.getD i d)) (hv : P v) (i : Nat) :
    P ((a.push v).getD i d) := by
  have hi := ha i
  rw [Array.getD_eq_getD_getElem?] at hi ⊢
  rw [Array.getElem?_push]
  split
  · exact hv
  · exact hi

theorem forall_getD_setIfInBounds (ha : ∀ i, P (a.getD i d)) (place : Nat) (hv : P v) (i : Nat) :
    P ((a.setIfInBounds place v).getD i d) := by
  have hi := ha i
  rw [Array.getD_eq_getD_getElem?] at hi ⊢
  rw [Array.getElem?_setIfInBounds]
  by_cases heq : place = i
  · by_cases hlt : place < a.size
    · rw [if_pos heq, if_pos hlt]
      exact hv
    · -- outside of the array nothing is set, and the default stands at the place
      rw [Array.getElem?_eq_none (by omega)] at hi
      rw [if_pos heq, if_neg hlt]
      exact hi
  · rw [if_neg heq]
    exact hi

end

namespace Heap

variable {h : Heap}

theorem table_newTable (h : Heap) (t : Table) (id : TableId) :
    (h.newTable t).2.table id = if id = (h.newTable t).1 then t else h.table id := by
  have hid : (id = (h.newTable t).1) ↔ id.index = h.tables.size := by
    cases id
    simp [newTable]
  unfold Heap.table
  simp only [hid, Array.getD_eq_getD_getElem?]
  show ((h.tables.push t)[id.index]?).getD {} = _
  rw [Array.getElem?_push]
  split <;> rfl

theorem table_modifyTable (h : Heap) (id other : TableId) (f : Table → Table) :
    (h.modifyTable id f).table other =
      if other = id ∧ id.index < h.tables.size then f (h.table id) else h.table other := by
  have hid : other = id ↔ id.index = other.index := by
    cases id
    cases other
    simp [eq_comm]
  unfold Heap.table
  simp only [hid, Array.getD_eq_getD_getElem?]
  show ((h.tables.modify id.index f)[other.index]?).getD {} = _
  rw [Array.getElem?_modify]
  by_cases heq : id.index = other.index
  · by_cases hlt : id.index < h.tables.size
    · rw [if_pos heq, if_pos ⟨heq, hlt⟩, ← heq, Array.getElem?_eq_getElem hlt]
      rfl
    · have hnone : h.tables[other.index]? = none := Array.getElem?_eq_none (by omega)
      rw [if_pos heq, if_neg (fun hc => hlt hc.2), hnone]
      rfl
  · rw [if_neg heq, if_neg (fun hc => heq hc.1)]

theorem Holds.newTable (hh : h.Holds Q) {t : Table} (ht : t.Holds Q) :
    (h.newTable t).2.Holds Q where
  table id := by
    rw [table_newTable]
    split
    · exact ht
    · exact hh.table id
  read := hh.read
  thread := hh.thread

theorem Holds.modifyTable (hh : h.Holds Q) (id : TableId) {f : Table → Table}
    (hf : (f (h.table id)).Holds Q) : (h.modifyTable id f).Holds Q where
  table other := by
    rw [table_modifyTable]
    split
    · exact hf
    · exact hh.table other
  read := hh.read
  thread := hh.thread

theorem Holds.rawGet (own : Innate Q) (hh : h.Holds Q) (id : TableId) (key : Value) :
    Q (h.rawGet id key) := (hh.table id).get own key

theorem Holds.rawSet (own : Innate Q) (hh : h.Holds Q) (id : TableId) {key v : Value} (hk : Q key)
    (hv : Q v) : (h.rawSet id key v).Holds Q :=
  hh.modifyTable id ((hh.table id).set own hk hv)

theorem Holds.touch (hh : h.Holds Q) (id : TableId) (key : Value) : (h.touch id key).Holds Q := by
  unfold Heap.touch
  split
  · split
    · exact hh.modifyTable id ((hh.table id).touch _)
    · exact hh
  · exact hh

theorem Holds.length (hh : h.Holds Q) (id : TableId) : (h.length id).2.Holds Q :=
  hh.modifyTable id (Table.holds_of_values_eq (hh.table id) rfl)

theorem foldl_setKey_holds (own : Innate Q) {fields : List (String × Value)}
    (hf : ∀ f ∈ fields, Q f.2) {t : Table} (ht : t.Holds Q) :
    (fields.foldl (fun t f => t.setKey (.ofText f.1) f.2) t).Holds Q := by
  induction fields generalizing t with
  | nil => exact ht
  | cons f rest ih =>
    obtain ⟨hv, hrest⟩ := List.forall_mem_cons.mp hf
    exact ih hrest (ht.setKey (own _ rfl) hv)

theorem Holds.tableOf (own : Innate Q) (hh : h.Holds Q) {fields : List (String × Value)}
    (hf : ∀ f ∈ fields, Q f.2) : (h.tableOf fields).2.Holds Q :=
  hh.newTable (foldl_setKey_holds own hf Table.holds_empty)

theorem Holds.global (own : Innate Q) (hh : h.Holds Q) (name : String) : Q (h.global name) :=
  (hh.table h.globals).getKey own _

theorem Holds.setGlobal (own : Innate Q) (hh : h.Holds Q) (name : String) {v : Value} (hv : Q v) :
    (h.setGlobal name v).Holds Q :=
  hh.modifyTable h.globals ((hh.table h.globals).setKey (own _ rfl) hv)

theorem Holds.handler (own : Innate Q) (hh : h.Holds Q) (v : Value) (event : String) :
    Q (h.handler v event) := by
  unfold Heap.handler
  cases h.metatable? v with
  | none => exact own _ rfl
  | some m => exact (hh.table m).getKey own _

theorem Holds.write (hh : h.Holds Q) (cell : CellId) {v : Value} (hv : Q v) :
    (h.write cell v).Holds Q where
  table := hh.table
  read other := forall_getD_setIfInBounds (fun i => hh.read ⟨i⟩) cell.index hv other.index
  thread := hh.thread

theorem Holds.newCell (hh : h.Holds Q) {v : Value} (hv : Q v) : (h.newCell v).2.Holds Q where
  table := hh.table
  read other := forall_getD_push (fun i => hh.read ⟨i⟩) hv other.index
  thread := hh.thread

theorem Holds.newCells (hh : h.Holds Q) {vs : List Value} (hvs : AllOf Q vs) :
    (h.newCells vs).2.Holds Q := by
  induction vs generalizing h with
  | nil => exact hh
  | cons v rest ih =>
    obtain ⟨hv, hrest⟩ := List.forall_mem_cons.mp hvs
    exact ih (hh.newCell hv) hrest

theorem Holds.newClosure (hh : h.Holds Q) (c : Closure) : (h.newClosure c).2.Holds Q :=
  ⟨hh.table, hh.read, hh.thread⟩

theorem Holds.newThread (hh : h.Holds Q) {body : Value} (hb : Q body) :
    (h.newThread body).2.Holds Q where
  table := hh.table
  read := hh.read
  thread other := by
    have hfresh : (ThreadState.fresh body).Holds Q := hb
    exact forall_getD_push (fun i => hh.thread ⟨i⟩) hfresh other.index

theorem Holds.setThread (hh : h.Holds Q) (t : ThreadId) {s : ThreadState} (hs : s.Holds Q) :
    (h.setThread t s).Holds Q where
  table := hh.table
  read := hh.read
  thread other := forall_getD_setIfInBounds (fun i => hh.thread ⟨i⟩) t.index hs other.index

theorem Holds.newMain (hh : h.Holds Q) (hglobals : Q (.table h.globals)) (chunk : List Char)
    (code : FunctionCode) : (h.newMain chunk code).2.Holds Q :=
  (hh.newCells (List.forall_mem_singleton.mpr hglobals)).newClosure _

end Heap

end StoredRoutine.Script
