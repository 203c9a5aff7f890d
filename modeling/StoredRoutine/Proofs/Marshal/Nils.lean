import StoredRoutine.Proofs.Datum.Subscripts
import StoredRoutine.Proofs.Marshal.Chains
import StoredRoutine.Proofs.Marshal.Forms

/-!
# `StoredRoutine.Proofs.Marshal.Nils`: the order, the nils and the depth of script forms

A table of a running script has no order of its own and cannot hold nil, and it is read back only if
tables are not nested too deep. So three things decide what comes back of a script form:

* its tables have their entries in the order of the keys (`FormOf.sorted`), which is found again
  whatever the order of the traversal is (`ofEntries_eq_of_perm`);
* entries with the value nil are left out (`dropNils`). A form has none exactly if it stays as it is
  (`dropNils_eq_self_iff`), and it has none unless an element of an array or a column of a row is
  blank (`FormOf.nilFree`): a document that is null, or the name of a cursor that is not open;
* an array of `n` dimensions is nested `n` levels deep (`nestedIn_nest`), and a nest that `scan`
  accepts has no more dimensions than there may be, or one more if no element is present
  (`length_le_of_scan_nest`).
-/

set_option autoImplicit false

namespace StoredRoutine

/-! ### Keys in order -/

namespace ScriptKey

theorem before_irrefl (k : ScriptKey) : ¬k.before k = true := by
  cases k with
  | int n => exact fun h => Int64.lt_irrefl (of_decide_eq_true h)
  | text s => exact fun h => lt_irrefl s (of_decide_eq_true h)

theorem before_trans {a b c : ScriptKey} (hab : a.before b = true) (hbc : b.before c = true) :
    a.before c = true := by
  cases a <;> cases b <;> cases c <;>
    simp only [before, decide_eq_true_eq, Bool.false_eq_true] at hab hbc ⊢
  · exact Int64.lt_trans hab hbc
  · exact lt_trans hab hbc

/-- Of two different keys one comes before the other. -/
theorem before_of_not_before {a b : ScriptKey} (hne : a ≠ b) (h : ¬a.before b = true) :
    b.before a = true := by
  cases a <;> cases b <;> simp only [before, decide_eq_true_eq, not_true, ne_eq, int.injEq,
    text.injEq] at hne h ⊢
  · rw [Int64.lt_iff_toInt_lt] at h ⊢
    exact lt_of_le_of_ne (Int.not_lt.mp h) fun heq => hne (Int64.toInt_inj.mp heq.symm)
  · exact lt_of_le_of_ne (not_lt.mp h) (Ne.symm hne)

end ScriptKey

namespace ScriptTable

/-- The entries are in the order of their keys. -/
def Ascending (entries : ScriptTable) : Prop := entries.Pairwise fun a b => a.1.before b.1 = true

variable {entries sorted : ScriptTable}

/-- No key stands twice in a table in order. -/
theorem Ascending.nodup (h : Ascending entries) : (entries.map (·.1)).Nodup := by
  refine List.pairwise_map.mpr (h.imp fun {a c} hac heq => ?_)
  exact ScriptKey.before_irrefl c.1 (heq ▸ hac)

/-- A new key adds an entry. -/
theorem insert_perm {key : ScriptKey} (value : ScriptValue) (hnew : key ∉ entries.map (·.1)) :
    (entries.insert key value).Perm ((key, value) :: entries) := by
  induction entries with
  | nil => exact .refl _
  | cons e rest ih =>
    obtain ⟨k, v⟩ := e
    rw [List.map_cons, List.mem_cons, not_or] at hnew
    unfold insert
    rw [if_neg hnew.1]
    split
    · exact .refl _
    · exact ((ih hnew.2).cons _).trans (.swap _ _ _)

/-- Entries stay in order. -/
theorem Ascending.insert (h : Ascending entries) (key : ScriptKey) (value : ScriptValue) :
    Ascending (entries.insert key value) := by
  induction entries with
  | nil => exact List.pairwise_singleton _ _
  | cons e rest ih =>
    obtain ⟨k, v⟩ := e
    obtain ⟨hfirst, hrest⟩ := List.pairwise_cons.mp h
    unfold ScriptTable.insert
    split
    next heq =>
      subst heq
      exact List.pairwise_cons.mpr ⟨hfirst, hrest⟩
    next hne =>
      split
      next hbefore =>
        refine List.pairwise_cons.mpr ⟨fun e he => ?_, h⟩
        obtain rfl | he := List.mem_cons.mp he
        · exact hbefore
        · exact ScriptKey.before_trans hbefore (hfirst e he)
      next hbehind =>
        refine List.pairwise_cons.mpr ⟨fun e he => ?_, ih hrest⟩
        obtain rfl | he := Marshal.mem_insert he
        · exact ScriptKey.before_of_not_before hne hbehind
        · exact hfirst e he

/-- Entries that are entered one after the other are put in order. -/
theorem ascending_ofEntries (entries : List (ScriptKey × ScriptValue)) :
    Ascending (ofEntries entries) := by
  suffices hfold : ∀ t : ScriptTable, Ascending t →
      Ascending (entries.foldl (fun t e => insert e.1 e.2 t) t) from hfold [] List.Pairwise.nil
  induction entries with
  | nil => exact fun t h => h
  | cons e rest ih => exact fun t h => ih _ (h.insert e.1 e.2)

/-- Entries with different keys are all kept. -/
theorem ofEntries_perm (hkeys : (entries.map (·.1)).Nodup) : (ofEntries entries).Perm entries := by
  suffices hfold : ∀ t : ScriptTable, ((entries ++ t).map (·.1)).Nodup →
      (entries.foldl (fun t e => insert e.1 e.2 t) t).Perm (entries ++ t) by
    have hall := hfold [] (by rwa [List.append_nil])
    rwa [List.append_nil] at hall
  clear hkeys
  induction entries with
  | nil => exact fun t _ => .refl t
  | cons e rest ih =>
    intro t hkeys
    have hnew : e.1 ∉ t.map (·.1) := by
      rw [List.cons_append, List.map_cons, List.nodup_cons, List.map_append] at hkeys
      exact fun hmem => hkeys.1 (List.mem_append_right _ hmem)
    have hmove : (rest ++ insert e.1 e.2 t).Perm (e :: rest ++ t) :=
      ((insert_perm e.2 hnew).append_left rest).trans List.perm_middle
    exact (ih _ ((hmove.map (·.1)).nodup_iff.mpr hkeys)).trans hmove

/-- There is one order of entries by their keys. -/
theorem ofEntries_eq_of_perm (hperm : entries.Perm sorted) (hsorted : Ascending sorted) :
    ofEntries entries = sorted := by
  have hkeys : (entries.map (·.1)).Nodup := (hperm.map (·.1)).nodup_iff.mpr hsorted.nodup
  exact ((ofEntries_perm hkeys).trans hperm).eq_of_pairwise
    (fun a b _ _ hab hba => absurd (ScriptKey.before_trans hab hba) (ScriptKey.before_irrefl _))
    (ascending_ofEntries entries) hsorted

end ScriptTable

/-! ### Order, nils and depth of values -/

mutual

/-- The value without the entries of tables that are nil, at any depth. -/
def ScriptValue.dropNils : ScriptValue → ScriptValue
  | .table entries => .table (ScriptTable.dropNils entries)
  | v => v

/-- The entries that are not nil, and in their tables the same. -/
def ScriptTable.dropNils : List (ScriptKey × ScriptValue) → List (ScriptKey × ScriptValue)
  | [] => []
  | (_, .nil) :: rest => ScriptTable.dropNils rest
  | (k, v) :: rest => (k, ScriptValue.dropNils v) :: ScriptTable.dropNils rest

end

namespace ScriptValue

/-- In each table, at any depth, the entries are in the order of their keys. -/
inductive Sorted : ScriptValue → Prop
  | plain {v : ScriptValue} (hv : v.isTable = false) : Sorted v
  | table {entries : List (ScriptKey × ScriptValue)} (hsorted : ScriptTable.Ascending entries)
      (hentries : ∀ k v, (k, v) ∈ entries → Sorted v) : Sorted (.table entries)

/-- No table, at any depth, holds nil. -/
inductive NilFree : ScriptValue → Prop
  | plain {v : ScriptValue} (hv : v.isTable = false) : NilFree v
  | table {entries : List (ScriptKey × ScriptValue)} (hnil : ∀ k, (k, .nil) ∉ entries)
      (hentries : ∀ k v, (k, v) ∈ entries → NilFree v) : NilFree (.table entries)

/-- Tables are nested at most so many levels deep. -/
inductive NestedIn : Nat → ScriptValue → Prop
  | plain {n : Nat} {v : ScriptValue} (hv : v.isTable = false) : NestedIn n v
  | table {n : Nat} {entries : List (ScriptKey × ScriptValue)}
      (hentries : ∀ k v, (k, v) ∈ entries → NestedIn n v) : NestedIn (n + 1) (.table entries)

theorem NestedIn.mono {n m : Nat} {v : ScriptValue} (h : v.NestedIn n) (hle : n ≤ m) :
    v.NestedIn m := by
  induction h generalizing m with
  | plain hv => exact .plain hv
  | table hentries ih =>
    obtain ⟨m, rfl⟩ := Nat.exists_eq_add_of_le' (Nat.zero_lt_of_lt hle)
    exact .table fun k v hmem => ih k v hmem (Nat.le_of_succ_le_succ hle)

/-- A table needs one level more than what it holds. -/
theorem NestedIn.table_iff {n : Nat} {entries : List (ScriptKey × ScriptValue)} :
    NestedIn n (.table entries) ↔ ∃ m, n = m + 1 ∧ ∀ k v, (k, v) ∈ entries → NestedIn m v := by
  constructor
  · intro h
    cases h with
    | plain hv => exact nomatch hv
    | table hentries => exact ⟨_, rfl, hentries⟩
  · rintro ⟨m, rfl, hentries⟩
    exact .table hentries

/-- A property of all values, from tables to what they hold. -/
@[elab_as_elim]
theorem inductionOn {motive : ScriptValue → Prop} (v : ScriptValue)
    (plain : ∀ v, v.isTable = false → motive v)
    (table : ∀ entries, (∀ k v, (k, v) ∈ entries → motive v) → motive (.table entries)) :
    motive v := by
  match v with
  | .table entries =>
    refine table entries fun k v hmem => ?_
    have := List.sizeOf_lt_of_mem hmem
    exact inductionOn v plain table
  | .nil | .bool _ | .int _ | .number _ | .string _ | .tuple _ | .cursor _ => exact plain _ rfl
termination_by sizeOf v
decreasing_by
  simp_all
  omega

theorem dropNils_plain {v : ScriptValue} (hv : v.isTable = false) : v.dropNils = v := by
  cases v with
  | table entries => exact nomatch hv
  | _ => rfl

end ScriptValue

/-- What is left are the entries that are not nil. -/
theorem ScriptTable.dropNils_eq (entries : ScriptTable) :
    ScriptTable.dropNils entries =
      (entries.filter fun e => !e.2.isNil).map fun e => (e.1, e.2.dropNils) := by
  induction entries with
  | nil => rfl
  | cons e rest ih =>
    obtain ⟨k, v⟩ := e
    unfold ScriptTable.dropNils
    split
    next heq => exact nomatch heq
    next heq =>
      obtain ⟨he, rfl⟩ := List.cons.inj heq
      obtain ⟨-, rfl⟩ := Prod.mk.inj he
      exact ih
    next hne heq =>
      obtain ⟨he, rfl⟩ := List.cons.inj heq
      obtain ⟨rfl, rfl⟩ := Prod.mk.inj he
      have hv : v.isNil = false := by
        cases v with
        | nil => exact absurd rfl hne
        | _ => rfl
      rw [ih, List.filter_cons_of_pos (by simp [hv])]
      rfl

/-- What is left is in order. -/
theorem ScriptTable.Ascending.dropNils {entries : ScriptTable} (h : Ascending entries) :
    Ascending (ScriptTable.dropNils entries) := by
  rw [dropNils_eq]
  exact List.pairwise_map.mpr (h.filter _)

/-- A value stays as it is exactly if none of its tables holds nil. -/
theorem ScriptValue.dropNils_eq_self_iff {v : ScriptValue} : v.dropNils = v ↔ v.NilFree := by
  induction v using ScriptValue.inductionOn with
  | plain v hv => exact ⟨fun _ => .plain hv, fun _ => dropNils_plain hv⟩
  | table entries ih =>
    unfold dropNils
    rw [table.injEq, ScriptTable.dropNils_eq]
    constructor
    · intro heq
      -- as many entries are left as there were, so none was nil
      have hall : entries.filter (fun e => !e.2.isNil) = entries := by
        refine List.filter_sublist.eq_of_length ?_
        rw [← List.length_map, heq]
      rw [hall, Json.map_eq_self_iff] at heq
      rw [List.filter_eq_self] at hall
      refine .table (fun k hmem => ?_) fun k v hmem => ?_
      · exact absurd (hall _ hmem) (by simp [isNil])
      · exact (ih k v hmem).mp (Prod.mk.inj (heq _ hmem)).2
    · intro hfree
      cases hfree with
      | plain hv => exact nomatch hv
      | table hnil hentries =>
        have hall : entries.filter (fun e => !e.2.isNil) = entries := by
          refine List.filter_eq_self.mpr fun e he => ?_
          obtain ⟨k, v⟩ := e
          cases v with
          | nil => exact absurd he (hnil k)
          | _ => rfl
        rw [hall, Json.map_eq_self_iff]
        intro e he
        rw [(ih e.1 e.2 he).mpr (hentries e.1 e.2 he)]

/-! ### Values as a host holds them -/

/-- A document whose containers have their keys in order: an array is no longer than its positions
can count, and an object has its members in the order of their keys. -/
inductive Json.Regular : Json → Prop
  | null : Regular .null
  | bool (b : Bool) : Regular (.bool b)
  | number (n : JsonNumber) : Regular (.number n)
  | string (s : String) : Regular (.string s)
  | array {items : List Json} (hlength : items.length < 2 ^ 63) (hitems : ∀ j ∈ items, Regular j) :
      Regular (.array items)
  | object {members : List (String × Json)} (hsorted : members.Pairwise fun a b => a.1 < b.1)
      (hmembers : ∀ key j, (key, j) ∈ members → Regular j) : Regular (.object members)

namespace Datum

/-- Whether a value is not put together from others. -/
def isPlain : Datum → Bool
  | .json _ | .array _ | .row _ => false
  | _ => true

/-- A value as a host holds it: the arrays in it have dimensions that an array can have, and the
documents have their keys in order. -/
inductive Regular : Datum → Prop
  | plain {d : Datum} (hd : d.isPlain = true) : Regular d
  | json {j : Json} (hj : j.Regular) : Regular (.json j)
  | array {a : ArrayValue} (ha : ArrayOf.Regular a)
      (helements : ∀ d, some d ∈ a.elements → Regular d) : Regular (.array a)
  | row {layout : RowLayout} {values : List (Option Datum)}
      (hvalues : ∀ d, some d ∈ values → Regular d) : Regular (.row ⟨layout, values⟩)

/-- Whether a value is not NULL and yet has no script form of its own: a document that is null, or
the name of a cursor that is not open. -/
def isBlank (b : Border) : Datum → Bool
  | .json .null => true
  | .refcursor name => !b.hasPortal name
  | _ => false

/-- No element of an array and no column of a row is blank, at any depth. -/
inductive BlankFree (b : Border) : Datum → Prop
  | plain {d : Datum} (hd : d.isPlain = true) : BlankFree b d
  | json (j : Json) : BlankFree b (.json j)
  | array {a : ArrayValue} (hblank : ∀ d, some d ∈ a.elements → d.isBlank b = false)
      (helements : ∀ d, some d ∈ a.elements → BlankFree b d) : BlankFree b (.array a)
  | row {layout : RowLayout} {values : List (Option Datum)}
      (hblank : ∀ d, some d ∈ values → d.isBlank b = false)
      (hvalues : ∀ d, some d ∈ values → BlankFree b d) : BlankFree b (.row ⟨layout, values⟩)

end Datum

namespace Marshal

open ScriptTable (Ascending)

variable {b : Border}

/-! ### Documents -/

theorem ofJson_eq_nil {j : Json} (h : ScriptValue.ofJson j = .nil) : j = .null := by
  cases j with
  | null => rfl
  | number n =>
    cases n with
    | integer n =>
      have h : (if n < 2 ^ 63 then ScriptValue.int (Int64.ofInt n) else .number (Float.ofInt n)) =
        .nil := h
      split at h <;> exact nomatch h
    | float x => exact nomatch h
  | bool _ | string _ | array _ | object _ => exact nomatch h

/-- The form of a number is no table. -/
theorem isTable_ofJsonNumber (n : JsonNumber) : (ScriptValue.ofJsonNumber n).isTable = false := by
  cases n with
  | integer n =>
    unfold ScriptValue.ofJsonNumber
    dsimp only
    split <;> rfl
  | float x => rfl

theorem ascending_ofItems {items : List Json} (hlength : items.length < 2 ^ 63) :
    Ascending (ScriptTable.ofItems 1 items) := by
  have hkeys : ((ScriptTable.ofItems 1 items).map (·.1)).Pairwise
      fun a b => a.before b = true := by
    rw [show (1 : Int64) = Int64.ofNat 1 from rfl, ScriptTable.keys_ofItems]
    refine List.pairwise_map.mpr ((Json.sorted_keptItems 1 items).imp_of_mem ?_)
    intro m n hm hn hlt
    have hbound : ∀ n ∈ (Json.keptItems 1 items).map (·.1), n < 2 ^ 63 := by
      intro n hn
      obtain ⟨p, hp, rfl⟩ := List.mem_map.mp hn
      have hp := (Json.of_mem_keptItems hp).2.1
      omega
    refine decide_eq_true (Int64.lt_iff_toInt_lt.mpr ?_)
    rw [Int64.toInt_ofNat_of_lt (hbound m hm), Int64.toInt_ofNat_of_lt (hbound n hn)]
    exact Int.ofNat_lt.mpr hlt
  exact List.pairwise_map.mp hkeys

theorem ascending_ofMembers {members : List (String × Json)}
    (hsorted : members.Pairwise fun a b => a.1 < b.1) :
    Ascending (ScriptTable.ofMembers members) := by
  induction members with
  | nil => exact List.Pairwise.nil
  | cons m rest ih =>
    obtain ⟨key, j⟩ := m
    obtain ⟨hfirst, hrest⟩ := List.pairwise_cons.mp hsorted
    by_cases hj : j = .null
    · subst hj
      exact ih hrest
    · rw [ScriptTable.ofMembers_cons key hj]
      refine List.pairwise_cons.mpr ⟨fun e he => ?_, ih hrest⟩
      obtain ⟨key', j', hmem, -, rfl⟩ := mem_ofMembers he
      exact decide_eq_true (hfirst _ hmem)

theorem sorted_ofJson {j : Json} (h : j.Regular) : (ScriptValue.ofJson j).Sorted := by
  induction h with
  | null | bool _ | string _ => exact .plain rfl
  | number n => exact .plain (isTable_ofJsonNumber n)
  | array hlength hitems ih =>
    refine .table (ascending_ofItems hlength) fun k v hmem => ?_
    obtain ⟨j, hj, -, rfl⟩ := mem_ofItems (i := 1) hmem
    exact ih j hj
  | object hsorted hmembers ih =>
    refine .table (ascending_ofMembers hsorted) fun k v hmem => ?_
    obtain ⟨key, j, hj, -, heq⟩ := mem_ofMembers hmem
    obtain ⟨-, rfl⟩ := Prod.mk.inj heq
    exact ih key j hj

/-- Nulls in a document have no entries. -/
theorem nilFree_ofJson (j : Json) : (ScriptValue.ofJson j).NilFree := by
  induction j using Json.inductionOn with
  | null | bool _ | string _ => exact .plain rfl
  | number n => exact .plain (isTable_ofJsonNumber n)
  | array items ih =>
    refine .table (fun k hmem => ?_) fun k v hmem => ?_
    · obtain ⟨j, -, hne, heq⟩ := mem_ofItems (i := 1) hmem
      exact hne (ofJson_eq_nil heq.symm)
    · obtain ⟨j, hj, -, rfl⟩ := mem_ofItems (i := 1) hmem
      exact ih j hj
  | object members ih =>
    refine .table (fun k hmem => ?_) fun k v hmem => ?_
    · obtain ⟨key, j, -, hne, heq⟩ := mem_ofMembers hmem
      exact hne (ofJson_eq_nil (Prod.mk.inj heq).2.symm)
    · obtain ⟨key, j, hj, -, heq⟩ := mem_ofMembers hmem
      obtain ⟨-, rfl⟩ := Prod.mk.inj heq
      exact ih key j hj

/-! ### Nests -/

theorem le_of_mem_present {α : Type} {base : Nat} {l : List (Option α)} {p : Nat × α}
    (h : p ∈ present base l) : base ≤ p.1 := by
  rw [← Nat.add_zero base, present_add] at h
  obtain ⟨q, -, rfl⟩ := List.mem_map.mp h
  exact Nat.le_add_right base q.1

/-- The places go up. -/
theorem pairwise_present {α : Type} (base : Nat) (l : List (Option α)) :
    (present base l).Pairwise fun p q => p.1 < q.1 := by
  induction l generalizing base with
  | nil => exact List.Pairwise.nil
  | cons a rest ih =>
    cases a with
    | none => exact ih (base + 1)
    | some a => exact List.pairwise_cons.mpr ⟨fun q hq => le_of_mem_present hq, ih (base + 1)⟩

theorem before_subscript {d : ArrayDim} (hd : Extent d) {i j : Nat} (hij : i < j)
    (hj : j < d.len) : (subscript d i).before (subscript d j) = true := by
  rw [subscript_eq, subscript_eq]
  refine decide_eq_true (Int64.lt_iff_toInt_lt.mpr ?_)
  rw [toInt_subscriptKey hd hj, toInt_subscriptKey hd (hij.trans hj)]
  omega

/-- What is in a chunk is in the list. -/
theorem mem_of_mem_chunk {α : Type} {s i : Nat} {l : List α} {x : α} (h : x ∈ chunk s i l) :
    x ∈ l :=
  List.mem_of_mem_drop (List.mem_of_mem_take h)

/-- What is in a list is in one of its chunks. -/
theorem exists_mem_chunk {α : Type} {s n : Nat} {l : List α} {x : α} (hl : l.length = n * s)
    (h : x ∈ l) : ∃ i < n, x ∈ chunk s i l := by
  obtain ⟨j, hj, rfl⟩ := List.mem_iff_getElem.mp h
  have hs : 0 < s := Nat.pos_of_ne_zero fun hs => by simp [hl, hs] at hj
  refine ⟨j / s, Nat.div_lt_of_lt_mul (by rwa [Nat.mul_comm, ← hl]), ?_⟩
  refine List.mem_of_getElem? (i := j % s) ?_
  rw [getElem?_chunk l (Nat.mod_lt j hs), Nat.div_add_mod', List.getElem?_eq_getElem hj]

theorem sorted_nest {dims : List ArrayDim} {values : List (Option ScriptValue)}
    (hdims : ∀ d ∈ dims, Extent d) (hcount : values.length = volume dims)
    (h : ∀ v, some v ∈ values → v.Sorted) : ScriptValue.Sorted (.table (nest dims values)) := by
  induction dims generalizing values with
  | nil => exact .table List.Pairwise.nil fun _ _ hmem => absurd hmem List.not_mem_nil
  | cons d inner ih =>
    have hd := hdims d List.mem_cons_self
    rw [volume_cons] at hcount
    -- subscripts ascend, and the keys with them
    cases inner with
    | nil =>
      have hcount : values.length = d.len := hcount.trans (Nat.mul_one d.len)
      rw [nest_single hcount]
      refine .table (List.pairwise_map.mpr ?_) fun k v hmem => ?_
      · refine (pairwise_present 0 values).imp_of_mem fun {p q} _ hq hlt => ?_
        exact before_subscript hd hlt (hcount ▸ lt_of_mem_present hq)
      · obtain ⟨⟨i, w⟩, hw, heq⟩ := List.mem_map.mp hmem
        obtain ⟨-, rfl⟩ := Prod.mk.inj heq
        exact h w (List.mem_of_getElem? (mem_present.mp hw))
    | cons e inner =>
      have hinner : ∀ x ∈ e :: inner, Extent x := fun x hx => hdims x (List.mem_cons_of_mem d hx)
      rw [nest_cons]
      refine .table (List.pairwise_map.mpr ?_) fun k v hmem => ?_
      · exact List.pairwise_lt_range.imp_of_mem fun _ hj hlt =>
          before_subscript hd hlt (List.mem_range.mp hj)
      · obtain ⟨i, hi, heq⟩ := List.mem_map.mp hmem
        obtain ⟨-, rfl⟩ := Prod.mk.inj heq
        exact ih hinner (length_chunk hcount (List.mem_range.mp hi)) fun v hv =>
          h v (mem_of_mem_chunk hv)

theorem nilFree_nest {dims : List ArrayDim} {values : List (Option ScriptValue)}
    (hnil : some .nil ∉ values) (h : ∀ v, some v ∈ values → v.NilFree) :
    ScriptValue.NilFree (.table (nest dims values)) := by
  induction dims generalizing values with
  | nil =>
    exact .table (fun _ hmem => absurd hmem List.not_mem_nil) fun _ _ hmem =>
      absurd hmem List.not_mem_nil
  | cons d inner ih =>
    refine .table (fun k hmem => ?_) fun k v hmem => ?_
    · obtain ⟨-, hv⟩ | ⟨-, part, heq, -⟩ := mem_nest hmem
      · exact hnil hv
      · exact nomatch heq
    · obtain ⟨-, hv⟩ | ⟨-, part, rfl, hpart⟩ := mem_nest hmem
      · exact h v hv
      · exact ih (fun hmem => hnil (hpart hmem)) fun v hv => h v (hpart hv)

/-- A nest is as deep as there are dimensions, and its elements lie behind that. -/
theorem nestedIn_nest {dims : List ArrayDim} {values : List (Option ScriptValue)} {n : Nat}
    (hne : dims ≠ []) (h : ∀ v, some v ∈ values → v.NestedIn n) :
    ScriptValue.NestedIn (n + dims.length) (.table (nest dims values)) := by
  induction dims generalizing values with
  | nil => exact absurd rfl hne
  | cons d inner ih =>
    refine .table fun k v hmem => ?_
    obtain ⟨-, hv⟩ | ⟨hinner, part, rfl, hpart⟩ := mem_nest hmem
    · exact (h v hv).mono (Nat.le_add_right n inner.length)
    · exact ih hinner fun v hv => h v (hpart hv)

/-- Where a scan succeeds, an integer key lies on a level that there may be, and the scan of its
value has succeeded. -/
theorem scan_of_mem {maxDims level : Nat} {leafTables : Bool} {depth : Option Nat} {bounds : Bounds}
    {entries : ScriptTable} {r : Option Nat × Bounds}
    (h : scanEntries maxDims leafTables level depth bounds entries = .ok r) {k : Int64}
    {v : ScriptValue} (hmem : (.int k, v) ∈ entries) :
    level < maxDims ∧
      ∃ bounds' r', scanValue maxDims leafTables level bounds' v = .ok r' := by
  -- the depth and the bounds change from entry to entry
  induction entries generalizing depth bounds with
  | nil => exact absurd hmem List.not_mem_nil
  | cons e rest ih =>
    obtain ⟨key, w⟩ := e
    cases key with
    | text s =>
      simp only [scanEntries] at h
      exact ih h ((List.mem_cons.mp hmem).resolve_left (by simp))
    | int i =>
      simp only [scanEntries] at h
      split at h
      · cases h
      next hlevel =>
        split at h
        · cases h
        · split at h
          · cases h
          next below bounds' hvalue =>
            split at h
            · cases h
            next depth' hjoin =>
              obtain heq | hmem := List.mem_cons.mp hmem
              · obtain ⟨-, rfl⟩ := Prod.mk.inj heq
                exact ⟨Nat.not_le.mp hlevel, _, _, hvalue⟩
              · exact ih h hmem

/-- A nest that is accepted has no more dimensions than there may be. If no element is present it
may have one more, because no key is met on its last level. -/
theorem length_le_of_scan_nest {maxDims level : Nat} {depth : Option Nat} {bounds : Bounds}
    {dims : List ArrayDim} {values : List (Option ScriptValue)} {r : Option Nat × Bounds}
    (hne : dims ≠ []) (hdims : ∀ d ∈ dims, Extent d) (hcount : values.length = volume dims)
    (hlevel : level ≤ maxDims)
    (h : scanEntries maxDims false level depth bounds (nest dims values) = .ok r) :
    level + dims.length ≤ maxDims + 1 ∧
      ((∃ v, some v ∈ values) → level + dims.length ≤ maxDims) := by
  induction dims generalizing values level depth bounds r with
  | nil => exact absurd rfl hne
  | cons d inner ih =>
    have hd := hdims d List.mem_cons_self
    rw [volume_cons] at hcount
    cases inner with
    | nil =>
      refine ⟨Nat.succ_le_succ hlevel, ?_⟩
      rintro ⟨v, hv⟩
      have hcount : values.length = d.len := hcount.trans (Nat.mul_one d.len)
      rw [nest_single hcount] at h
      obtain ⟨i, hi⟩ := List.mem_iff_getElem?.mp hv
      exact (scan_of_mem h (List.mem_map_of_mem (mem_present.mpr hi))).1
    | cons e inner =>
      have hinner : ∀ x ∈ e :: inner, Extent x := fun x hx => hdims x (List.mem_cons_of_mem d hx)
      rw [nest_cons] at h
      -- each subscript of the outermost dimension has a table, whose scan has succeeded
      have hchunk : ∀ i < d.len, level + 1 + (e :: inner).length ≤ maxDims + 1 ∧
          ((∃ v, some v ∈ chunk (volume (e :: inner)) i values) →
            level + 1 + (e :: inner).length ≤ maxDims) := by
        intro i hi
        obtain ⟨hlt, bounds', r', hvalue⟩ :=
          scan_of_mem h (List.mem_map_of_mem (List.mem_range.mpr hi))
        simp only [scanValue, Bool.false_eq_true, if_false] at hvalue
        cases hsub : scanEntries maxDims false (level + 1) none bounds'
          (nest (e :: inner) (chunk (volume (e :: inner)) i values)) with
        | error f =>
          rw [hsub] at hvalue
          cases hvalue
        | ok r => exact ih (List.cons_ne_nil e inner) hinner (length_chunk hcount hi) hlt hsub
      have hlength : level + (d :: e :: inner).length = level + 1 + (e :: inner).length := by
        rw [List.length_cons, Nat.add_right_comm, Nat.add_assoc]
      rw [hlength]
      refine ⟨(hchunk 0 hd.pos).1, ?_⟩
      rintro ⟨v, hv⟩
      obtain ⟨i, hi, hv⟩ := exists_mem_chunk hcount hv
      exact (hchunk i hi).2 ⟨v, hv⟩

/-! ### Forms -/

theorem Simple.isTable {v : ScriptValue} (h : Simple v) : v.isTable = false := by
  cases h <;> rfl

/-- Only the form of a blank value is nil. -/
theorem isBlank_of_formOf_nil {d : Datum} (h : FormOf b d .nil) : d.isBlank b = true := by
  generalize hv : ScriptValue.nil = v at h
  cases h with
  | plain h =>
    subst hv
    obtain ⟨j, rfl, hj⟩ | ⟨name, rfl, hname, -⟩ | hsimple := plainToScript_ok h
    · obtain rfl := ofJson_eq_nil hj.symm
      rfl
    · simp [Datum.isBlank, hname]
    · exact nomatch hsimple
  | empty | array | row => exact nomatch hv

/-- An array with elements has dimensions, and as many elements as they describe. -/
theorem extents_of_regular {a : ArrayValue} (ha : ArrayOf.Regular a) (hne : a.elements ≠ []) :
    a.dims ≠ [] ∧ (∀ d ∈ a.dims, Extent d) ∧ a.elements.length = volume a.dims := by
  cases ha with
  | empty elementType => exact absurd rfl hne
  | filled hdims hextents hcount => exact ⟨hdims, hextents, hcount⟩

section Cells

variable {cells : List (Option (Datum × ScriptValue))} {v : ScriptValue}

theorem exists_of_mem_cells (h : some v ∈ cells.map (·.map (·.2))) :
    ∃ d, some (d, v) ∈ cells := by
  obtain ⟨cell, hcell, hv⟩ := List.mem_map.mp h
  obtain ⟨⟨d, w⟩, rfl, rfl⟩ := Option.map_eq_some_iff.mp hv
  exact ⟨d, hcell⟩

theorem mem_elements {d : Datum} (h : some (d, v) ∈ cells) : some d ∈ cells.map (·.map (·.1)) :=
  List.mem_map.mpr ⟨_, h, rfl⟩

end Cells

/-- The tables of a form have their entries in the order of the keys. -/
theorem FormOf.sorted {d : Datum} {v : ScriptValue} (h : FormOf b d v) (hd : d.Regular) :
    v.Sorted := by
  -- by induction on the form; only tables have an order
  induction h with
  | plain h =>
    obtain ⟨j, rfl, rfl⟩ | ⟨name, -, -, rfl⟩ | hv := plainToScript_ok h
    · cases hd with
      | plain hd => exact nomatch hd
      | json hj => exact sorted_ofJson hj
    · exact .plain rfl
    · exact .plain hv.isTable
  | empty => exact .table List.Pairwise.nil fun _ _ hmem => absurd hmem List.not_mem_nil
  | array t dims hne hcells ih =>
    cases hd with
    | plain hd => exact nomatch hd
    | array ha helements =>
      obtain ⟨-, hextents, hcount⟩ := extents_of_regular ha (mt List.map_eq_nil_iff.mp hne)
      rw [List.length_map] at hcount
      refine sorted_nest hextents (by rwa [List.length_map]) fun v hv => ?_
      obtain ⟨d, hcell⟩ := exists_of_mem_cells hv
      exact ih d v hcell (helements d (mem_elements hcell))
  | row hvalues hcolumns ih =>
    cases hd with
    | plain hd => exact nomatch hd
    | row hd =>
      refine .table (ScriptTable.ascending_ofEntries _) fun k v hmem => ?_
      obtain ⟨⟨name, d, w⟩, hcolumn, heq⟩ := List.mem_map.mp (mem_ofEntries hmem)
      obtain ⟨-, rfl⟩ := Prod.mk.inj heq
      exact ih name d w hcolumn (hd d (hvalues name d w hcolumn))

/-- A form holds nil only for blank elements and columns. -/
theorem FormOf.nilFree {d : Datum} {v : ScriptValue} (h : FormOf b d v) (hd : d.BlankFree b) :
    v.NilFree := by
  induction h with
  | plain h =>
    obtain ⟨j, -, rfl⟩ | ⟨name, -, -, rfl⟩ | hv := plainToScript_ok h
    · exact nilFree_ofJson j
    · exact .plain rfl
    · exact .plain hv.isTable
  | empty =>
    exact .table (fun _ hmem => absurd hmem List.not_mem_nil) fun _ _ hmem =>
      absurd hmem List.not_mem_nil
  | array t dims hne hcells ih =>
    cases hd with
    | plain hd => exact nomatch hd
    | array hblank helements =>
      refine nilFree_nest (fun hv => ?_) fun v hv => ?_
      · obtain ⟨d, hcell⟩ := exists_of_mem_cells hv
        have hd := isBlank_of_formOf_nil (hcells d .nil hcell)
        rw [hblank d (mem_elements hcell)] at hd
        exact nomatch hd
      · obtain ⟨d, hcell⟩ := exists_of_mem_cells hv
        exact ih d v hcell (helements d (mem_elements hcell))
  | row hvalues hcolumns ih =>
    cases hd with
    | plain hd => exact nomatch hd
    | row hblank hd =>
      refine .table (fun k hmem => ?_) fun k v hmem => ?_
      -- both parts are about one column and its form
      all_goals
        obtain ⟨⟨name, d, w⟩, hcolumn, heq⟩ := List.mem_map.mp (mem_ofEntries hmem)
        obtain ⟨-, rfl⟩ := Prod.mk.inj heq
        have hvalue := hvalues name d _ hcolumn
      · have hnil := isBlank_of_formOf_nil (hcolumns name d .nil hcolumn)
        rw [hblank d hvalue] at hnil
        exact nomatch hnil
      · exact ih name d _ hcolumn (hd d hvalue)

/-- The form of a value that is neither a document nor put together from others is no table. -/
theorem FormOf.isTable {d : Datum} {v : ScriptValue} (h : FormOf b d v) (hd : d.isPlain = true) :
    v.isTable = false := by
  cases h with
  | plain h =>
    obtain ⟨j, rfl, -⟩ | ⟨name, -, -, rfl⟩ | hv := plainToScript_ok h
    · exact nomatch hd
    · rfl
    · exact hv.isTable
  | empty | array | row => exact nomatch hd

/-- The form of an array whose elements are neither documents nor put together from others: if it
is accepted, it is nested no deeper than there may be dimensions, or one level deeper if there are
elements and all of them are NULL. -/
theorem FormOf.nestedIn {t : TypeId} {dims : List ArrayDim} {elements : List (Option Datum)}
    {entries : ScriptTable} {maxDims : Nat} {shape : List ArrayDim}
    (h : FormOf b (.array ⟨t, dims, elements⟩) (.table entries))
    (hregular : ArrayOf.Regular (⟨t, dims, elements⟩ : ArrayValue))
    (hplain : ∀ d, some d ∈ elements → d.isPlain = true) (hmax : 0 < maxDims)
    (hscan : scan maxDims false entries = .ok shape) :
    ScriptValue.NestedIn (maxDims + 1) (.table entries) ∧
      ((elements ≠ [] → ∃ d, some d ∈ elements) →
        ScriptValue.NestedIn maxDims (.table entries)) := by
  generalize hv : ScriptValue.table entries = v at h
  generalize hd : Datum.array ⟨t, dims, elements⟩ = d at h
  cases h with
  | plain h =>
    subst hv hd
    obtain ⟨j, heq, -⟩ | ⟨name, heq, -⟩ | hsimple := plainToScript_ok h
    · cases heq
    · cases heq
    · exact absurd hsimple.isTable (by simp [ScriptValue.isTable])
  | empty =>
    obtain ⟨maxDims, rfl⟩ := Nat.exists_eq_add_of_le' hmax
    have hempty (n : Nat) : ScriptValue.NestedIn (n + 1) (.table []) :=
      .table fun _ _ hmem => absurd hmem List.not_mem_nil
    exact ⟨hempty _, fun _ => hempty _⟩
  | @array _ _ cells hne hcells =>
    obtain ⟨rfl, rfl, rfl⟩ := ArrayOf.mk.inj (Datum.array.inj hd)
    obtain rfl := ScriptValue.table.inj hv
    obtain ⟨hdims, hextents, hcount⟩ :=
      extents_of_regular hregular (mt List.map_eq_nil_iff.mp hne)
    rw [List.length_map] at hcount
    -- the nest is as deep as it has dimensions, and the scan has counted these
    have hnested : ScriptValue.NestedIn (0 + dims.length)
        (.table (nest dims (cells.map (·.map (·.2))))) := by
      refine nestedIn_nest hdims fun v hv => ?_
      obtain ⟨d, hcell⟩ := exists_of_mem_cells hv
      exact .plain ((hcells d v hcell).isTable (hplain d (mem_elements hcell)))
    rw [Nat.zero_add] at hnested
    unfold scan at hscan
    cases hentries : scanEntries maxDims false 0 none [] (nest dims (cells.map (·.map (·.2)))) with
    | error f =>
      rw [hentries] at hscan
      cases hscan
    | ok r =>
      obtain ⟨hany, hsome⟩ := length_le_of_scan_nest hdims hextents (by rwa [List.length_map])
        (Nat.zero_le maxDims) hentries
      rw [Nat.zero_add] at hany hsome
      refine ⟨hnested.mono hany, fun hpresent => hnested.mono (hsome ?_)⟩
      obtain ⟨d, hd⟩ := hpresent (mt List.map_eq_nil_iff.mp hne)
      obtain ⟨cell, hcell, hd⟩ := List.mem_map.mp hd
      obtain ⟨⟨d, w⟩, rfl, -⟩ := Option.map_eq_some_iff.mp hd
      exact ⟨w, List.mem_map.mpr ⟨_, hcell, rfl⟩⟩
  | row => cases hd

end Marshal

end StoredRoutine
