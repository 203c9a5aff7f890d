import Mathlib.Data.List.Sort
import Mathlib.Data.String.Basic
import StoredRoutine.Json.Access
import StoredRoutine.Proofs.Marshal.RoundTrip

/-!
# `StoredRoutine.Proofs.Marshal.Documents`: documents on their way through a script

A table cannot hold nil, and whether a table is an array is read off its keys. So a document that
goes through a script loses the nulls inside of containers; an array that has lost an item, or never
had one, comes back as an object. `Json.norm` says what is left, by recursion over the document.

* `toJson_ofJson_of_held`: what comes back of a document is what is left of it;
* `norm_norm`, `Held.norm`: nothing more is lost the second time;
* `norm_eq_self_iff`: nothing is lost at all if and only if the document is `Whole`, without nulls
  in containers and without empty arrays.

The members of an object stand in the order of their keys, which is not the order of the positions
that they may come from: `sortMembers_eq_mergeSort`.
-/

set_option autoImplicit false

namespace StoredRoutine

namespace Json

/-! ### What is left of a document -/

/-- The document of the items that an array has kept, each with its position. It is an array as long
as the positions are `1, 2, …`, and otherwise an object under the positions. -/
def ofKept (kept : List (Nat × Json)) : Json :=
  if kept.isEmpty = false ∧ kept.map (·.1) = List.range' 1 kept.length then
    .array (kept.map (·.2))
  else
    .object ((kept.map fun p => (toString p.1, p.2)).mergeSort fun a b => decide (a.1 ≤ b.1))

mutual

/-- The document without the nulls inside of its containers. -/
def norm : Json → Json
  | .array items => ofKept (keptItems 1 items)
  | .object members => .object (keptMembers members)
  | j => j

/-- The items that are not null, each with its position, counted from the given one on. -/
def keptItems : Nat → List Json → List (Nat × Json)
  | _, [] => []
  | i, .null :: rest => keptItems (i + 1) rest
  | i, j :: rest => (i, norm j) :: keptItems (i + 1) rest

/-- The members that are not null. -/
def keptMembers : List (String × Json) → List (String × Json)
  | [] => []
  | (_, .null) :: rest => keptMembers rest
  | (key, j) :: rest => (key, norm j) :: keptMembers rest

end

/-- A document as a host holds it: a whole number fits sixty-four bits with a sign and any other
number is finite, arrays are no longer than their positions can count, and each object has its keys
in order. -/
inductive Held : Json → Prop
  | null : Held .null
  | bool (b : Bool) : Held (.bool b)
  | integer {n : Int} (hlow : -2 ^ 63 ≤ n) (hup : n < 2 ^ 63) : Held (.number (.integer n))
  | float {x : Float} (hx : x.isFinite = true) : Held (.number (.float x))
  | string (s : String) : Held (.string s)
  | array {items : List Json} (hlength : items.length < 2 ^ 63) (hitems : ∀ j ∈ items, Held j) :
      Held (.array items)
  | object {members : List (String × Json)} (hsorted : members.Pairwise fun a b => a.1 < b.1)
      (hmembers : ∀ key j, (key, j) ∈ members → Held j) : Held (.object members)

/-- A document without nulls inside of containers and without empty arrays. -/
inductive Whole : Json → Prop
  | null : Whole .null
  | bool (b : Bool) : Whole (.bool b)
  | number (n : JsonNumber) : Whole (.number n)
  | string (s : String) : Whole (.string s)
  | array {items : List Json} (hne : items ≠ []) (hnull : .null ∉ items)
      (hitems : ∀ j ∈ items, Whole j) : Whole (.array items)
  | object {members : List (String × Json)} (hnull : ∀ key, (key, .null) ∉ members)
      (hmembers : ∀ key j, (key, j) ∈ members → Whole j) : Whole (.object members)

/-! ### Sorted members -/

section Sorting

variable {α : Type}

/-- A new key adds a member. -/
theorem insertMember_perm {key : String} (value : α) {members : List (String × α)}
    (hnew : key ∉ members.map (·.1)) :
    (insertMember key value members).Perm ((key, value) :: members) := by
  induction members with
  | nil => exact .refl _
  | cons m rest ih =>
    obtain ⟨k, v⟩ := m
    rw [List.map_cons, List.mem_cons, not_or] at hnew
    unfold insertMember
    rw [if_neg hnew.1]
    split
    · exact .refl _
    · exact ((ih hnew.2).cons _).trans (.swap _ _ _)

/-- Members stay in order. -/
theorem sorted_insertMember {key : String} (value : α) {members : List (String × α)}
    (hsorted : members.Pairwise fun a b => a.1 < b.1) (hnew : key ∉ members.map (·.1)) :
    (insertMember key value members).Pairwise fun a b => a.1 < b.1 := by
  induction members with
  | nil => exact List.pairwise_singleton _ _
  | cons m rest ih =>
    obtain ⟨k, v⟩ := m
    rw [List.map_cons, List.mem_cons, not_or] at hnew
    obtain ⟨hfirst, hrest⟩ := List.pairwise_cons.mp hsorted
    unfold insertMember
    rw [if_neg hnew.1]
    split
    next hlt =>
      refine List.pairwise_cons.mpr ⟨fun m hm => ?_, hsorted⟩
      rcases List.mem_cons.mp hm with rfl | hm
      · exact hlt
      · exact lt_trans hlt (hfirst m hm)
    next hge =>
      refine List.pairwise_cons.mpr ⟨fun m hm => ?_, ih hrest hnew.2⟩
      rcases List.mem_cons.mp ((insertMember_perm value hnew.2).mem_iff.mp hm) with rfl | hm
      · exact lt_of_le_of_ne (not_lt.mp hge) (Ne.symm hnew.1)
      · exact hfirst m hm

/-- Members that are entered one after the other are put in order, and none is lost. -/
theorem foldl_insertMember {members entered : List (String × α)}
    (hsorted : entered.Pairwise fun a b => a.1 < b.1)
    (hkeys : ((members ++ entered).map (·.1)).Nodup) :
    (members.foldl (fun acc m => insertMember m.1 m.2 acc) entered).Perm (members ++ entered) ∧
      (members.foldl (fun acc m => insertMember m.1 m.2 acc) entered).Pairwise
        fun a b => a.1 < b.1 := by
  induction members generalizing entered with
  | nil => exact ⟨.refl _, hsorted⟩
  | cons m rest ih =>
    have hnew : m.1 ∉ entered.map (·.1) := by
      rw [List.cons_append, List.map_cons, List.nodup_cons, List.map_append] at hkeys
      exact fun hmem => hkeys.1 (List.mem_append_right _ hmem)
    have hmove : (rest ++ insertMember m.1 m.2 entered).Perm (m :: rest ++ entered) :=
      ((insertMember_perm m.2 hnew).append_left rest).trans List.perm_middle
    obtain ⟨hall, hsorts⟩ := ih (sorted_insertMember m.2 hsorted hnew)
      ((hmove.map (·.1)).nodup_iff.mpr hkeys)
    exact ⟨hall.trans hmove, hsorts⟩

/-- There is one order of members by their keys. -/
theorem sortMembers_eq_of_perm {members sorted : List (String × α)} (hperm : sorted.Perm members)
    (hsorted : sorted.Pairwise fun a b => a.1 < b.1) : sortMembers members = sorted := by
  have hkeys : (members.map (·.1)).Nodup := by
    refine (hperm.map (·.1)).nodup_iff.mp ?_
    exact (List.pairwise_map.mpr hsorted).imp ne_of_lt
  have hentered : ((members ++ []).map Prod.fst).Nodup := by rwa [List.append_nil]
  obtain ⟨hall, hsorts⟩ := foldl_insertMember List.Pairwise.nil hentered
  rw [List.append_nil] at hall
  exact (hall.trans hperm.symm).eq_of_pairwise
    (fun a b _ _ hab hba => absurd hba (lt_asymm hab)) hsorts hsorted

/-- Sorting members with different keys puts them in order. -/
theorem sorted_mergeSort {members : List (String × α)} (hkeys : (members.map (·.1)).Nodup) :
    (members.mergeSort fun a b => decide (a.1 ≤ b.1)).Pairwise fun a b => a.1 < b.1 := by
  have hle : (members.mergeSort fun a b => decide (a.1 ≤ b.1)).Pairwise fun a b =>
      decide (a.1 ≤ b.1) = true := by
    refine List.pairwise_mergeSort (fun a b c hab hbc => ?_) (fun a b => ?_) members
    · exact decide_eq_true (le_trans (of_decide_eq_true hab) (of_decide_eq_true hbc))
    · simpa using le_total a.1 b.1
  have hne : (members.mergeSort fun a b => decide (a.1 ≤ b.1)).Pairwise fun a b => a.1 ≠ b.1 :=
    List.pairwise_map.mp (((List.mergeSort_perm members _).map Prod.fst).nodup_iff.mpr hkeys)
  exact (hle.and hne).imp fun h => lt_of_le_of_ne (of_decide_eq_true h.1) h.2

/-- Members with different keys are sorted by their keys. -/
theorem sortMembers_eq_mergeSort {members : List (String × α)} (hkeys : (members.map (·.1)).Nodup) :
    sortMembers members = members.mergeSort fun a b => decide (a.1 ≤ b.1) :=
  sortMembers_eq_of_perm (List.mergeSort_perm members _) (sorted_mergeSort hkeys)

end Sorting

/-! ### What is kept -/

/-- A property of all documents, from containers to what they contain. -/
@[elab_as_elim]
theorem inductionOn {motive : Json → Prop} (j : Json) (null : motive .null)
    (bool : ∀ b, motive (.bool b)) (number : ∀ n, motive (.number n))
    (string : ∀ s, motive (.string s))
    (array : ∀ items, (∀ j ∈ items, motive j) → motive (.array items))
    (object : ∀ members, (∀ key j, (key, j) ∈ members → motive j) → motive (.object members)) :
    motive j := by
  match j with
  | .null => exact null
  | .bool b => exact bool b
  | .number n => exact number n
  | .string s => exact string s
  | .array items =>
    exact array items fun j hj =>
      have := List.sizeOf_lt_of_mem hj
      inductionOn j null bool number string array object
  | .object members =>
    refine object members fun key j hj => ?_
    have := List.sizeOf_lt_of_mem hj
    exact inductionOn j null bool number string array object
termination_by sizeOf j
decreasing_by
  all_goals simp_all
  all_goals omega

theorem norm_eq_null_iff {j : Json} : j.norm = .null ↔ j = .null := by
  cases j with
  | array items =>
    simp only [norm, ofKept, reduceCtorEq, iff_false]
    split <;> exact fun h => nomatch h
  | _ => simp [norm]

theorem keptItems_cons {i : Nat} {j : Json} (hj : j ≠ .null) (rest : List Json) :
    keptItems i (j :: rest) = (i, norm j) :: keptItems (i + 1) rest := by
  cases j with
  | null => exact absurd rfl hj
  | _ => rfl

theorem keptMembers_cons (key : String) {j : Json} (hj : j ≠ .null) (rest : List (String × Json)) :
    keptMembers ((key, j) :: rest) = (key, norm j) :: keptMembers rest := by
  cases j with
  | null => exact absurd rfl hj
  | _ => rfl

/-- What is kept of items comes from one that is not null. -/
theorem of_mem_keptItems {i : Nat} {items : List Json} {p : Nat × Json}
    (h : p ∈ keptItems i items) :
    i ≤ p.1 ∧ p.1 < i + items.length ∧ ∃ j ∈ items, j ≠ .null ∧ p.2 = j.norm := by
  induction items generalizing i with
  | nil => exact absurd h List.not_mem_nil
  | cons j rest ih =>
    have hlater : p ∈ keptItems (i + 1) rest →
        i ≤ p.1 ∧ p.1 < i + (j :: rest).length ∧ ∃ j' ∈ j :: rest, j' ≠ .null ∧ p.2 = j'.norm := by
      intro h
      obtain ⟨hfrom, hto, j', hj', hnorm⟩ := ih h
      rw [List.length_cons]
      exact ⟨by omega, by omega, j', List.mem_cons_of_mem j hj', hnorm⟩
    by_cases hj : j = .null
    · subst hj
      exact hlater h
    · rw [keptItems_cons hj] at h
      rcases List.mem_cons.mp h with rfl | h
      · rw [List.length_cons]
        exact ⟨Nat.le_refl i, by omega, j, List.mem_cons_self, hj, rfl⟩
      · exact hlater h

theorem of_mem_keptMembers {members : List (String × Json)} {key : String} {k : Json}
    (h : (key, k) ∈ keptMembers members) : ∃ j, (key, j) ∈ members ∧ j ≠ .null ∧ k = j.norm := by
  induction members with
  | nil => exact absurd h List.not_mem_nil
  | cons m rest ih =>
    obtain ⟨key', j⟩ := m
    have hlater : (key, k) ∈ keptMembers rest →
        ∃ j', (key, j') ∈ (key', j) :: rest ∧ j' ≠ .null ∧ k = j'.norm := by
      intro h
      obtain ⟨j', hj', hnorm⟩ := ih h
      exact ⟨j', List.mem_cons_of_mem _ hj', hnorm⟩
    by_cases hj : j = .null
    · subst hj
      exact hlater h
    · rw [keptMembers_cons key' hj] at h
      rcases List.mem_cons.mp h with heq | h
      · obtain ⟨rfl, rfl⟩ := Prod.mk.inj heq
        exact ⟨j, List.mem_cons_self, hj, rfl⟩
      · exact hlater h

/-- Positions stay in order. -/
theorem sorted_keptItems (i : Nat) (items : List Json) :
    ((keptItems i items).map (·.1)).Pairwise (· < ·) := by
  induction items generalizing i with
  | nil => exact List.Pairwise.nil
  | cons j rest ih =>
    by_cases hj : j = .null
    · subst hj
      exact ih (i + 1)
    · rw [keptItems_cons hj, List.map_cons, List.pairwise_cons]
      refine ⟨fun n hn => ?_, ih (i + 1)⟩
      obtain ⟨p, hp, rfl⟩ := List.mem_map.mp hn
      exact (of_mem_keptItems hp).1

/-- Keys stay in order. -/
theorem keptMembers_sublist (members : List (String × Json)) :
    ((keptMembers members).map (·.1)).Sublist (members.map (·.1)) := by
  induction members with
  | nil => exact .slnil
  | cons m rest ih =>
    obtain ⟨key, j⟩ := m
    by_cases hj : j = .null
    · subst hj
      exact ih.cons key
    · rw [keptMembers_cons key hj]
      exact ih.cons_cons key

theorem length_keptItems_le (i : Nat) (items : List Json) :
    (keptItems i items).length ≤ items.length := by
  induction items generalizing i with
  | nil => exact Nat.le_refl 0
  | cons j rest ih =>
    by_cases hj : j = .null
    · subst hj
      exact Nat.le_succ_of_le (ih (i + 1))
    · rw [keptItems_cons hj]
      exact Nat.succ_le_succ (ih (i + 1))

/-- No item is lost if none is null. -/
theorem length_keptItems_eq_iff {i : Nat} {items : List Json} :
    (keptItems i items).length = items.length ↔ .null ∉ items := by
  induction items generalizing i with
  | nil => simp [keptItems]
  | cons j rest ih =>
    by_cases hj : j = .null
    · subst hj
      have hle := length_keptItems_le (i + 1) rest
      simp only [keptItems, List.length_cons, List.mem_cons, true_or, not_true_eq_false, iff_false]
      omega
    · rw [keptItems_cons hj, List.mem_cons, not_or, ← ih (i := i + 1)]
      simp [Ne.symm hj]

/-- Without nulls the items stay where they are. -/
theorem keptItems_of_not_mem (i : Nat) {items : List Json} (h : .null ∉ items) :
    keptItems i items = (List.range' i items.length).zip (items.map norm) := by
  induction items generalizing i with
  | nil => rfl
  | cons j rest ih =>
    rw [List.mem_cons, not_or] at h
    rw [keptItems_cons (Ne.symm h.1), ih (i + 1) h.2]
    rfl

theorem keptMembers_of_not_mem {members : List (String × Json)}
    (h : ∀ key, (key, .null) ∉ members) :
    keptMembers members = members.map fun m => (m.1, m.2.norm) := by
  induction members with
  | nil => rfl
  | cons m rest ih =>
    obtain ⟨key, j⟩ := m
    have hj : j ≠ .null := by
      rintro rfl
      exact h key List.mem_cons_self
    rw [keptMembers_cons key hj, ih fun key hmem => h key (List.mem_cons_of_mem _ hmem)]
    rfl

/-! ### Nothing more is lost -/

/-- A list is left alone by a function that leaves its members alone. -/
theorem map_eq_self_iff {α : Type} {f : α → α} {l : List α} :
    l.map f = l ↔ ∀ a ∈ l, f a = a := by
  rw [← List.map_inj_left, List.map_id' l]

/-- An array without nulls is kept, item by item. -/
theorem norm_array_of_not_mem {items : List Json} (hne : items ≠ []) (h : .null ∉ items) :
    norm (.array items) = .array (items.map norm) := by
  have hlength : (List.range' 1 items.length).length = (items.map norm).length := by simp
  unfold norm
  rw [keptItems_of_not_mem 1 h]
  unfold ofKept
  rw [if_pos]
  · rw [List.map_snd_zip (Nat.le_of_eq hlength.symm)]
  · rw [List.map_fst_zip (Nat.le_of_eq hlength), List.length_zip]
    simp [hne]

theorem norm_object_of_not_mem {members : List (String × Json)}
    (h : ∀ key, (key, .null) ∉ members) :
    norm (.object members) = .object (members.map fun m => (m.1, m.2.norm)) :=
  congrArg Json.object (keptMembers_of_not_mem h)

/-- What is left of the items of an array is left for good. -/
theorem norm_ofKept {kept : List (Nat × Json)} (hnull : ∀ p ∈ kept, p.2 ≠ .null)
    (hnorm : ∀ p ∈ kept, p.2.norm = p.2) : norm (ofKept kept) = ofKept kept := by
  unfold ofKept
  split
  next hall =>
    have hne : kept.map (·.2) ≠ [] := by
      intro hnil
      rw [List.map_eq_nil_iff] at hnil
      rw [hnil] at hall
      exact nomatch hall.1
    have hnull' : .null ∉ kept.map (·.2) := by
      intro hmem
      obtain ⟨p, hp, heq⟩ := List.mem_map.mp hmem
      exact hnull p hp heq
    rw [norm_array_of_not_mem hne hnull', map_eq_self_iff.mpr]
    intro j hj
    obtain ⟨p, hp, rfl⟩ := List.mem_map.mp hj
    exact hnorm p hp
  next =>
    have hmem : ∀ m ∈ (kept.map fun p => (toString p.1, p.2)).mergeSort
        fun a b => decide (a.1 ≤ b.1), m.2 ≠ .null ∧ m.2.norm = m.2 := by
      intro m hm
      obtain ⟨p, hp, rfl⟩ := List.mem_map.mp ((List.mergeSort_perm _ _).mem_iff.mp hm)
      exact ⟨hnull p hp, hnorm p hp⟩
    rw [norm_object_of_not_mem fun key hnil => (hmem _ hnil).1 rfl, map_eq_self_iff.mpr]
    exact fun m hm => Prod.ext rfl (hmem m hm).2

/-- A second time, nothing more is lost. -/
theorem norm_norm (j : Json) : j.norm.norm = j.norm := by
  induction j using inductionOn with
  | null | bool _ | number _ | string _ => rfl
  | array items ih =>
    have hnorm : ∀ p ∈ keptItems 1 items, p.2 ≠ .null ∧ p.2.norm = p.2 := by
      intro p hp
      obtain ⟨-, -, j, hj, hne, heq⟩ := of_mem_keptItems hp
      rw [heq]
      exact ⟨fun hnil => hne (norm_eq_null_iff.mp hnil), ih j hj⟩
    exact norm_ofKept (fun p hp => (hnorm p hp).1) fun p hp => (hnorm p hp).2
  | object members ih =>
    have hnorm : ∀ m ∈ keptMembers members, m.2 ≠ .null ∧ m.2.norm = m.2 := by
      intro m hm
      obtain ⟨j, hj, hne, heq⟩ := of_mem_keptMembers hm
      rw [heq]
      exact ⟨fun hnil => hne (norm_eq_null_iff.mp hnil), ih _ j hj⟩
    show norm (.object (keptMembers members)) = .object (keptMembers members)
    rw [norm_object_of_not_mem fun key hnil => (hnorm _ hnil).1 rfl, map_eq_self_iff.mpr]
    exact fun m hm => Prod.ext rfl (hnorm m hm).2

/-- Nothing is lost of the documents without nulls in containers and without empty arrays, and
something of all others. -/
theorem norm_eq_self_iff {j : Json} : j.norm = j ↔ j.Whole := by
  induction j using inductionOn with
  | null => exact ⟨fun _ => .null, fun _ => rfl⟩
  | bool b => exact ⟨fun _ => .bool b, fun _ => rfl⟩
  | number n => exact ⟨fun _ => .number n, fun _ => rfl⟩
  | string s => exact ⟨fun _ => .string s, fun _ => rfl⟩
  | array items ih =>
    constructor
    · intro h
      have hkept : ofKept (keptItems 1 items) = .array items := h
      unfold ofKept at hkept
      split at hkept
      next hall =>
        have hitems : (keptItems 1 items).map (·.2) = items := Json.array.inj hkept
        -- as many items are left as there were, so none was null
        have hlength := congrArg List.length hitems
        rw [List.length_map] at hlength
        have hnull := length_keptItems_eq_iff.mp hlength
        have hne : items ≠ [] := by
          rintro rfl
          exact nomatch hall.1
        rw [norm_array_of_not_mem hne hnull] at h
        refine .array hne hnull fun j hj => (ih j hj).mp ?_
        exact map_eq_self_iff.mp (Json.array.inj h) j hj
      next => exact nomatch hkept
    · rintro (_ | _ | _ | _ | ⟨hne, hnull, hitems⟩)
      rw [norm_array_of_not_mem hne hnull, map_eq_self_iff.mpr]
      exact fun j hj => (ih j hj).mpr (hitems j hj)
  | object members ih =>
    constructor
    · intro h
      have hkept : keptMembers members = members := Json.object.inj h
      have hnull : ∀ key, (key, .null) ∉ members := by
        intro key hmem
        rw [← hkept] at hmem
        obtain ⟨j, -, hne, heq⟩ := of_mem_keptMembers hmem
        exact hne (norm_eq_null_iff.mp heq.symm)
      rw [norm_object_of_not_mem hnull] at h
      refine .object hnull fun key j hj => (ih key j hj).mp ?_
      exact congrArg Prod.snd (map_eq_self_iff.mp (Json.object.inj h) (key, j) hj)
    · rintro (_ | _ | _ | _ | _ | ⟨hnull, hmembers⟩)
      rw [norm_object_of_not_mem hnull, map_eq_self_iff.mpr]
      exact fun m hm => Prod.ext rfl ((ih m.1 m.2 hm).mpr (hmembers m.1 m.2 hm))

/-! ### There and back -/

/-- Numbers have different decimal forms. -/
theorem toString_injective : Function.Injective fun n : Nat => toString n := by
  intro m n h
  have hdigits : Nat.toDigits 10 m = Nat.toDigits 10 n := by
    rw [← Nat.toList_repr, ← Nat.toList_repr]
    exact congrArg String.toList h
  rw [← Nat.ofDigitChars_ten_toDigits (n := m), hdigits, Nat.ofDigitChars_ten_toDigits]

/-- The positions of an array, as the keys of an object. -/
theorem nodup_positions (i : Nat) (items : List Json) :
    (((keptItems i items).map fun p => (toString p.1, p.2)).map Prod.fst).Nodup := by
  have hpositions : ((keptItems i items).map (·.1)).Nodup := (sorted_keptItems i items).imp ne_of_lt
  rw [List.map_map]
  show ((keptItems i items).map ((fun n : Nat => toString n) ∘ (·.1))).Nodup
  rw [← List.map_map]
  exact hpositions.map toString_injective

/-- What is left of a document is one that a host can hold. -/
theorem Held.norm {j : Json} (h : Held j) : Held j.norm := by
  induction h with
  | null => exact .null
  | bool b => exact .bool b
  | integer hlow hup => exact .integer hlow hup
  | float hx => exact .float hx
  | string s => exact .string s
  | @array items hlength _ ih =>
    have hkept : ∀ p ∈ keptItems 1 items, Held p.2 := by
      intro p hp
      obtain ⟨-, -, j, hj, -, heq⟩ := of_mem_keptItems hp
      exact heq ▸ ih j hj
    show Held (ofKept (keptItems 1 items))
    unfold ofKept
    -- what is left is an array again, or an object with the positions for keys
    split
    next =>
      refine .array ?_ fun j hj => ?_
      · rw [List.length_map]
        exact lt_of_le_of_lt (length_keptItems_le 1 items) hlength
      · obtain ⟨p, hp, rfl⟩ := List.mem_map.mp hj
        exact hkept p hp
    next =>
      refine .object (sorted_mergeSort (nodup_positions 1 items)) fun key j hj => ?_
      obtain ⟨p, hp, heq⟩ := List.mem_map.mp ((List.mergeSort_perm _ _).mem_iff.mp hj)
      obtain ⟨-, rfl⟩ := Prod.mk.inj heq
      exact hkept p hp
  | @object members hsorted _ ih =>
    refine .object ?_ fun key j hj => ?_
    · have hkeys : (members.map (·.1)).Pairwise (· < ·) := List.pairwise_map.mpr hsorted
      exact List.pairwise_map.mp (hkeys.sublist (keptMembers_sublist members))
    · obtain ⟨j', hj', -, heq⟩ := of_mem_keptMembers hj
      exact heq ▸ ih key j' hj'

end Json

open Json (Held keptItems keptMembers keptItems_cons keptMembers_cons)

/-- The key of a position. -/
def ScriptKey.ofPosition (n : Nat) : ScriptKey := .int (Int64.ofNat n)

/-- Positions up to the greatest one have different keys. -/
theorem ScriptKey.ofPosition_inj {m n : Nat} (hm : m < 2 ^ 63) (hn : n < 2 ^ 63)
    (h : ofPosition m = ofPosition n) : m = n := by
  have hkey := congrArg Int64.toInt (ScriptKey.int.inj h)
  rw [Int64.toInt_ofNat_of_lt hm, Int64.toInt_ofNat_of_lt hn] at hkey
  exact Int.ofNat.inj hkey

/-- The text of a position is its decimal form. -/
theorem ScriptKey.display_ofPosition {n : Nat} (hn : n < 2 ^ 63) :
    (ofPosition n).display = toString n := by
  show toString (Int64.ofNat n).toInt = toString n
  rw [Int64.toInt_ofNat_of_lt hn]
  rfl

namespace ScriptTable

theorem ofItems_cons (i : Nat) {j : Json} (hj : j ≠ .null) (rest : List Json) :
    ofItems (Int64.ofNat i) (j :: rest) =
      (.ofPosition i, ScriptValue.ofJson j) :: ofItems (Int64.ofNat (i + 1)) rest := by
  rw [Int64.ofNat_add]
  cases j with
  | null => exact absurd rfl hj
  | _ => rfl

theorem ofItems_null (i : Nat) (rest : List Json) :
    ofItems (Int64.ofNat i) (.null :: rest) = ofItems (Int64.ofNat (i + 1)) rest := by
  rw [Int64.ofNat_add]
  rfl

theorem ofMembers_cons (key : String) {j : Json} (hj : j ≠ .null) (rest : List (String × Json)) :
    ofMembers ((key, j) :: rest) = (.text key, ScriptValue.ofJson j) :: ofMembers rest := by
  cases j with
  | null => exact absurd rfl hj
  | _ => rfl

/-- The document of an entry comes in front of those of the others. -/
theorem toMembers_cons {key : ScriptKey} {v : ScriptValue} {rest : ScriptTable} {j : Json}
    {members : List (String × Json)} (hv : v.toJson = .ok j)
    (hrest : toMembers rest = .ok members) :
    toMembers ((key, v) :: rest) = .ok ((key.display, j) :: members) := by
  unfold toMembers
  rw [hv, hrest]
  rfl

/-- The table of an array has the items that are kept, under their positions. -/
theorem keys_ofItems (i : Nat) (items : List Json) :
    (ofItems (Int64.ofNat i) items).map (·.1) =
      ((keptItems i items).map (·.1)).map ScriptKey.ofPosition := by
  induction items generalizing i with
  | nil => rfl
  | cons j rest ih =>
    by_cases hj : j = .null
    · subst hj
      rw [ofItems_null]
      exact ih (i + 1)
    · rw [ofItems_cons i hj, keptItems_cons hj]
      exact congrArg _ (ih (i + 1))

/-- The documents of the entries of an array are what is kept of its items. -/
theorem toMembers_ofItems {i : Nat} {items : List Json} (hlength : i + items.length ≤ 2 ^ 63)
    (hitems : ∀ j ∈ items, (ScriptValue.ofJson j).toJson = .ok j.norm) :
    toMembers (ofItems (Int64.ofNat i) items) =
      .ok ((keptItems i items).map fun p => (toString p.1, p.2)) := by
  induction items generalizing i with
  | nil => rfl
  | cons j rest ih =>
    rw [List.length_cons] at hlength
    have hrest := ih (i := i + 1) (by omega) fun j hj => hitems j (List.mem_cons_of_mem _ hj)
    by_cases hj : j = .null
    · subst hj
      rw [ofItems_null]
      exact hrest
    · rw [ofItems_cons i hj, keptItems_cons hj, toMembers_cons (hitems j List.mem_cons_self) hrest,
        ScriptKey.display_ofPosition (by omega)]
      rfl

/-- The documents of the entries of an object are what is kept of its members. -/
theorem toMembers_ofMembers {members : List (String × Json)}
    (hmembers : ∀ key j, (key, j) ∈ members → (ScriptValue.ofJson j).toJson = .ok j.norm) :
    toMembers (ofMembers members) = .ok (keptMembers members) := by
  induction members with
  | nil => rfl
  | cons m rest ih =>
    obtain ⟨key, j⟩ := m
    have hrest := ih fun key j hj => hmembers key j (List.mem_cons_of_mem _ hj)
    by_cases hj : j = .null
    · subst hj
      exact hrest
    · rw [ofMembers_cons key hj, keptMembers_cons key hj,
        toMembers_cons (hmembers key j List.mem_cons_self) hrest]
      rfl

/-- Keys that are counted, from some position on. -/
theorem all_zipIdx_iff {i : Nat} {entries : ScriptTable} :
    ((entries.zipIdx i).all fun e => decide (e.1.1 = .int (Int64.ofNat (e.2 + 1)))) = true ↔
      entries.map (·.1) = (List.range' (i + 1) entries.length).map ScriptKey.ofPosition := by
  induction entries generalizing i with
  | nil => exact ⟨fun _ => rfl, fun _ => rfl⟩
  | cons e rest ih =>
    rw [List.zipIdx_cons, List.all_cons, Bool.and_eq_true, ih, decide_eq_true_eq, List.length_cons,
      List.range'_succ, List.map_cons, List.map_cons, List.cons.injEq]
    rfl

/-- The keys of positions are those of the first ones only for these positions. -/
theorem map_ofPosition_iff {positions : List Nat} (hlength : positions.length < 2 ^ 63)
    (hsmall : ∀ n ∈ positions, n < 2 ^ 63) :
    positions.map ScriptKey.ofPosition =
        (List.range' 1 positions.length).map ScriptKey.ofPosition ↔
      positions = List.range' 1 positions.length := by
  refine ⟨fun h => List.ext_getElem (by simp) fun n hn hn' => ?_, fun h => congrArg _ h⟩
  have hkey := congrArg (fun keys : List ScriptKey => keys[n]?) h
  simp only [List.getElem?_map, List.getElem?_eq_getElem hn, List.getElem?_eq_getElem hn',
    Option.map_some, Option.some.injEq] at hkey
  refine ScriptKey.ofPosition_inj (hsmall _ (List.getElem_mem hn)) ?_ hkey
  rw [List.getElem_range']
  omega

/-- The table of an array is one if no position is missing. -/
theorem isSequence_ofItems {items : List Json} (hlength : items.length < 2 ^ 63) :
    isSequence (ofItems 1 items) = true ↔ (keptItems 1 items).isEmpty = false ∧
      (keptItems 1 items).map (·.1) = List.range' 1 (keptItems 1 items).length := by
  have hkeys : (ofItems 1 items).map (·.1) = _ := keys_ofItems 1 items
  have hcount : (ofItems 1 items).length = (keptItems 1 items).length := by
    simpa only [List.length_map] using congrArg List.length hkeys
  have hempty : (ofItems 1 items).isEmpty = (keptItems 1 items).isEmpty := by
    rw [Bool.eq_iff_iff, List.isEmpty_iff_length_eq_zero, hcount, List.isEmpty_iff_length_eq_zero]
  have hle := Json.length_keptItems_le 1 items
  have hpositions : ∀ n ∈ (keptItems 1 items).map (·.1), n < 2 ^ 63 := by
    intro n hn
    obtain ⟨p, hp, rfl⟩ := List.mem_map.mp hn
    have hup := (Json.of_mem_keptItems hp).2.1
    omega
  have hfirst := map_ofPosition_iff (by rw [List.length_map]; omega) hpositions
  rw [List.length_map] at hfirst
  unfold isSequence
  rw [Bool.and_eq_true, all_zipIdx_iff, Bool.not_eq_true', hempty, hcount, hkeys]
  exact and_congr_right fun _ => hfirst

/-- The table of an object is no array. -/
theorem isSequence_ofMembers (members : List (String × Json)) :
    isSequence (ofMembers members) = false := by
  induction members with
  | nil => rfl
  | cons m rest ih =>
    obtain ⟨key, j⟩ := m
    by_cases hj : j = .null
    · subst hj
      exact ih
    · rw [ofMembers_cons key hj]
      rfl

end ScriptTable

/-- What comes back of a document is what is left of it. -/
theorem toJson_ofJson_of_held {j : Json} (h : Held j) :
    (ScriptValue.ofJson j).toJson = .ok j.norm := by
  induction h with
  | null => rfl
  | bool b => rfl
  | @integer n hlow hup =>
    have hback := Int64.toInt_ofInt_of_le hlow hup
    simp only [ScriptValue.ofJson, ScriptValue.ofJsonNumber, if_pos hup, ScriptValue.toJson, hback]
    rfl
  | float hx =>
    simp only [ScriptValue.ofJson, ScriptValue.ofJsonNumber, ScriptValue.toJson, if_pos hx]
    rfl
  | string s =>
    have htext : String.fromUTF8? s.toUTF8 = some s := ScriptValue.text?_ofText s
    simp only [ScriptValue.ofJson, ScriptValue.ofText, ScriptValue.toJson, htext]
    rfl
  | @array items hlength _ ih =>
    have hmembers := ScriptTable.toMembers_ofItems (i := 1) (by omega) ih
    have hsequence := ScriptTable.isSequence_ofItems hlength
    have hsorted := Json.sortMembers_eq_mergeSort (Json.nodup_positions 1 items)
    show (ScriptTable.toMembers (ScriptTable.ofItems (Int64.ofNat 1) items)).map _ = _
    rw [hmembers]
    refine congrArg Except.ok ?_
    unfold Json.norm Json.ofKept
    beta_reduce
    -- a table is read as an array if its keys are the numbers from one on
    by_cases hall : (keptItems 1 items).isEmpty = false ∧
        (keptItems 1 items).map (·.1) = List.range' 1 (keptItems 1 items).length
    · rw [if_pos hall, if_pos (hsequence.mpr hall), List.map_map]
      rfl
    · rw [if_neg hall, if_neg (fun h => hall (hsequence.mp h)), hsorted]
  | @object members hsorted _ ih =>
    have hkeys : (keptMembers members).Pairwise fun a b => a.1 < b.1 :=
      List.pairwise_map.mp
        ((List.pairwise_map.mpr hsorted).sublist (Json.keptMembers_sublist members))
    show (ScriptTable.toMembers (ScriptTable.ofMembers members)).map _ = _
    rw [ScriptTable.toMembers_ofMembers ih, ScriptTable.isSequence_ofMembers]
    exact congrArg (fun sorted => Except.ok (Json.object sorted))
      (Json.sortMembers_eq_of_perm (.refl _) hkeys)

/-- A document comes back from a script without the nulls inside of its containers; an array that
has no item left, or has lost one in front of another, comes back as an object. On a second way
through a script nothing more is lost, and nothing is lost at all if and only if the document has
neither nulls in containers nor empty arrays. -/
theorem toJson_ofJson {j : Json} (h : Held j) :
    (ScriptValue.ofJson j).toJson = .ok j.norm ∧
      j.norm.norm = j.norm ∧
      (ScriptValue.ofJson j.norm).toJson = .ok j.norm ∧
      (j.norm = j ↔ j.Whole) := by
  have hagain := toJson_ofJson_of_held h.norm
  rw [Json.norm_norm] at hagain
  exact ⟨toJson_ofJson_of_held h, Json.norm_norm j, hagain, Json.norm_eq_self_iff⟩

/-- A document with a hole in an array of eleven items, a null at the end of another one, and an
array of nothing but nulls. -/
def holes : Json :=
  .object [("days", .array ((List.range 11).map fun n : Nat =>
      if n = 3 then .null else .number (.integer n))),
    ("gone", .null), ("pair", .array [.bool true, .null]), ("void", .array [.null])]

theorem held_holes : Held holes := by
  refine .object (by decide) fun key j hj => ?_
  simp only [List.mem_cons, Prod.mk.injEq, List.not_mem_nil, or_false] at hj
  obtain ⟨-, rfl⟩ | ⟨-, rfl⟩ | ⟨-, rfl⟩ | ⟨-, rfl⟩ := hj
  · refine .array (by simp) fun j hj => ?_
    obtain ⟨n, hn, rfl⟩ := List.mem_map.mp hj
    rw [List.mem_range] at hn
    split
    · exact .null
    · exact .integer (by omega) (by omega)
  · exact .null
  · refine .array (by simp) fun j hj => ?_
    simp only [List.mem_cons, List.not_mem_nil, or_false] at hj
    rcases hj with rfl | rfl
    · exact .bool true
    · exact .null
  · refine .array (by simp) fun j hj => ?_
    rw [List.mem_singleton.mp hj]
    exact .null

/-- The array with the hole becomes an object, whose keys are ordered as texts. -/
theorem toJson_ofJson_holes :
    (ScriptValue.ofJson holes).toJson = .ok holes.norm ∧
      (ScriptValue.ofJson holes).toJson = .ok (.object
        [("days", .object [("1", .number (.integer 0)), ("10", .number (.integer 9)),
          ("11", .number (.integer 10)), ("2", .number (.integer 1)), ("3", .number (.integer 2)),
          ("5", .number (.integer 4)), ("6", .number (.integer 5)), ("7", .number (.integer 6)),
          ("8", .number (.integer 7)), ("9", .number (.integer 8))]),
        ("pair", .array [.bool true]), ("void", .object [])]) :=
  ⟨(toJson_ofJson held_holes).1, rfl⟩

end StoredRoutine
