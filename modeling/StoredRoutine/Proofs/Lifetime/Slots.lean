import StoredRoutine.Lifetime.Slots
import Mathlib.Data.List.Nodup

/-!
# `StoredRoutine.Proofs.Lifetime.Slots`: what an identifier finds

`Slots.Exact` says that the free list is exactly the list of empty slots, each once. Under it every
operation has one equation for `find?`:

* `find?_insert`: the new identifier finds the new value, and no other identifier is affected. The
  new identifier found nothing before (`find?_insert_fresh`), whatever was stored in the slot in
  former generations.
* `find?_modify`, `find?_erase`: the same for a change and for a removal.

`countOf` counts the stored values with a property, and each operation moves that count by what it
stores and takes away.

Nothing here depends on how often a slot was used: the generation is compared with that of the slot
as it is now, so the laws hold also when the generations of a slot have wrapped around.
-/

set_option autoImplicit false

namespace StoredRoutine.Slots

variable {α : Type}

/-- The free list is exact: it names the empty slots, each of them once. -/
structure Exact (s : Slots α) : Prop where
  nodup : s.free.Nodup
  mem_free : ∀ i, i ∈ s.free ↔ ∃ g, s.slots[i]? = some ⟨g, none⟩

/-- An identifier finds a value exactly if its slot holds the value at its generation. -/
theorem find?_eq_some_iff {s : Slots α} {id : SlotId} {v : α} :
    s.find? id = some v ↔ s.slots[id.index]? = some ⟨id.generation, some v⟩ := by
  unfold find? slot?
  cases hslot : s.slots[id.index]? with
  | none => simp
  | some slot =>
    obtain ⟨g, content⟩ := slot
    by_cases hg : g = id.generation
    · subst hg
      simp [Option.filter]
    · simp [Option.filter, hg]

/-- Two identifiers that find something in one slot are equal. -/
theorem eq_of_find?_of_index {s : Slots α} {a b : SlotId} {v w : α} (ha : s.find? a = some v)
    (hb : s.find? b = some w) (hi : a.index = b.index) : a = b := by
  rw [find?_eq_some_iff] at ha hb
  rw [hi, hb] at ha
  obtain ⟨ai, ag⟩ := a
  obtain ⟨bi, bg⟩ := b
  simp only [Option.some.injEq, Slot.mk.injEq] at ha hi
  rw [hi, ha.1]

/-- Slots that agree at the place of an identifier agree on what it finds. -/
theorem find?_congr {s t : Slots α} {id : SlotId} (h : s.slots[id.index]? = t.slots[id.index]?) :
    s.find? id = t.find? id := by
  unfold find? slot?
  rw [h]

/-- A slot holds its value under one identifier. So if one slot is written to, in which no other
identifier has found anything, then only this identifier is affected. -/
theorem find?_written {s t : Slots α} {id : SlotId} {v : α}
    (hself : t.slots[id.index]? = some ⟨id.generation, some v⟩)
    (hrest : ∀ i, i ≠ id.index → t.slots[i]? = s.slots[i]?)
    (hold : ∀ other, other.index = id.index → other ≠ id → s.find? other = none)
    (other : SlotId) : t.find? other = if other = id then some v else s.find? other := by
  have hfound := find?_eq_some_iff.mpr hself
  split
  next heq => rw [heq, hfound]
  next hne =>
    by_cases hi : other.index = id.index
    · rw [hold other hi hne, Option.eq_none_iff_forall_ne_some]
      exact fun w hw => hne (eq_of_find?_of_index hw hfound hi)
    · exact find?_congr (hrest _ hi)

/-! ### The empty store -/

/-- There is nothing to find in a store that was never used. -/
theorem find?_empty (id : SlotId) : ({} : Slots α).find? id = none := by
  simp [find?, slot?]

/-- A store that was never used has neither slots nor a free list. -/
theorem exact_empty : ({} : Slots α).Exact where
  nodup := List.nodup_nil
  mem_free := by simp

/-! ### Insertion -/

/-- With a free slot, a value goes to the one that was emptied last. -/
theorem insert_cons {s : Slots α} (h : s.Exact) {i : Nat} {free : List Nat}
    (hf : s.free = i :: free) (v : α) :
    ∃ g, s.slots[i]? = some ⟨g, none⟩ ∧
      s.insert v = (⟨i, g⟩, { slots := s.slots.set i ⟨g, some v⟩, free }) := by
  obtain ⟨g, hg⟩ := (h.mem_free i).mp (by rw [hf]; exact List.mem_cons_self)
  refine ⟨g, hg, ?_⟩
  unfold insert
  rw [hf]
  simp [hg]

/-- Without a free slot, a value goes to a new one. -/
theorem insert_nil {s : Slots α} (hf : s.free = []) (v : α) :
    s.insert v = (⟨s.slots.length, 0⟩, { s with slots := s.slots ++ [⟨0, some v⟩] }) := by
  unfold insert
  rw [hf]

/-- An identifier that is given out found nothing before. -/
theorem find?_insert_fresh {s : Slots α} (h : s.Exact) (v : α) :
    s.find? (s.insert v).1 = none := by
  rw [Option.eq_none_iff_forall_ne_some]
  intro w hw
  rw [find?_eq_some_iff] at hw
  cases hf : s.free with
  | nil =>
    rw [insert_nil hf] at hw
    simp at hw
  | cons i free =>
    obtain ⟨g, hg, heq⟩ := insert_cons h hf v
    rw [heq] at hw
    rw [hg] at hw
    simp at hw

/-- After an insertion the new identifier finds the value, and every other one what it found
before. -/
theorem find?_insert {s : Slots α} (h : s.Exact) (v : α) (id : SlotId) :
    (s.insert v).2.find? id = if id = (s.insert v).1 then some v else s.find? id := by
  cases hf : s.free with
  | nil =>
    rw [insert_nil hf]
    refine find?_written (by simp) (fun i hi => ?_) (fun other hother _ => ?_) id
    · rcases Nat.lt_or_gt_of_ne hi with hlt | hgt
      · rw [List.getElem?_append_left hlt]
      · rw [List.getElem?_eq_none (by rw [List.length_append]; exact hgt),
          List.getElem?_eq_none (Nat.le_of_lt hgt)]
    · simp [find?, slot?, hother]
  | cons i free =>
    obtain ⟨g, hg, heq⟩ := insert_cons h hf v
    have hlt : i < s.slots.length := (List.getElem?_eq_some_iff.mp hg).1
    rw [heq]
    refine find?_written (by simp [hlt]) (fun j hj => ?_) (fun other hother _ => ?_) id
    · rw [List.getElem?_set_ne (Ne.symm hj)]
    · -- the slot was on the free list, so it was empty
      have hempty : s.slots[other.index]? = some ⟨g, none⟩ := hother ▸ hg
      simp [find?, slot?, hempty, Option.filter]

/-- An insertion takes the slot that it uses from the free list. -/
theorem Exact.insert {s : Slots α} (h : s.Exact) (v : α) : (s.insert v).2.Exact := by
  cases hf : s.free with
  | nil =>
    rw [insert_nil hf]
    refine ⟨h.nodup, fun i => ?_⟩
    rw [show ({ s with slots := s.slots ++ [⟨0, some v⟩] } : Slots α).free = s.free from rfl,
      h.mem_free]
    simp only [List.getElem?_append]
    -- below the end the slots are the same, and the one at the end is full
    split
    · rfl
    · rename_i hlt
      constructor
      · rintro ⟨g, hg⟩
        rw [List.getElem?_eq_none (by omega)] at hg
        exact nomatch hg
      · rintro ⟨g, hg⟩
        rw [List.getElem?_singleton] at hg
        split at hg <;> simp at hg
  | cons i free =>
    obtain ⟨g, hg, heq⟩ := insert_cons h hf v
    have hlt : i < s.slots.length := by
      rw [List.getElem?_eq_some_iff] at hg
      exact hg.1
    have hnodup := h.nodup
    rw [hf, List.nodup_cons] at hnodup
    rw [heq]
    refine ⟨hnodup.2, fun j => ?_⟩
    by_cases hj : j = i
    · subst hj
      simp [List.getElem?_set_self hlt, hnodup.1]
    · have hmem := h.mem_free j
      rw [hf, List.mem_cons] at hmem
      simp only [List.getElem?_set_ne (Ne.symm hj), ← hmem]
      simp [hj]

/-! ### Changes -/

/-- A change writes to the slot of the identifier that was given. -/
theorem modify_of_find? {s : Slots α} {id : SlotId} {v : α} (hv : s.find? id = some v) (f : α → α) :
    s.modify id f = ⟨s.slots.set id.index ⟨id.generation, some (f v)⟩, s.free⟩ := by
  unfold modify
  rw [hv]

/-- A change through an identifier that finds nothing is no change. -/
theorem modify_of_find?_none {s : Slots α} {id : SlotId} (hv : s.find? id = none) (f : α → α) :
    s.modify id f = s := by
  unfold modify
  rw [hv]

/-- A change is seen through the identifier that was changed and through no other one. -/
theorem find?_modify (s : Slots α) (id other : SlotId) (f : α → α) :
    (s.modify id f).find? other = if other = id then (s.find? id).map f else s.find? other := by
  cases hv : s.find? id with
  | none =>
    rw [modify_of_find?_none hv]
    split
    · rename_i heq
      rw [heq, hv]
      rfl
    · rfl
  | some v =>
    have hslot := find?_eq_some_iff.mp hv
    have hlt : id.index < s.slots.length := (List.getElem?_eq_some_iff.mp hslot).1
    rw [modify_of_find? hv, Option.map_some]
    refine find?_written (by simp [hlt]) (fun i hi => ?_) (fun other hother hne => ?_) other
    · rw [List.getElem?_set_ne (Ne.symm hi)]
    · rw [Option.eq_none_iff_forall_ne_some]
      exact fun w hw => hne (eq_of_find?_of_index hw hv hother)

/-- A change empties no slot and fills none. -/
theorem Exact.modify {s : Slots α} (h : s.Exact) (id : SlotId) (f : α → α) :
    (s.modify id f).Exact := by
  cases hv : s.find? id with
  | none =>
    rw [modify_of_find?_none hv]
    exact h
  | some v =>
    have hslot := find?_eq_some_iff.mp hv
    have hlt : id.index < s.slots.length := (List.getElem?_eq_some_iff.mp hslot).1
    rw [modify_of_find? hv]
    refine ⟨h.nodup, fun j => ?_⟩
    show j ∈ s.free ↔ _
    rw [h.mem_free]
    by_cases hj : j = id.index
    · subst hj
      simp [List.getElem?_set_self hlt, hslot]
    · simp only [List.getElem?_set_ne (Ne.symm hj)]

/-! ### Removal -/

/-- A removal empties the slot, raises its generation and puts it on the free list. -/
theorem erase_of_find? {s : Slots α} {id : SlotId} {v : α} (hv : s.find? id = some v) :
    s.erase id = ⟨s.slots.set id.index ⟨id.generation + 1, none⟩, id.index :: s.free⟩ := by
  unfold erase
  rw [hv]

/-- The removal of what is not there is no change. -/
theorem erase_of_find?_none {s : Slots α} {id : SlotId} (hv : s.find? id = none) :
    s.erase id = s := by
  unfold erase
  rw [hv]

/-- An identifier that was removed finds nothing, and every other one what it found before. -/
theorem find?_erase (s : Slots α) (id other : SlotId) :
    (s.erase id).find? other = if other = id then none else s.find? other := by
  cases hv : s.find? id with
  | none =>
    rw [erase_of_find?_none hv]
    split
    · rename_i heq
      rw [heq, hv]
    · rfl
  | some v =>
    have hslot := find?_eq_some_iff.mp hv
    have hlt : id.index < s.slots.length := (List.getElem?_eq_some_iff.mp hslot).1
    rw [erase_of_find? hv]
    -- the slot is empty now, and no other identifier has found anything in it before
    by_cases hi : other.index = id.index
    · have hnone : Slots.find? ⟨s.slots.set id.index ⟨id.generation + 1, none⟩,
          id.index :: s.free⟩ other = none := by
        rw [Option.eq_none_iff_forall_ne_some]
        intro w hw
        rw [find?_eq_some_iff] at hw
        simp [hi, List.getElem?_set_self hlt] at hw
      rw [hnone]
      split
      · rfl
      · rename_i hne
        symm
        rw [Option.eq_none_iff_forall_ne_some]
        exact fun w hw => hne (eq_of_find?_of_index hw hv hi)
    · rw [if_neg (fun h => hi (by rw [h]))]
      apply find?_congr
      simp only [List.getElem?_set_ne (Ne.symm hi)]

/-- A removal puts the slot on the free list, on which it was not. -/
theorem Exact.erase {s : Slots α} (h : s.Exact) (id : SlotId) : (s.erase id).Exact := by
  cases hv : s.find? id with
  | none =>
    rw [erase_of_find?_none hv]
    exact h
  | some v =>
    have hslot := find?_eq_some_iff.mp hv
    have hlt : id.index < s.slots.length := (List.getElem?_eq_some_iff.mp hslot).1
    have hnot : id.index ∉ s.free := by
      rw [h.mem_free, hslot]
      simp
    rw [erase_of_find? hv]
    refine ⟨List.nodup_cons.mpr ⟨hnot, h.nodup⟩, fun j => ?_⟩
    by_cases hj : j = id.index
    · subst hj
      simp [List.getElem?_set_self hlt]
    · simp only [List.mem_cons, hj, false_or, h.mem_free, List.getElem?_set_ne (Ne.symm hj)]

/-! ### Counting -/

/-- The number of stored values that have a property. -/
def countOf (s : Slots α) (p : α → Bool) : Nat := s.slots.countP fun slot => slot.content.any p

/-- The size counts every stored value. -/
theorem size_eq_countOf (s : Slots α) : s.size = s.countOf fun _ => true := rfl

/-- In a store in which nothing is found there is nothing to count. -/
theorem countOf_eq_zero {s : Slots α} (h : ∀ id, s.find? id = none) (p : α → Bool) :
    s.countOf p = 0 := by
  unfold countOf
  rw [List.countP_eq_zero]
  intro slot hmem
  obtain ⟨i, hi⟩ := List.mem_iff_getElem?.mp hmem
  obtain ⟨g, content⟩ := slot
  cases content with
  | none => simp
  | some v =>
    have hfound : s.find? ⟨i, g⟩ = some v := find?_eq_some_iff.mpr hi
    rw [h] at hfound
    exact nomatch hfound

/-- The count after one slot was written. -/
theorem countP_set_slot {l : List (Slot α)} {i : Nat} {old new : Slot α} (h : l[i]? = some old)
    (p : α → Bool) :
    (l.set i new).countP (fun slot => slot.content.any p) + (old.content.any p).toNat =
      l.countP (fun slot => slot.content.any p) + (new.content.any p).toNat := by
  obtain ⟨hlt, heq⟩ := List.getElem?_eq_some_iff.mp h
  rw [List.countP_set hlt, heq]
  have hle : (old.content.any p).toNat ≤ l.countP fun slot => slot.content.any p := by
    cases hp : old.content.any p with
    | false => exact Nat.zero_le _
    | true => exact List.countP_pos_iff.mpr ⟨old, List.mem_of_getElem? h, hp⟩
  cases hold : old.content.any p <;> cases hnew : new.content.any p <;>
    simp only [hold, if_true, Bool.false_eq_true, if_false, Bool.toNat_true, Bool.toNat_false]
      at hle ⊢ <;> omega

/-- An insertion counts the value that it stores. -/
theorem countOf_insert {s : Slots α} (h : s.Exact) (v : α) (p : α → Bool) :
    (s.insert v).2.countOf p = s.countOf p + (p v).toNat := by
  cases hf : s.free with
  | nil =>
    rw [insert_nil hf]
    unfold countOf
    rw [List.countP_append, List.countP_singleton]
    cases hp : p v <;> simp [hp]
  | cons i free =>
    obtain ⟨g, hg, heq⟩ := insert_cons h hf v
    rw [heq]
    exact countP_set_slot hg p

/-- A change counts the new value in place of the old one. -/
theorem countOf_modify {s : Slots α} {id : SlotId} {v : α} (hv : s.find? id = some v) (f : α → α)
    (p : α → Bool) :
    (s.modify id f).countOf p + (p v).toNat = s.countOf p + (p (f v)).toNat := by
  rw [modify_of_find? hv]
  exact countP_set_slot (find?_eq_some_iff.mp hv) p

/-- A removal no longer counts the value that was stored. -/
theorem countOf_erase {s : Slots α} {id : SlotId} {v : α} (hv : s.find? id = some v)
    (p : α → Bool) : (s.erase id).countOf p + (p v).toNat = s.countOf p := by
  rw [erase_of_find? hv]
  exact countP_set_slot (find?_eq_some_iff.mp hv) p

/-- A store in which every identifier finds a value with the property that does so in another one
counts as many at least. -/
theorem countOf_le {s t : Slots α} {p : α → Bool}
    (h : ∀ id v, s.find? id = some v → p v = true → ∃ w, t.find? id = some w ∧ p w = true) :
    s.countOf p ≤ t.countOf p := by
  have hslots (i : Nat) (slot : Slot α) (hslot : s.slots[i]? = some slot)
      (hp : slot.content.any p = true) :
      ∃ slot', t.slots[i]? = some slot' ∧ slot'.content.any p = true := by
    obtain ⟨g, content⟩ := slot
    obtain ⟨v, rfl, hv⟩ := (Option.any_eq_true p content).mp hp
    obtain ⟨w, hw, hpw⟩ := h ⟨i, g⟩ v (find?_eq_some_iff.mpr hslot) hv
    exact ⟨_, find?_eq_some_iff.mp hw, hpw⟩
  unfold countOf
  generalize s.slots = l, t.slots = l' at hslots
  -- slot by slot
  induction l generalizing l' with
  | nil => exact Nat.zero_le _
  | cons slot rest ih =>
    cases l' with
    | nil =>
      refine Nat.le_of_eq (List.countP_eq_zero.mpr fun x hx hp => ?_)
      obtain ⟨i, hi⟩ := List.mem_iff_getElem?.mp hx
      obtain ⟨_, hnone, -⟩ := hslots i x hi hp
      cases hnone
    | cons slot' rest' =>
      have hrest := ih rest' fun i x hx hp => hslots (i + 1) x hx hp
      have hfirst : slot.content.any p = true → slot'.content.any p = true := by
        intro hp
        obtain ⟨_, heq, hp'⟩ := hslots 0 slot rfl hp
        cases heq
        exact hp'
      rw [List.countP_cons, List.countP_cons]
      refine Nat.add_le_add hrest ?_
      by_cases hp : slot.content.any p = true
      · simp [hp, hfirst hp]
      · simp [hp]

end StoredRoutine.Slots
