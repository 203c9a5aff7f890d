import Mathlib.Data.List.Induction
import StoredRoutine.Proofs.Lifetime.Custody

/-!
# `StoredRoutine.Proofs.Lifetime.Generations`: identifiers that have had their day

A slot is used again after it was emptied, so an identifier is told from a later one by the
generation alone. `Slots.Older` is what every operation does to the slots: the generation of a slot
goes up, or it stays and a value that is there stays too. `Slots.Gone` says that the slot of an
identifier has a higher generation. An identifier that found a value once either finds one still,
or is gone (`Slots.Older.gone`), and one that is gone stays so (`Slots.Gone.older`).

Generations are words, and go up only as long as they do not come round. They cannot do so early:
a slot has to be filled before it can be emptied again, so no generation exceeds the number of
values that were ever stored (`Slots.Dated`). In a run of fewer operations than there are
generations no identifier is handed out twice (`stale_run`).
-/

set_option autoImplicit false

namespace StoredRoutine

/-- What can become of a slot. It is emptied for a higher generation only. -/
def Slot.Older {α : Type} (s t : Slot α) : Prop :=
  s.generation < t.generation ∨
    s.generation = t.generation ∧ (s.content.isSome → t.content.isSome)

theorem Slot.Older.refl {α : Type} (s : Slot α) : s.Older s := .inr ⟨rfl, fun h => h⟩

theorem Slot.Older.trans {α : Type} {s t u : Slot α} (hst : s.Older t) (htu : t.Older u) :
    s.Older u := by
  rcases hst with hlt | ⟨heq, hkept⟩
  · rcases htu with hlt' | ⟨heq', -⟩
    · exact .inl (UInt32.lt_trans hlt hlt')
    · exact .inl (heq' ▸ hlt)
  · rcases htu with hlt' | ⟨heq', hkept'⟩
    · exact .inl (heq ▸ hlt')
    · exact .inr ⟨heq.trans heq', fun h => hkept' (hkept h)⟩

namespace Slots

variable {α : Type} {s t u : Slots α} {id : SlotId} {v : α} {n : Nat}

/-! ### Slots grow older -/

/-- Slots, and what has become of them later. -/
def Older (s t : Slots α) : Prop :=
  ∀ (i : Nat) (slot : Slot α), s.slots[i]? = some slot →
    ∃ slot', t.slots[i]? = some slot' ∧ slot.Older slot'

/-- The slot of an identifier is at a later generation. -/
def Gone (s : Slots α) (id : SlotId) : Prop :=
  ∃ slot : Slot α, s.slots[id.index]? = some slot ∧ id.generation < slot.generation

theorem Older.refl (s : Slots α) : s.Older s := fun _ slot hslot => ⟨slot, hslot, .refl slot⟩

theorem Older.trans (hst : s.Older t) (htu : t.Older u) : s.Older u := by
  intro i slot hslot
  obtain ⟨slot', hslot', hfirst⟩ := hst i slot hslot
  obtain ⟨slot'', hslot'', hsecond⟩ := htu i slot' hslot'
  exact ⟨slot'', hslot'', hfirst.trans hsecond⟩

/-- What is gone stays so. -/
theorem Gone.older (hgone : s.Gone id) (h : s.Older t) : t.Gone id := by
  obtain ⟨slot, hslot, hlt⟩ := hgone
  obtain ⟨slot', hslot', hlater | ⟨heq, -⟩⟩ := h id.index slot hslot
  · exact ⟨slot', hslot', UInt32.lt_trans hlt hlater⟩
  · exact ⟨slot', hslot', heq ▸ hlt⟩

/-- What is gone is not found. -/
theorem Gone.find? (hgone : s.Gone id) : s.find? id = none := by
  obtain ⟨slot, hslot, hlt⟩ := hgone
  rw [Option.eq_none_iff_forall_ne_some]
  intro v hv
  rw [find?_eq_some_iff, hslot] at hv
  cases hv
  exact UInt32.lt_irrefl _ hlt

/-- An identifier that found a value and does so no more is gone. -/
theorem Older.gone (h : s.Older t) (hv : s.find? id = some v) (hnone : t.find? id = none) :
    t.Gone id := by
  obtain ⟨⟨generation, content⟩, hslot, hlater | ⟨heq, hkept⟩⟩ :=
    h id.index _ (find?_eq_some_iff.mp hv)
  · exact ⟨_, hslot, hlater⟩
  · obtain ⟨w, rfl⟩ := Option.isSome_iff_exists.mp (hkept rfl)
    cases heq
    exact nomatch hnone.symm.trans (find?_eq_some_iff.mpr hslot)

/-- An identifier that is gone is not handed out. -/
theorem Gone.insert_ne (hgone : s.Gone id) (h : s.Exact) (v : α) : (s.insert v).1 ≠ id := by
  obtain ⟨slot, hslot, hlt⟩ := hgone
  rintro rfl
  cases hfree : s.free with
  | nil =>
    rw [insert_nil hfree] at hslot
    simp at hslot
  | cons i free =>
    obtain ⟨g, hg, heq⟩ := insert_cons h hfree v
    rw [heq] at hslot hlt
    cases hg.symm.trans hslot
    exact UInt32.lt_irrefl _ hlt

/-! ### How high generations are -/

/-- No generation is higher than `n`, the number of values stored so far, and that of a slot in use
is lower. -/
def Dated (n : Nat) (s : Slots α) : Prop :=
  ∀ (i : Nat) (slot : Slot α), s.slots[i]? = some slot →
    slot.generation.toNat + slot.content.isSome.toNat ≤ n

theorem dated_empty : ({} : Slots α).Dated 0 := by
  intro i slot hslot
  simp at hslot

theorem Dated.mono {m : Nat} (hs : s.Dated m) (hle : m ≤ n) : s.Dated n :=
  fun i slot hslot => Nat.le_trans (hs i slot hslot) hle

/-- One slot is written anew. -/
theorem older_set {l : List (Slot α)} {free free' : List Nat} {i : Nat} {old new : Slot α}
    (hold : l[i]? = some old) (hnew : old.Older new) : Older ⟨l, free⟩ ⟨l.set i new, free'⟩ := by
  intro j slot hslot
  have hslot : l[j]? = some slot := hslot
  by_cases hj : i = j
  · subst hj
    cases hold.symm.trans hslot
    exact ⟨new, List.getElem?_set_self (List.getElem?_eq_some_iff.mp hslot).1, hnew⟩
  · refine ⟨slot, ?_, .refl slot⟩
    show (l.set i new)[j]? = some slot
    rw [List.getElem?_set_ne hj]
    exact hslot

theorem Dated.set {l : List (Slot α)} {free free' : List Nat} {i : Nat} {new : Slot α}
    (hs : Dated n ⟨l, free⟩) (hnew : new.generation.toNat + new.content.isSome.toNat ≤ n) :
    Dated n ⟨l.set i new, free'⟩ := by
  intro j slot hslot
  have hslot : (l.set i new)[j]? = some slot := hslot
  rw [List.getElem?_set] at hslot
  split at hslot
  · split at hslot
    · cases hslot
      exact hnew
    · cases hslot
  · exact hs j slot hslot

/-- The slots after a part of a run that stores no new value. -/
def Leads (n : Nat) (s t : Slots α) : Prop := s.Dated n → s.Older t ∧ t.Dated n

theorem Leads.refl (s : Slots α) : Leads n s s := fun hs => ⟨.refl s, hs⟩

theorem Leads.trans (hst : Leads n s t) (htu : Leads n t u) : Leads n s u := by
  intro hs
  obtain ⟨hfirst, ht⟩ := hst hs
  obtain ⟨hsecond, hu⟩ := htu ht
  exact ⟨hfirst.trans hsecond, hu⟩

theorem leads_modify (s : Slots α) (id : SlotId) (f : α → α) : Leads n s (s.modify id f) := by
  intro hs
  cases hv : s.find? id with
  | none =>
    rw [modify_of_find?_none hv]
    exact ⟨.refl s, hs⟩
  | some v =>
    have hslot := find?_eq_some_iff.mp hv
    have hnew := hs id.index _ hslot
    rw [modify_of_find? hv]
    exact ⟨older_set hslot (.inr ⟨rfl, fun _ => rfl⟩), hs.set hnew⟩

/-- A slot that is emptied has been filled before, so its generation has not reached `n`. -/
theorem leads_erase (hn : n < 2 ^ 32) (s : Slots α) (id : SlotId) : Leads n s (s.erase id) := by
  intro hs
  cases hv : s.find? id with
  | none =>
    rw [erase_of_find?_none hv]
    exact ⟨.refl s, hs⟩
  | some v =>
    have hslot := find?_eq_some_iff.mp hv
    have hlt : id.generation.toNat + 1 ≤ n := hs id.index _ hslot
    have hnext : (id.generation + 1).toNat = id.generation.toNat + 1 := by
      rw [UInt32.toNat_add]
      exact Nat.mod_eq_of_lt (by show id.generation.toNat + 1 < 2 ^ 32; omega)
    rw [erase_of_find? hv]
    refine ⟨older_set hslot (.inl ?_), hs.set ?_⟩
    · rw [UInt32.lt_iff_toNat_lt, hnext]
      exact Nat.lt_succ_self _
    · rw [hnext]
      exact hlt

/-- A value that is stored goes to an empty slot and leaves its generation. -/
theorem insert_ages (h : s.Exact) (hs : s.Dated n) (v : α) :
    s.Older (s.insert v).2 ∧ (s.insert v).2.Dated (n + 1) := by
  cases hfree : s.free with
  | nil =>
    rw [insert_nil hfree]
    constructor
    · intro i slot hslot
      refine ⟨slot, ?_, .refl slot⟩
      show (s.slots ++ _)[i]? = some slot
      rw [List.getElem?_append_left (List.getElem?_eq_some_iff.mp hslot).1]
      exact hslot
    · intro i slot hslot
      have hslot : (s.slots ++ [⟨0, some v⟩])[i]? = some slot := hslot
      rw [List.getElem?_append] at hslot
      split at hslot
      · exact Nat.le_trans (hs i slot hslot) (Nat.le_succ n)
      · rw [List.getElem?_singleton] at hslot
        split at hslot
        · cases hslot
          exact Nat.le_add_left 1 n
        · cases hslot
  | cons i free =>
    obtain ⟨g, hg, heq⟩ := insert_cons h hfree v
    have hle : g.toNat ≤ n := hs i _ hg
    rw [heq]
    exact ⟨older_set hg (.inr ⟨rfl, fun _ => rfl⟩),
      (hs.mono (Nat.le_succ n)).set (Nat.succ_le_succ hle)⟩

end Slots

namespace Arena

variable {a b c : Arena} {n : Nat} {f : FrameId} {id : HandleId}

/-! ### Arenas grow older -/

/-- Handles and frames grow older together. -/
structure Older (a b : Arena) : Prop where
  handles : a.handles.Older b.handles
  frames : a.frames.Older b.frames

theorem Older.refl (a : Arena) : a.Older a := ⟨.refl _, .refl _⟩

theorem Older.trans (hab : a.Older b) (hbc : b.Older c) : a.Older c :=
  ⟨hab.handles.trans hbc.handles, hab.frames.trans hbc.frames⟩

/-- No generation is higher than `n`. -/
structure Dated (n : Nat) (a : Arena) : Prop where
  handles : a.handles.Dated n
  frames : a.frames.Dated n

/-- The arena after a part of an operation that makes neither a handle nor a frame. -/
structure Leads (n : Nat) (a b : Arena) : Prop where
  handles : Slots.Leads n a.handles b.handles
  frames : Slots.Leads n a.frames b.frames

theorem Leads.refl (a : Arena) : Leads n a a := ⟨.refl _, .refl _⟩

theorem Leads.trans (hab : Leads n a b) (hbc : Leads n b c) : Leads n a c :=
  ⟨hab.handles.trans hbc.handles, hab.frames.trans hbc.frames⟩

theorem Leads.ages (h : Leads n a b) (ha : a.Dated n) : a.Older b ∧ b.Dated n :=
  ⟨⟨(h.handles ha.handles).1, (h.frames ha.frames).1⟩,
    (h.handles ha.handles).2, (h.frames ha.frames).2⟩

theorem leads_modifyHandle (a : Arena) (id : HandleId) (f : Handle → Handle) :
    Leads n a (a.modifyHandle id f) :=
  ⟨Slots.leads_modify a.handles id.slot f, .refl _⟩

theorem leads_attach (a : Arena) (id : HandleId) (f : FrameId) : Leads n a (a.attach id f) :=
  ⟨.refl _, Slots.leads_modify a.frames f.slot _⟩

theorem leads_freeHandle (hn : n < 2 ^ 32) (a : Arena) (id : HandleId) :
    Leads n a (a.freeHandle id) := by
  unfold freeHandle
  cases a.handle? id with
  | none => exact .refl a
  | some h => exact ⟨Slots.leads_erase hn a.handles id.slot, .refl _⟩

theorem leads_loseLayout (a : Arena) (id : HandleId) : Leads n a (a.loseLayout id) := by
  unfold loseLayout
  cases a.handle? id with
  | none => exact .refl a
  | some h => exact ⟨Slots.leads_modify a.handles id.slot _, .refl _⟩

theorem leads_settle (hn : n < 2 ^ 32) (exit : FrameExit) (parent : Option FrameId) (a : Arena)
    (id : HandleId) : Leads n a (settle exit parent a id) := by
  unfold settle
  cases a.handle? id with
  | none => exact .refl a
  | some h =>
    by_cases hr : h.reclaimable = true
    · simp only [if_pos hr]
      exact leads_freeHandle hn a id
    · simp only [if_neg hr]
      cases exit with
      | aborted => exact leads_loseLayout a id
      | normal =>
        have hmoved := leads_modifyHandle (n := n) a id fun h => { h with frame := parent }
        cases parent with
        | none => exact hmoved
        | some p => exact hmoved.trans (leads_attach _ id p)

theorem leads_foldl_settle (hn : n < 2 ^ 32) (exit : FrameExit) (parent : Option FrameId)
    (ids : List HandleId) (a : Arena) : Leads n a (ids.foldl (settle exit parent) a) := by
  induction ids generalizing a with
  | nil => exact .refl a
  | cons id rest ih => exact (leads_settle hn exit parent a id).trans (ih _)

theorem leads_popFrame (hn : n < 2 ^ 32) {exit : FrameExit} (hpop : a.popFrame f exit = .ok b) :
    Leads n a b := by
  unfold popFrame at hpop
  split at hpop
  · split at hpop
    · cases hpop
    · cases hpop
      refine Leads.trans ?_ (leads_foldl_settle hn exit _ _ _)
      exact ⟨.refl _, Slots.leads_erase hn a.frames f.slot⟩
  · cases hpop

theorem leads_release (hn : n < 2 ^ 32) (a : Arena) (id : HandleId) :
    Leads n a (a.release id) := by
  unfold release
  cases a.handle? id with
  | none => exact .refl a
  | some h =>
    have hcounted := leads_modifyHandle (n := n) a id fun h' => { h' with refs := h.refs - 1 }
    simp only
    split
    · exact hcounted
    · split
      · split
        · exact hcounted.trans (leads_modifyHandle _ id _)
        · exact hcounted.trans (leads_freeHandle hn _ id)
      · exact hcounted.trans (leads_freeHandle hn _ id)

theorem pushFrame_ages (ha : a.Counted) (hd : a.Dated n) :
    a.Older a.pushFrame.2 ∧ a.pushFrame.2.Dated (n + 1) := by
  obtain ⟨holder, hdated⟩ :=
    Slots.insert_ages ha.frames hd.frames { handles := [], parent := a.current }
  exact ⟨⟨.refl _, holder⟩, hd.handles.mono (Nat.le_succ n), hdated⟩

theorem allocate_ages (ha : a.Counted) (hd : a.Dated n) (layout : RowLayout) :
    a.Older (a.allocate layout).2 ∧ (a.allocate layout).2.Dated (n + 1) := by
  obtain ⟨holder, hdated⟩ := Slots.insert_ages ha.handles hd.handles
    { layout := some layout, refs := 1, frame := a.current, reclaimable := false }
  have holder : a.Older { a with
      handles := (a.handles.insert
        { layout := some layout, refs := 1, frame := a.current, reclaimable := false }).2
      liveLayouts := a.liveLayouts + 1 } := ⟨holder, .refl _⟩
  have hdated : Dated (n + 1) { a with
      handles := (a.handles.insert
        { layout := some layout, refs := 1, frame := a.current, reclaimable := false }).2
      liveLayouts := a.liveLayouts + 1 } := ⟨hdated, hd.frames.mono (Nat.le_succ n)⟩
  unfold allocate
  cases hcur : a.current with
  | none =>
    rw [hcur] at holder hdated
    exact ⟨holder, hdated⟩
  | some f =>
    rw [hcur] at holder hdated
    -- the list of the current frame gets longer as well
    obtain ⟨hlonger, hdated'⟩ := (leads_attach _ _ f).ages hdated
    exact ⟨holder.trans hlonger, hdated'⟩

/-! ### Identifiers of frames and handles -/

/-- A frame that was active once and is so no more never becomes current again. -/
theorem Older.current_ne {stack : List FrameId} {held : List HandleId} (hab : a.Older b)
    (hbc : b.Older c) (hactive : (a.frame? f).isSome) (hended : b.frame? f = none)
    (hc : c.Sound stack held) : c.current ≠ some f := by
  intro hcurrent
  obtain ⟨frame, hframe⟩ := Option.isSome_iff_exists.mp hactive
  have hgone : c.frames.Gone f.slot := (hab.frames.gone hframe hended).older hbc.frames
  have hmem : f ∈ stack := List.mem_of_mem_head? (hc.current_eq.symm.trans hcurrent)
  have hfound := (hc.active f).mpr hmem
  rw [show c.frame? f = none from hgone.find?] at hfound
  exact Bool.false_ne_true hfound

/-- A handle that was there once and is so no more does not come back. -/
theorem Older.handle?_eq_none (hab : a.Older b) (hbc : b.Older c) (hmade : (a.handle? id).isSome)
    (hfreed : b.handle? id = none) : c.handle? id = none := by
  obtain ⟨x, hx⟩ := Option.isSome_iff_exists.mp hmade
  exact ((hab.handles.gone hx hfreed).older hbc.handles).find?

/-- An identifier under which there once was a handle is not handed out again. -/
theorem Older.allocate_ne (hab : a.Older b) (hb : b.Counted) (hmade : (a.handle? id).isSome)
    (layout : RowLayout) : (b.allocate layout).1 ≠ id := by
  intro heq
  have hfresh := handle?_allocate_fresh hb layout
  obtain ⟨x, hx⟩ := Option.isSome_iff_exists.mp hmade
  have hgone : b.handles.Gone id.slot := hab.handles.gone hx (heq ▸ hfresh)
  refine hgone.insert_ne hb.handles
    { layout := some layout, refs := 1, frame := b.current, reclaimable := false } ?_
  rw [← heq]
  unfold allocate
  cases b.current <;> rfl

namespace History

/-- An operation makes one handle or one frame at most. -/
theorem step_ages {h : History} (hl : h.Lawful) (hn : n < 2 ^ 32) (hd : h.arena.Dated n) (op : Op) :
    h.arena.Older (h.step op).arena ∧ (h.step op).arena.Dated (n + 1) := by
  -- whatever makes nothing keeps the bound, so it keeps a greater one
  have hkeep : ∀ {b : Arena}, Leads n h.arena b → h.arena.Older b ∧ b.Dated (n + 1) := by
    intro b hleads
    obtain ⟨holder, hdated⟩ := hleads.ages hd
    exact ⟨holder, hdated.handles.mono (Nat.le_succ n), hdated.frames.mono (Nat.le_succ n)⟩
  cases op with
  | push => exact pushFrame_ages hl.sound.toCounted hd
  | pop id exit =>
    cases hpop : h.arena.popFrame id exit with
    | ok b =>
      rw [step_pop_ok hpop]
      exact hkeep (leads_popFrame hn hpop)
    | error e =>
      rw [step_pop_error hpop]
      exact hkeep (.refl _)
  | allocate layout => exact allocate_ages hl.sound.toCounted hd layout
  | clone i =>
    cases hr : h.held[i]? with
    | none =>
      simp only [step, hr]
      exact hkeep (.refl _)
    | some r =>
      simp only [step, hr]
      exact hkeep (leads_modifyHandle _ r.id _)
  | drop i =>
    cases hr : h.held[i]? with
    | none =>
      simp only [step, hr]
      exact hkeep (.refl _)
    | some r =>
      simp only [step, hr]
      exact hkeep (leads_release hn _ r.id)

theorem run_append (before after : List Op) :
    run (before ++ after) = after.foldl step (run before) :=
  List.foldl_append

theorem foldl_ages {h : History} (hl : h.Lawful) (hd : h.arena.Dated n) (ops : List Op)
    (hlength : n + ops.length ≤ 2 ^ 32) : h.arena.Older (ops.foldl step h).arena := by
  induction ops generalizing h n with
  | nil => exact .refl _
  | cons op rest ih =>
    rw [List.length_cons] at hlength
    obtain ⟨hfirst, hdated⟩ := step_ages hl (by omega) hd op
    exact hfirst.trans (ih (hl.step op) hdated (by omega))

theorem dated_run (ops : List Op) (hlength : ops.length < 2 ^ 32) :
    (run ops).arena.Dated ops.length := by
  induction ops using List.reverseRecOn with
  | nil => exact ⟨Slots.dated_empty, Slots.dated_empty⟩
  | append_singleton ops op ih =>
    rw [List.length_append, List.length_singleton] at hlength
    rw [run_append, List.length_append]
    exact (step_ages (lawful_run ops) (by omega) (ih (by omega)) op).2

/-- In the course of a run the arena grows older. -/
theorem older_run {before ops : List Op} (hinitial : before <+: ops)
    (hlength : ops.length < 2 ^ 32) : (run before).arena.Older (run ops).arena := by
  obtain ⟨after, rfl⟩ := hinitial
  rw [List.length_append] at hlength
  rw [run_append]
  exact foldl_ages (lawful_run before) (dated_run before (by omega)) after (by omega)

/-- A frame that was popped is never current again. -/
theorem current_ne_of_popped {before ops : List Op} {f : FrameId} {exit : FrameExit}
    {arena : Arena} (hinitial : before ++ [.pop f exit] <+: ops) (hlength : ops.length < 2 ^ 32)
    (hpop : (run before).arena.popFrame f exit = .ok arena) :
    (run ops).arena.current ≠ some f := by
  -- the frame was active, and it was not after the pop
  have hsound := (lawful_run before).sound
  have hcurrent : (run before).arena.current = some f := by
    by_contra hne
    exact nomatch hpop.symm.trans (popFrame_of_current_ne hne exit)
  obtain ⟨rest, hstack⟩ := List.head?_eq_some_iff.mp (hsound.current_eq.symm.trans hcurrent)
  have hactive := (hsound.active f).mpr (hstack ▸ List.mem_cons_self)
  obtain ⟨arena', _, hpop', -, -, -, -, hframe⟩ := (hstack ▸ hsound).popFrame_spec exit
  cases hpop.symm.trans hpop'
  have hended : (run (before ++ [.pop f exit])).arena.frame? f = none := by
    rw [run_append]
    show ((run before).step (.pop f exit)).arena.frame? f = none
    rw [step_pop_ok hpop, hframe, if_pos rfl]
  have hlt : (before ++ [Op.pop f exit]).length < 2 ^ 32 :=
    Nat.lt_of_le_of_lt hinitial.length_le hlength
  exact (older_run (List.prefix_append _ _) hlt).current_ne (older_run hinitial hlength) hactive
    hended (lawful_run ops).sound

/-- The identifier that is handed out when a handle with this layout is made after `before`. -/
def madeAfter (before : List Op) (layout : RowLayout) : HandleId :=
  ((run before).arena.allocate layout).1

/-- A handle that was just made is there. -/
theorem handle?_madeAfter (before : List Op) (layout : RowLayout) :
    ((run (before ++ [.allocate layout])).arena.handle? (madeAfter before layout)).isSome := by
  rw [run_append]
  show (((run before).arena.allocate layout).2.handle? _).isSome
  rw [handle?_allocate (lawful_run before).sound.toCounted]
  unfold madeAfter
  rw [if_pos rfl]
  rfl

/-- An outstanding reference, or one that it was cloned from, was handed out with its handle. -/
def Issued (ops : List Op) (r : Reference) : Prop :=
  ∃ before, before ++ [.allocate r.layout] <+: ops ∧ r.id = madeAfter before r.layout ∧
    r.born = (run before).stack

theorem Issued.append {ops : List Op} {r : Reference} (h : Issued ops r) (more : List Op) :
    Issued (ops ++ more) r := by
  obtain ⟨before, hinitial, hid, hborn⟩ := h
  exact ⟨before, hinitial.trans (List.prefix_append ops more), hid, hborn⟩

/-- Every outstanding reference was handed out somewhere in the run. -/
theorem issued_run (ops : List Op) : ∀ r ∈ (run ops).held, Issued ops r := by
  -- by induction on the run, taken apart at its last operation
  induction ops using List.reverseRecOn with
  | nil => exact fun r hr => absurd hr List.not_mem_nil
  | append_singleton ops op ih =>
    intro r hr
    have hr : r ∈ ((run ops).step op).held := by
      rw [run_append] at hr
      exact hr
    cases op with
    | push => exact (ih r hr).append _
    | pop id exit =>
      cases hpop : (run ops).arena.popFrame id exit with
      | error e =>
        rw [step_pop_error hpop] at hr
        exact (ih r hr).append _
      | ok arena =>
        rw [step_pop_ok hpop] at hr
        obtain ⟨s, hs, rfl⟩ := List.mem_map.mp hr
        -- a pop tells each reference which frame has ended, not where it came from
        obtain ⟨before, hissued⟩ := (ih s hs).append [.pop id exit]
        exact ⟨before, hissued⟩
    | allocate layout =>
      rcases List.mem_cons.mp hr with rfl | hr
      · exact ⟨ops, List.prefix_rfl, rfl, rfl⟩
      · exact (ih r hr).append _
    | clone i =>
      cases hi : (run ops).held[i]? with
      | none =>
        simp only [step, hi] at hr
        exact (ih r hr).append _
      | some s =>
        simp only [step, hi] at hr
        rcases List.mem_cons.mp hr with rfl | hr
        · exact (ih r (List.mem_of_getElem? hi)).append _
        · exact (ih r hr).append _
    | drop i =>
      cases hi : (run ops).held[i]? with
      | none =>
        simp only [step, hi] at hr
        exact (ih r hr).append _
      | some s =>
        simp only [step, hi] at hr
        exact (ih r ((List.eraseIdx_sublist _ _).subset hr)).append _

end History

/-! ### What holds in a run that is not too long -/

open History

/-- In a run of fewer than 2 ^ 32 operations identifiers name what they were handed out for, and
nothing else. A frame that was popped never becomes current again, so every later pop of it is
refused and changes nothing. A handle whose slot was freed has no status from then on. No handle is
made under the identifier of an older one. And an outstanding reference finds the handle that was
made when its identifier was handed out: one that counts the references to it and agrees with what
has become of the frames since. -/
theorem stale_run (ops : List Op) (hlength : ops.length < 2 ^ 32) :
    (∀ before f exit arena, before ++ [.pop f exit] <+: ops →
      (run before).arena.popFrame f exit = .ok arena →
      (run ops).arena.current ≠ some f ∧ ∀ exit',
        (run ops).arena.popFrame f exit' =
            .error (.protocol "invocation frame popped out of order") ∧
          (run ops).step (.pop f exit') = run ops) ∧
    (∀ before layout middle, before ++ [.allocate layout] <+: middle → middle <+: ops →
      (run middle).arena.status? (madeAfter before layout) = none →
      (run ops).arena.status? (madeAfter before layout) = none) ∧
    (∀ before layout middle layout', before ++ [.allocate layout] <+: middle →
      middle ++ [.allocate layout'] <+: ops →
      madeAfter middle layout' ≠ madeAfter before layout) ∧
    ∀ r ∈ (run ops).held, Issued ops r ∧ ∃ x, (run ops).arena.handle? r.id = some x ∧
      x.refs = (run ops).ids.count r.id ∧ 0 < x.refs ∧ r.Agrees (run ops).stack x := by
  -- to have no status is not to be found
  have hstatus : ∀ {h : History} {id : HandleId},
      h.arena.status? id = none ↔ h.arena.handle? id = none := by
    intro h id
    exact Option.map_eq_none_iff
  refine ⟨?popped, ?freed, ?fresh, ?outstanding⟩
  case popped =>
    intro before f exit arena hinitial hpop
    have hne := current_ne_of_popped hinitial hlength hpop
    refine ⟨hne, fun exit' => ?_⟩
    have herror := popFrame_of_current_ne hne exit'
    exact ⟨herror, step_pop_error herror⟩
  case freed =>
    intro before layout middle hmade hinitial hfreed
    have hlt : middle.length < 2 ^ 32 := Nat.lt_of_le_of_lt hinitial.length_le hlength
    exact hstatus.mpr ((older_run hmade hlt).handle?_eq_none (older_run hinitial hlength)
      (handle?_madeAfter before layout) (hstatus.mp hfreed))
  case fresh =>
    intro before layout middle layout' hmade hinitial
    have hlt : middle.length < 2 ^ 32 :=
      Nat.lt_of_le_of_lt ((List.prefix_append _ _).trans hinitial).length_le hlength
    exact (older_run hmade hlt).allocate_ne (lawful_run middle).sound.toCounted
      (handle?_madeAfter before layout) layout'
  case outstanding =>
    intro r hr
    have hlawful := lawful_run ops
    have hid : r.id ∈ (run ops).ids := List.mem_map_of_mem hr
    obtain ⟨x, hx⟩ := Option.isSome_iff_exists.mp (hlawful.sound.kept hid)
    have hrefs := hlawful.sound.refs hx
    exact ⟨issued_run ops r hr, x, hx, hrefs, hrefs ▸ List.count_pos_iff.mpr hid,
      hlawful.agrees r hr x hx⟩

/-- A frame with a handle in it that nothing refers to any more, and after it the same again. -/
def twice : List Op :=
  [.push, .allocate (.anonymous []), .drop 0, .pop ⟨⟨0, 0⟩⟩ .normal, .push,
    .allocate (.anonymous [])]

/-- The second frame and the second handle are in the slots of the first ones, and the identifiers
of the first ones do not name them. -/
theorem stale_run_twice :
    twice.length < 2 ^ 32 ∧
    (run twice).arena.current = some ⟨⟨0, 1⟩⟩ ∧
    (∀ exit, (run twice).step (.pop ⟨⟨0, 0⟩⟩ exit) = run twice) ∧
    ((run twice).arena.status? ⟨⟨0, 1⟩⟩).isSome ∧
    (run twice).arena.status? ⟨⟨0, 0⟩⟩ = none := by
  obtain ⟨hpopped, hfreed, -, -⟩ := stale_run twice (by decide)
  refine ⟨by decide, rfl, fun exit => ?_, rfl, ?_⟩
  · exact ((hpopped (twice.take 3) _ .normal _ ⟨_, rfl⟩ rfl).2 exit).2
  · exact hfreed (twice.take 1) (.anonymous []) (twice.take 4) ⟨_, rfl⟩ ⟨_, rfl⟩ rfl

end Arena

end StoredRoutine
