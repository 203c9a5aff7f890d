import Mathlib.Data.List.Perm.Basic
import StoredRoutine.Proofs.Lifetime.Sound

/-!
# `StoredRoutine.Proofs.Lifetime.Custody`: who owns a handle, over a whole history

An arena is used by pushing and popping frames, by making handles, and by cloning and dropping the
references to them. `History` runs such operations on an arena, and keeps for each outstanding
reference with which layout and under which frames its handle was made, and which frames have been
popped since.

* `run_sound`: after every history the invariant holds, a pop out of order fails and changes
  nothing, and nothing is left once all frames and references are gone.
* `layout?_run`: what a reference shows is decided by the pops alone. It shows its own layout as
  long as no frame that owned the handle was aborted, and nothing from then on.
-/

set_option autoImplicit false

namespace StoredRoutine.Arena

/-! ### Owners -/

/-- The frames that own a handle one after the other, the present owner first: a frame that is
popped leaves its handles to the next. -/
def heirs (born : List FrameId) (ended : List (FrameId × FrameExit)) : List FrameId :=
  ended.foldl (fun heirs pop => if heirs.head? = some pop.1 then heirs.tail else heirs) born

/-- The frame that owns a handle after some frames have been popped, the first pop first. -/
def owner (born : List FrameId) (ended : List (FrameId × FrameExit)) : Option FrameId :=
  (heirs born ended).head?

/-- At some time the frame that owned the handle was aborted. -/
def Lost (born : List FrameId) (ended : List (FrameId × FrameExit)) : Prop :=
  ∃ before f after, ended = before ++ (f, FrameExit.aborted) :: after ∧ owner born before = some f

/-- One pop more takes the owner off, if it was the owner that was popped. -/
theorem heirs_concat (born : List FrameId) (ended : List (FrameId × FrameExit)) (f : FrameId)
    (exit : FrameExit) :
    heirs born (ended ++ [(f, exit)]) =
      if owner born ended = some f then (heirs born ended).tail else heirs born ended := by
  unfold owner heirs
  rw [List.foldl_append]
  rfl

/-- No pop, no loss. -/
theorem not_lost_nil (born : List FrameId) : ¬Lost born [] := by
  rintro ⟨before, f, after, heq, -⟩
  simp at heq

/-- One pop more loses a handle if it aborts the owner, and brings none back. -/
theorem lost_concat (born : List FrameId) (ended : List (FrameId × FrameExit)) (f : FrameId)
    (exit : FrameExit) :
    Lost born (ended ++ [(f, exit)]) ↔
      Lost born ended ∨ exit = .aborted ∧ owner born ended = some f := by
  constructor
  · rintro ⟨before, g, after, heq, howner⟩
    rcases List.eq_nil_or_concat after with rfl | ⟨front, last, rfl⟩
    · obtain ⟨rfl, hpop⟩ := List.append_inj' heq rfl
      simp only [List.cons.injEq, Prod.mk.injEq, and_true] at hpop
      exact Or.inr ⟨hpop.2, hpop.1 ▸ howner⟩
    · rw [List.concat_eq_append, ← List.cons_append, ← List.append_assoc] at heq
      exact Or.inl ⟨before, g, front, (List.append_inj' heq rfl).1, howner⟩
  · rintro (⟨before, g, after, rfl, howner⟩ | ⟨rfl, howner⟩)
    · exact ⟨before, g, after ++ [(f, exit)], by simp, howner⟩
    · exact ⟨ended, f, [], rfl, howner⟩

/-! ### Histories -/

/-- An outstanding reference, and what is known of its handle. -/
structure Reference where
  id : HandleId
  /-- The layout that the handle was made with. -/
  layout : RowLayout
  /-- The frames that were active then, innermost first. -/
  born : List FrameId
  /-- The frames that have been popped since, the first pop first. -/
  ended : List (FrameId × FrameExit)

/-- An arena in use: the active frames, innermost first, and the outstanding references. -/
structure History where
  arena : Arena
  stack : List FrameId
  held : List Reference

/-- What can be done with an arena. A reference is named by its place among the outstanding
ones. -/
inductive Op where
  | push
  | pop (id : FrameId) (exit : FrameExit)
  | allocate (layout : RowLayout)
  | clone (i : Nat)
  | drop (i : Nat)

namespace History

/-- The handles of the outstanding references, once for each reference. -/
def ids (h : History) : List HandleId := h.held.map (·.id)

/-- An arena that was never used. -/
def start : History := { arena := .empty, stack := [], held := [] }

/-- One operation. A pop that fails is without effect, and so is the use of a reference that is not
outstanding. -/
def step (h : History) : Op → History
  | .push =>
    { h with arena := h.arena.pushFrame.2, stack := h.arena.pushFrame.1 :: h.stack }
  | .pop id exit =>
    match h.arena.popFrame id exit with
    | .ok arena =>
      { arena, stack := h.stack.tail,
        held := h.held.map fun r => { r with ended := r.ended ++ [(id, exit)] } }
    | .error _ => h
  | .allocate layout =>
    { h with
      arena := (h.arena.allocate layout).2
      held :=
        { id := (h.arena.allocate layout).1, layout, born := h.stack, ended := [] } :: h.held }
  | .clone i =>
    match h.held[i]? with
    | some r => { h with arena := h.arena.retain r.id, held := r :: h.held }
    | none => h
  | .drop i =>
    match h.held[i]? with
    | some r => { h with arena := h.arena.release r.id, held := h.held.eraseIdx i }
    | none => h

/-- A pop that succeeds takes the top off the stack, and every reference learns of it. -/
theorem step_pop_ok {h : History} {id : FrameId} {exit : FrameExit} {arena : Arena}
    (hpop : h.arena.popFrame id exit = .ok arena) :
    h.step (.pop id exit) =
      { arena, stack := h.stack.tail,
        held := h.held.map fun r => { r with ended := r.ended ++ [(id, exit)] } } := by
  simp only [step, hpop]

/-- A pop that fails changes nothing. -/
theorem step_pop_error {h : History} {id : FrameId} {exit : FrameExit} {e : Failure}
    (hpop : h.arena.popFrame id exit = .error e) : h.step (.pop id exit) = h := by
  simp only [step, hpop]

/-- All operations of a list, one after the other. -/
def run (ops : List Op) : History := ops.foldl step start

end History

/-! ### The invariant of a history -/

/-- What a reference knows agrees with the handle. -/
structure Reference.Agrees (r : Reference) (stack : List FrameId) (h : Handle) : Prop where
  /-- The frames that can still own the handle are the outer ones of the stack. -/
  suffix : heirs r.born r.ended <:+ stack
  /-- A handle that was not lost shows its layout and is in the frame that owns it. -/
  shown : ¬Lost r.born r.ended → h.layout = some r.layout ∧ h.frame = owner r.born r.ended
  /-- A handle that was lost shows nothing and is in no frame. -/
  lost : Lost r.born r.ended → h.layout = none ∧ h.frame = none

/-- The arena is sound for the stack and the references, and agrees with each of them. -/
structure History.Lawful (h : History) : Prop where
  sound : h.arena.Sound h.stack h.ids
  agrees : ∀ r ∈ h.held, ∀ x, h.arena.handle? r.id = some x → r.Agrees h.stack x

namespace History

/-- An unused arena is lawful. -/
theorem lawful_start : start.Lawful where
  sound := sound_empty
  agrees := by
    intro r hr
    exact absurd hr List.not_mem_nil

/-- A frame more makes no difference to a reference. -/
theorem Lawful.push {h : History} (hl : h.Lawful) : (h.step .push).Lawful where
  sound := hl.sound.pushFrame
  agrees := by
    intro r hr x hx
    have hagrees := hl.agrees r hr x hx
    exact ⟨hagrees.suffix.trans (List.suffix_cons _ _), hagrees.shown, hagrees.lost⟩

/-- What a handle becomes when the top of the stack is popped agrees with the pop. -/
theorem agrees_pop {r : Reference} {top : FrameId} {rest : List FrameId} {x x' : Handle}
    (hagrees : r.Agrees (top :: rest) x) (hnodup : (top :: rest).Nodup) (exit : FrameExit)
    (hx' : (if x.frame = some top then settled exit rest.head? x else some x) = some x') :
    Reference.Agrees { r with ended := r.ended ++ [(top, exit)] } rest x' := by
  have hnot := (List.nodup_cons.mp hnodup).1
  -- the popped frame is the owner exactly if the whole stack is still to own the handle
  have hwhole : owner r.born r.ended = some top → heirs r.born r.ended = top :: rest := by
    intro howner
    rcases List.suffix_cons_iff.mp hagrees.suffix with heq | hsuffix
    · exact heq
    · exact absurd (hsuffix.subset (List.mem_of_mem_head? howner)) hnot
  refine ⟨?_, ?_, ?_⟩
  · show heirs r.born (r.ended ++ [(top, exit)]) <:+ rest
    rw [heirs_concat]
    by_cases howner : owner r.born r.ended = some top
    · rw [if_pos howner, hwhole howner]
      exact List.suffix_refl rest
    · rw [if_neg howner]
      rcases List.suffix_cons_iff.mp hagrees.suffix with heq | hsuffix
      · exact absurd (by rw [owner, heq]; rfl) howner
      · exact hsuffix
  · intro hkept
    rw [lost_concat, not_or, not_and] at hkept
    obtain ⟨hlayout, hframe⟩ := hagrees.shown hkept.1
    show x'.layout = some r.layout ∧ x'.frame = owner r.born (r.ended ++ [(top, exit)])
    rw [owner, heirs_concat]
    by_cases howner : owner r.born r.ended = some top
    · have hnormal : exit ≠ .aborted := fun h => hkept.2 h howner
      rw [hframe, if_pos howner, settled_eq_some] at hx'
      rw [if_pos howner, hwhole howner, hx'.2]
      simp [hnormal, hlayout]
    · rw [hframe, if_neg howner] at hx'
      rw [if_neg howner, ← Option.some.inj hx']
      exact ⟨hlayout, hframe⟩
  · intro hlost
    rw [lost_concat] at hlost
    by_cases hbefore : Lost r.born r.ended
    · obtain ⟨hlayout, hframe⟩ := hagrees.lost hbefore
      rw [hframe, if_neg (fun h => nomatch h)] at hx'
      rw [← Option.some.inj hx']
      exact ⟨hlayout, hframe⟩
    · obtain ⟨rfl, howner⟩ := hlost.resolve_left hbefore
      obtain ⟨-, hframe⟩ := hagrees.shown hbefore
      rw [hframe, if_pos howner, settled_eq_some] at hx'
      rw [hx'.2]
      exact ⟨rfl, rfl⟩

/-- A pop settles the handles of the frame that ends, and each reference learns of it. -/
theorem Lawful.pop {h : History} (hl : h.Lawful) (id : FrameId) (exit : FrameExit) :
    (h.step (.pop id exit)).Lawful := by
  by_cases hcurrent : h.arena.current = some id
  · have hhead := hl.sound.current_eq
    rw [hcurrent] at hhead
    -- only the current frame can be popped, so it is the top of the stack
    obtain ⟨rest, hstack⟩ := List.head?_eq_some_iff.mp hhead.symm
    have hsound := hl.sound
    rw [hstack] at hsound
    obtain ⟨arena, hpop, hafter⟩ := hsound.popFrame exit
    obtain ⟨arena', -, hpop', -, -, -, hhandle, -⟩ := hsound.popFrame_spec exit
    obtain rfl : arena = arena' := by
      rw [hpop] at hpop'
      exact Except.ok.inj hpop'
    rw [step_pop_ok hpop, hstack]
    refine ⟨?_, ?_⟩
    · show arena.Sound rest (ids { arena, stack := rest, held := h.held.map _ })
      unfold ids
      rw [List.map_map]
      exact hafter
    · intro r' hr' x' hx'
      obtain ⟨r, hr, rfl⟩ := List.mem_map.mp hr'
      rw [hhandle, Option.bind_eq_some_iff] at hx'
      obtain ⟨x, hx, hx'⟩ := hx'
      have hagrees := hl.agrees r hr x hx
      rw [hstack] at hagrees
      exact agrees_pop hagrees hsound.nodup exit hx'
  · rw [step_pop_error (popFrame_of_current_ne hcurrent exit)]
    exact hl

/-- A new handle agrees with the reference that it is returned with. -/
theorem Lawful.allocate {h : History} (hl : h.Lawful) (layout : RowLayout) :
    (h.step (.allocate layout)).Lawful where
  sound := hl.sound.allocate layout
  agrees := by
    intro r hr x hx
    have hfind := handle?_allocate hl.sound.toCounted layout
    have hx : (h.arena.allocate layout).2.handle? r.id = some x := hx
    rw [hfind] at hx
    rcases List.mem_cons.mp hr with rfl | hr
    · rw [if_pos rfl] at hx
      obtain rfl := Option.some.inj hx
      refine ⟨List.suffix_refl _, fun _ => ⟨rfl, hl.sound.current_eq⟩, fun hlost => ?_⟩
      exact absurd hlost (not_lost_nil _)
    · have hne : r.id ≠ (h.arena.allocate layout).1 := by
        intro heq
        have hkept := hl.sound.kept (List.mem_map_of_mem hr)
        rw [heq, handle?_allocate_fresh hl.sound.toCounted] at hkept
        exact Bool.false_ne_true hkept
      rw [if_neg hne] at hx
      exact hl.agrees r hr x hx

/-- A reference agrees with every handle that has the layout and the frame it agreed with. -/
theorem agrees_congr {r : Reference} {stack : List FrameId} {x y : Handle}
    (h : r.Agrees stack x) (hlayout : y.layout = x.layout) (hframe : y.frame = x.frame) :
    r.Agrees stack y := by
  refine ⟨h.suffix, ?_, ?_⟩
  · rw [hlayout, hframe]
    exact h.shown
  · rw [hlayout, hframe]
    exact h.lost

/-- Counting a reference more changes neither layouts nor frames. -/
theorem Lawful.clone {h : History} (hl : h.Lawful) (i : Nat) : (h.step (.clone i)).Lawful := by
  cases hr : h.held[i]? with
  | none =>
    have hstep : h.step (.clone i) = h := by simp only [step, hr]
    rw [hstep]
    exact hl
  | some r =>
    have hmem : r ∈ h.held := List.mem_of_getElem? hr
    have hstep : h.step (.clone i) =
        { h with arena := h.arena.retain r.id, held := r :: h.held } := by
      simp only [step, hr]
    rw [hstep]
    refine ⟨hl.sound.retain (List.mem_map_of_mem hmem), ?_⟩
    intro s hs x hx
    have hs : s ∈ h.held := by
      rcases List.mem_cons.mp hs with rfl | hs
      · exact hmem
      · exact hs
    have hx : (h.arena.retain r.id).handle? s.id = some x := hx
    rw [handle?_retain] at hx
    by_cases heq : s.id = r.id
    · rw [if_pos heq, ← heq, Option.map_eq_some_iff] at hx
      obtain ⟨y, hy, rfl⟩ := hx
      exact agrees_congr (hl.agrees s hs y hy) rfl rfl
    · rw [if_neg heq] at hx
      exact hl.agrees s hs x hx

/-- Counting a reference less changes neither the layout nor the frame of what is left. -/
theorem Lawful.drop {h : History} (hl : h.Lawful) (i : Nat) : (h.step (.drop i)).Lawful := by
  cases hr : h.held[i]? with
  | none =>
    have hstep : h.step (.drop i) = h := by simp only [step, hr]
    rw [hstep]
    exact hl
  | some r =>
    have hstep : h.step (.drop i) =
        { h with arena := h.arena.release r.id, held := h.held.eraseIdx i } := by
      simp only [step, hr]
    obtain ⟨hlt, hget⟩ := List.getElem?_eq_some_iff.mp hr
    have hperm : h.held.Perm (r :: h.held.eraseIdx i) := by
      rw [← hget]
      exact (List.getElem_cons_eraseIdx_perm hlt).symm
    rw [hstep]
    have hids : h.ids.Perm (r.id :: ids { h with held := h.held.eraseIdx i }) :=
      hperm.map Reference.id
    refine ⟨(hl.sound.perm hids).release, ?_⟩
    intro s hs x hx
    have hs : s ∈ h.held := (List.eraseIdx_sublist _ _).subset hs
    have hx : (h.arena.release r.id).handle? s.id = some x := hx
    rw [handle?_release] at hx
    -- another reference to the same handle sees the handle of before, with a lesser count
    by_cases heq : s.id = r.id
    · rw [if_pos heq, ← heq, Option.bind_eq_some_iff] at hx
      obtain ⟨y, hy, hx⟩ := hx
      have hagrees := hl.agrees s hs y hy
      unfold released at hx
      split at hx
      · obtain rfl := Option.some.inj hx
        exact agrees_congr hagrees rfl rfl
      · split at hx
        · obtain rfl := Option.some.inj hx
          exact agrees_congr hagrees rfl rfl
        · exact nomatch hx
    · rw [if_neg heq] at hx
      exact hl.agrees s hs x hx

/-- Every operation keeps a history lawful. -/
theorem Lawful.step {h : History} (hl : h.Lawful) (op : Op) : (h.step op).Lawful := by
  cases op with
  | push => exact hl.push
  | pop id exit => exact hl.pop id exit
  | allocate layout => exact hl.allocate layout
  | clone i => exact hl.clone i
  | drop i => exact hl.drop i

/-- A lawful history stays lawful under any further operations. -/
theorem Lawful.foldl {h : History} (hl : h.Lawful) (ops : List Op) :
    (ops.foldl History.step h).Lawful := by
  induction ops generalizing h with
  | nil => exact hl
  | cons op rest ih => exact ih (hl.step op)

/-- Every history is lawful. -/
theorem lawful_run (ops : List Op) : (run ops).Lawful := lawful_start.foldl ops

end History

/-! ### What holds after every history -/

open History

/-- After every history the arena is sound: handles count their references, frames list their
handles, the free lists are exact and the live layouts are counted. A handle is live exactly while
it is referred to or waits for its frame; only the current frame can be popped, and a pop that
names another one changes nothing; and without active frames and references nothing is left. -/
theorem run_sound (ops : List Op) :
    (run ops).arena.Sound (run ops).stack (run ops).ids ∧
    (∀ id, ((run ops).arena.handle? id).isSome ↔ 0 < (run ops).ids.count id ∨
      ∃ x, (run ops).arena.handle? id = some x ∧ x.reclaimable = true) ∧
    (∀ id exit, (run ops).arena.current = some id →
      ∃ arena, (run ops).arena.popFrame id exit = .ok arena) ∧
    (∀ id exit, (run ops).arena.current ≠ some id →
      (run ops).arena.popFrame id exit =
          .error (.protocol "invocation frame popped out of order") ∧
        (run ops).step (.pop id exit) = run ops) ∧
    ((∀ f, (run ops).arena.isActive f = false) → (run ops).held = [] →
      (run ops).arena.liveHandles = 0 ∧ (run ops).arena.liveLayouts = 0) := by
  have hsound := (lawful_run ops).sound
  refine ⟨hsound, hsound.live_iff, ?_, ?_, ?_⟩
  · intro id exit hcurrent
    have hhead := hsound.current_eq
    rw [hcurrent] at hhead
    obtain ⟨rest, hstack⟩ := List.head?_eq_some_iff.mp hhead.symm
    rw [hstack] at hsound
    obtain ⟨arena, hpop, -⟩ := hsound.popFrame exit
    exact ⟨arena, hpop⟩
  · intro id exit hne
    have herror := popFrame_of_current_ne hne exit
    exact ⟨herror, step_pop_error herror⟩
  · intro hinactive hheld
    have hids : (run ops).ids = [] := by
      unfold ids
      rw [hheld]
      rfl
    -- the stack holds active frames only
    have hstack : (run ops).stack = [] := by
      rw [List.eq_nil_iff_forall_not_mem]
      intro f hf
      have hactive := (hsound.active f).mpr hf
      rw [← isActive_eq, hinactive f] at hactive
      exact Bool.false_ne_true hactive
    rw [hids, hstack] at hsound
    exact hsound.no_leak

/-- What an outstanding reference shows after a history: the layout its handle was made with, as
long as no frame that owned the handle was aborted, and nothing afterwards. A frame that does not
own the handle can be popped in either way without any effect on what is shown. -/
theorem layout?_run (ops : List Op) (r : Reference) (hr : r ∈ (run ops).held) :
    (¬Lost r.born r.ended → (run ops).arena.layout? r.id = some r.layout) ∧
    (Lost r.born r.ended → (run ops).arena.layout? r.id = none) ∧
    ∀ f exit, owner r.born r.ended ≠ some f →
      ((run ops).step (.pop f exit)).arena.layout? r.id = (run ops).arena.layout? r.id := by
  have hlawful := lawful_run ops
  -- the same is needed of the history with the pop, so it is said of any lawful one
  have hshown : ∀ {h : History}, h.Lawful → ∀ s ∈ h.held,
      (¬Lost s.born s.ended → h.arena.layout? s.id = some s.layout) ∧
      (Lost s.born s.ended → h.arena.layout? s.id = none) := by
    intro h hl s hs
    obtain ⟨x, hx⟩ := Option.isSome_iff_exists.mp (hl.sound.kept (List.mem_map_of_mem hs))
    have hagrees := hl.agrees s hs x hx
    have hlayout : h.arena.layout? s.id = x.layout := by
      unfold layout?
      rw [hx]
      rfl
    rw [hlayout]
    exact ⟨fun hkept => (hagrees.shown hkept).1, fun hlost => (hagrees.lost hlost).1⟩
  obtain ⟨hkept, hlost⟩ := hshown hlawful r hr
  refine ⟨hkept, hlost, ?_⟩
  intro f exit hne
  cases hpop : (run ops).arena.popFrame f exit with
  | error e => rw [step_pop_error hpop]
  | ok arena =>
    have hmem : { r with ended := r.ended ++ [(f, exit)] } ∈
        ((run ops).step (.pop f exit)).held := by
      rw [step_pop_ok hpop]
      exact List.mem_map_of_mem (f := fun r => { r with ended := r.ended ++ [(f, exit)] }) hr
    obtain ⟨hkept', hlost'⟩ := hshown (hlawful.step (.pop f exit)) _ hmem
    -- the end of a frame that does not own the handle loses nothing
    have hiff : Lost r.born (r.ended ++ [(f, exit)]) ↔ Lost r.born r.ended := by
      rw [lost_concat]
      simp [hne]
    simp only [hiff] at hkept' hlost'
    by_cases h : Lost r.born r.ended
    · rw [hlost' h, hlost h]
    · rw [hkept' h, hkept h]

/-- A handle made in the inner of two frames is still seen, through its clone too, after the inner
frame ended normally, and is lost when the outer one is aborted. -/
theorem layout?_run_passed_on :
    (run [.push, .push, .allocate (.anonymous []), .clone 0,
      .pop ⟨⟨1, 0⟩⟩ .normal]).arena.layout? ⟨⟨0, 0⟩⟩ = some (.anonymous []) ∧
    (run [.push, .push, .allocate (.anonymous []), .clone 0,
      .pop ⟨⟨1, 0⟩⟩ .normal, .pop ⟨⟨0, 0⟩⟩ .aborted]).arena.layout? ⟨⟨0, 0⟩⟩ = none := by
  refine ⟨(layout?_run _ ⟨⟨⟨0, 0⟩⟩, .anonymous [], [⟨⟨1, 0⟩⟩, ⟨⟨0, 0⟩⟩],
    [(⟨⟨1, 0⟩⟩, .normal)]⟩ ?_).1 ?_, (layout?_run _ ⟨⟨⟨0, 0⟩⟩, .anonymous [],
    [⟨⟨1, 0⟩⟩, ⟨⟨0, 0⟩⟩], [(⟨⟨1, 0⟩⟩, .normal), (⟨⟨0, 0⟩⟩, .aborted)]⟩ ?_).2.1 ?_⟩
  · exact List.mem_cons_self
  · show ¬Lost _ ([] ++ [(_, FrameExit.normal)])
    rw [lost_concat]
    simp [not_lost_nil]
  · exact List.mem_cons_self
  · exact ⟨[(⟨⟨1, 0⟩⟩, .normal)], ⟨⟨0, 0⟩⟩, [], rfl, rfl⟩

end StoredRoutine.Arena
