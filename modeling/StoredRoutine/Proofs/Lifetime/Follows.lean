import StoredRoutine.Proofs.Lifetime.Sound

/-!
# `StoredRoutine.Proofs.Lifetime.Follows`: what happens inside a frame stays inside

`Arena.Follows a b` says what a part of a run may do to an arena whose current frame it does not
end. The current frame is the same. Every handle is still there, with the layout and the owner
that it had. And a handle with a layout that was not there before belongs to the current frame.

Each operation on handles has this property if no handle loses its last reference, and parts of a
run that follow each other have it together. A whole frame has it too, whatever happens inside
(`Sound.follows_frame`): its handles pass to the current frame if it ends normally. If it is
aborted, then at the end the same handles have a layout as at the start.
-/

set_option autoImplicit false

namespace StoredRoutine.Arena

variable {a b c : Arena} {stack : List FrameId} {held : List HandleId}

/-- The arena after a part of a run that does not end the current frame. -/
structure Follows (a b : Arena) : Prop where
  current : b.current = a.current
  kept : ∀ {id x}, a.handle? id = some x →
    ∃ y, b.handle? id = some y ∧ y.layout = x.layout ∧ y.frame = x.frame
  made : ∀ {id y}, b.handle? id = some y → y.layout.isSome →
    y.frame = a.current ∨ ∃ x, a.handle? id = some x ∧ x.layout = y.layout ∧ x.frame = y.frame

theorem Follows.refl (a : Arena) : a.Follows a where
  current := rfl
  kept hx := ⟨_, hx, rfl, rfl⟩
  made hy _ := .inr ⟨_, hy, rfl, rfl⟩

theorem Follows.trans (h₁ : a.Follows b) (h₂ : b.Follows c) : a.Follows c where
  current := h₂.current.trans h₁.current
  kept hx := by
    obtain ⟨y, hy, hlayout, hframe⟩ := h₁.kept hx
    obtain ⟨z, hz, hlayout', hframe'⟩ := h₂.kept hy
    exact ⟨z, hz, hlayout'.trans hlayout, hframe'.trans hframe⟩
  made hz hsome := by
    rcases h₂.made hz hsome with hcurrent | ⟨y, hy, hlayout, hframe⟩
    · exact .inl (hcurrent.trans h₁.current)
    · rcases h₁.made hy (hlayout ▸ hsome) with hcurrent | ⟨x, hx, hlayout', hframe'⟩
      · exact .inl (hframe ▸ hcurrent)
      · exact .inr ⟨x, hx, hlayout'.trans hlayout, hframe'.trans hframe⟩

/-- An operation that changes handles in their counts at most. -/
theorem Follows.ofCounts (hcurrent : b.current = a.current)
    (hsame : ∀ id, (b.handle? id).map (fun x => (x.layout, x.frame)) =
      (a.handle? id).map fun x => (x.layout, x.frame)) : a.Follows b where
  current := hcurrent
  kept {id x} hx := by
    have hid := hsame id
    rw [hx, Option.map_some, Option.map_eq_some_iff] at hid
    obtain ⟨y, hy, heq⟩ := hid
    obtain ⟨hlayout, hframe⟩ := Prod.mk.inj heq
    exact ⟨y, hy, hlayout, hframe⟩
  made {id y} hy _ := by
    have hid := hsame id
    rw [hy, Option.map_some, eq_comm, Option.map_eq_some_iff] at hid
    obtain ⟨x, hx, heq⟩ := hid
    obtain ⟨hlayout, hframe⟩ := Prod.mk.inj heq
    exact .inr ⟨x, hx, hlayout, hframe⟩

/-- A new handle belongs to the current frame. -/
theorem Sound.follows_allocate (h : a.Sound stack held) (layout : RowLayout) :
    a.Follows (a.allocate layout).2 where
  current := current_allocate a layout
  kept {id x} hx := by
    have hne : id ≠ (a.allocate layout).1 := by
      intro heq
      rw [heq, handle?_allocate_fresh h.toCounted] at hx
      cases hx
    exact ⟨x, by rw [handle?_allocate h.toCounted, if_neg hne, hx], rfl, rfl⟩
  made {id y} hy _ := by
    rw [handle?_allocate h.toCounted] at hy
    split at hy
    · cases hy
      exact .inl rfl
    · exact .inr ⟨y, hy, rfl, rfl⟩

theorem follows_retain (a : Arena) (id : HandleId) : a.Follows (a.retain id) := by
  refine Follows.ofCounts rfl fun other => ?_
  rw [handle?_retain]
  split
  next heq =>
    rw [heq]
    cases a.handle? id <;> rfl
  · rfl

/-- A handle to which there is another reference is still there after one less. -/
theorem Sound.follows_release {id : HandleId} (h : a.Sound stack (id :: held)) (hin : id ∈ held) :
    a.Follows (a.release id) := by
  refine Follows.ofCounts (frames_release a id).2 fun other => ?_
  rw [handle?_release]
  split
  next heq =>
    rw [heq]
    cases hx : a.handle? id with
    | none => rfl
    | some x =>
      have hrefs := h.refs hx
      rw [List.count_cons_self] at hrefs
      have hpos := List.count_pos_iff.mpr hin
      rw [Option.bind_some, released, if_pos (by omega)]
      rfl
  · rfl

/-- The handles after a frame that was pushed and popped: each is the one that was there at the end
of the frame, settled if it is of this frame. -/
def Popped (a b c : Arena) (stack : List FrameId) (exit : FrameExit) : Prop :=
  ∀ id, c.handle? id = (b.handle? id).bind fun x =>
    if x.frame = some a.pushFrame.1 then settled exit stack.head? x else some x

/-- What was there before the frame belongs to another one, so it is not settled. -/
theorem Popped.kept {exit : FrameExit} (hpopped : Popped a b c stack exit)
    (h : a.Sound stack held) (hin : a.pushFrame.2.Follows b) {id : HandleId} {x : Handle}
    (hx : a.handle? id = some x) :
    ∃ y, c.handle? id = some y ∧ y.layout = x.layout ∧ y.frame = x.frame := by
  obtain ⟨y, hy, hlayout, hframe⟩ := hin.kept hx
  have hother : y.frame ≠ some a.pushFrame.1 := by
    intro heq
    exact h.pushFrame_not_mem (h.frame_mem hx (hframe ▸ heq))
  refine ⟨y, ?_, hlayout, hframe⟩
  rw [hpopped, hy, Option.bind_some, if_neg hother]

/-- What has a layout after the frame was there before, unless the frame hands it up. -/
theorem Popped.made {exit : FrameExit} (hpopped : Popped a b c stack exit)
    (hin : a.pushFrame.2.Follows b) {id : HandleId} {z : Handle} (hz : c.handle? id = some z)
    (hsome : z.layout.isSome) :
    (exit = .normal ∧ z.frame = stack.head?) ∨
      ∃ x, a.handle? id = some x ∧ x.layout = z.layout ∧ x.frame = z.frame := by
  rw [hpopped, eq_some_of_popFrame] at hz
  rcases hz with ⟨hz, hframe⟩ | ⟨y, -, -, hleft⟩
  · rcases hin.made hz hsome with hcur | ⟨x, hx, hlayout, hxf⟩
    · exact absurd hcur hframe
    · exact .inr ⟨x, hx, hlayout, hxf⟩
  · obtain ⟨-, rfl⟩ := settled_eq_some.mp hleft
    cases exit with
    | normal => exact .inl ⟨rfl, rfl⟩
    | aborted => exact nomatch hsome

/-- A frame that is aborted hands nothing up, so the same handles have a layout as before it. -/
theorem Popped.layout? (hpopped : Popped a b c stack .aborted) (h : a.Sound stack held)
    (hin : a.pushFrame.2.Follows b) (id : HandleId) : c.layout? id = a.layout? id := by
  unfold Arena.layout?
  cases hx : a.handle? id with
  | some x =>
    obtain ⟨y, hy, hlayout, -⟩ := hpopped.kept h hin hx
    rw [hy]
    exact hlayout
  | none =>
    rw [Option.bind_none, Option.bind_eq_none_iff]
    intro z hz
    rw [← Option.not_isSome_iff_eq_none]
    intro hsome
    rcases hpopped.made hin hz hsome with ⟨hnormal, -⟩ | ⟨x, hx', -⟩
    · exact nomatch hnormal
    · exact nomatch hx.symm.trans hx'

/-- A frame that starts and ends on top of the current one. What lay inside of it follows the
start. -/
theorem Sound.follows_frame (h : a.Sound stack held) (hin : a.pushFrame.2.Follows b)
    {held' : List HandleId} (hb : b.Sound (a.pushFrame.1 :: stack) held') (exit : FrameExit) :
    ∃ c, b.popFrame a.pushFrame.1 exit = .ok c ∧ c.Sound stack held' ∧ a.Follows c ∧
      (exit = .aborted → ∀ id, c.layout? id = a.layout? id) := by
  obtain ⟨c, _, hpop, -, hcurrent, -, hhandle, -⟩ := hb.popFrame_spec exit
  obtain ⟨c', hpop', hsound⟩ := hb.popFrame exit
  obtain rfl : c' = c := Except.ok.inj (hpop'.symm.trans hpop)
  have hpopped : Popped a b c' stack exit := hhandle
  refine ⟨c', hpop, hsound, ⟨?_, hpopped.kept h hin, ?_⟩, ?_⟩
  · rw [hcurrent, h.current_eq]
  · intro id z hz hsome
    rw [h.current_eq]
    exact (hpopped.made hin hz hsome).imp_left (·.2)
  · rintro rfl id
    exact hpopped.layout? h hin id

end StoredRoutine.Arena
