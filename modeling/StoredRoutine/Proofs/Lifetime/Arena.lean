import StoredRoutine.Lifetime.Arena
import StoredRoutine.Proofs.Lifetime.Slots

/-!
# `StoredRoutine.Proofs.Lifetime.Arena`: what one operation does to a handle and to a frame

For each operation of the arena, the equation for the handle behind every identifier (`handle?_*`)
and for the frame behind every identifier (`frame?_*`). Popping a frame settles the handles of its
list one after another: `settled` is what becomes of one of them, and `handle?_foldl_settle` says
that over a list without repetitions each handle is settled once and no other is touched.

`Counted` is the bookkeeping that no operation looks at, but every one has to keep: both free lists
are exact, and the number of live layouts is the number of handles that have one.
-/

set_option autoImplicit false

namespace StoredRoutine

/-- Handles are named by their slots. -/
theorem HandleId.slot_inj {x y : HandleId} : x.slot = y.slot ↔ x = y := by
  cases x
  cases y
  simp

/-- Frames are named by their slots. -/
theorem FrameId.slot_inj {x y : FrameId} : x.slot = y.slot ↔ x = y := by
  cases x
  cases y
  simp

namespace Arena

/-- The frame of the given name, while it is active. -/
def frame? (a : Arena) (id : FrameId) : Option Frame := a.frames.find? id.slot

/-- A frame is active exactly if it is found. -/
theorem isActive_eq (a : Arena) (id : FrameId) : a.isActive id = (a.frame? id).isSome := rfl

/-- Nothing is found in the empty arena. -/
theorem handle?_empty (id : HandleId) : empty.handle? id = none := Slots.find?_empty id.slot

/-- No frame is active in the empty arena. -/
theorem frame?_empty (id : FrameId) : empty.frame? id = none := Slots.find?_empty id.slot

/-! ### Changing one handle -/

/-- Where an identifier finds nothing, not to answer for it makes no difference. -/
theorem handle?_of_none {a : Arena} {id : HandleId} (hv : a.handle? id = none)
    (other : HandleId) : a.handle? other = if other = id then none else a.handle? other := by
  by_cases heq : other = id
  · rw [if_pos heq, heq, hv]
  · rw [if_neg heq]

/-- A change of a handle is seen through its own identifier only. -/
theorem handle?_modifyHandle (a : Arena) (id other : HandleId) (f : Handle → Handle) :
    (a.modifyHandle id f).handle? other =
      if other = id then (a.handle? id).map f else a.handle? other := by
  unfold modifyHandle handle?
  rw [Slots.find?_modify]
  simp only [HandleId.slot_inj]

/-- A handle that is given up is not found any more. -/
theorem handle?_freeHandle (a : Arena) (id other : HandleId) :
    (a.freeHandle id).handle? other = if other = id then none else a.handle? other := by
  unfold freeHandle
  cases hv : a.handle? id with
  | none => exact handle?_of_none hv other
  | some h =>
    show (a.handles.erase id.slot).find? other.slot = _
    rw [Slots.find?_erase]
    simp only [HandleId.slot_inj, handle?]

/-- A handle that loses its layout is detached, and stays otherwise as it is. -/
theorem handle?_loseLayout (a : Arena) (id other : HandleId) :
    (a.loseLayout id).handle? other =
      if other = id then (a.handle? id).map fun h => { h with layout := none, frame := none }
      else a.handle? other := by
  unfold loseLayout
  cases hv : a.handle? id with
  | none => exact handle?_of_none hv other
  | some h =>
    show (a.modifyHandle id _).handle? other = _
    rw [handle?_modifyHandle, hv]

/-- Giving a handle up leaves the frames alone. -/
theorem frame?_freeHandle (a : Arena) (id : HandleId) (f : FrameId) :
    (a.freeHandle id).frame? f = a.frame? f := by
  unfold freeHandle
  cases a.handle? id <;> rfl

/-- Losing a layout leaves the frames alone. -/
theorem frame?_loseLayout (a : Arena) (id : HandleId) (f : FrameId) :
    (a.loseLayout id).frame? f = a.frame? f := by
  unfold loseLayout
  cases a.handle? id <;> rfl

/-- Giving a handle up leaves the current frame. -/
theorem current_freeHandle (a : Arena) (id : HandleId) : (a.freeHandle id).current = a.current := by
  unfold freeHandle
  cases a.handle? id <;> rfl

/-- Losing a layout leaves the current frame. -/
theorem current_loseLayout (a : Arena) (id : HandleId) : (a.loseLayout id).current = a.current := by
  unfold loseLayout
  cases a.handle? id <;> rfl

/-- Only the frame to which a handle is attached gets a longer list. -/
theorem frame?_attach (a : Arena) (id : HandleId) (f g : FrameId) :
    (a.attach id f).frame? g =
      if g = f then (a.frame? f).map fun frame => { frame with handles := frame.handles ++ [id] }
      else a.frame? g := by
  unfold attach frame?
  rw [Slots.find?_modify]
  simp only [FrameId.slot_inj]

/-! ### The bookkeeping -/

/-- Both free lists are exact, and the live layouts are those of the handles that have one. -/
structure Counted (a : Arena) : Prop where
  handles : a.handles.Exact
  frames : a.frames.Exact
  layouts : a.liveLayouts = a.handles.countOf fun h => h.layout.isSome

/-- The empty arena has nothing to keep book of. -/
theorem counted_empty : empty.Counted where
  handles := Slots.exact_empty
  frames := Slots.exact_empty
  layouts := rfl

/-- Arenas in which the same handles have a layout count as many. -/
theorem Counted.liveLayouts_eq {a b : Arena} (ha : a.Counted) (hb : b.Counted)
    (hsame : ∀ id, b.layout? id = a.layout? id) : b.liveLayouts = a.liveLayouts := by
  have hle {a b : Arena} (hsame : ∀ id, b.layout? id = a.layout? id) :
      b.handles.countOf (fun h => h.layout.isSome) ≤
        a.handles.countOf fun h => h.layout.isSome := by
    refine Slots.countOf_le fun slot h hh hlayout => ?_
    have hb : b.layout? ⟨slot⟩ = h.layout := by
      unfold layout? handle?
      rw [hh, Option.bind_some]
    rw [← hb, hsame] at hlayout
    obtain ⟨layout, ha⟩ := Option.isSome_iff_exists.mp hlayout
    obtain ⟨h', hh', hlayout'⟩ := Option.bind_eq_some_iff.mp ha
    exact ⟨h', hh', by rw [hlayout']; rfl⟩
  rw [ha.layouts, hb.layouts]
  exact Nat.le_antisymm (hle hsame) (hle fun id => (hsame id).symm)

/-- A change that does not give or take a layout is not counted. -/
theorem Counted.modifyHandle {a : Arena} (ha : a.Counted) (id : HandleId) {f : Handle → Handle}
    (hf : ∀ h, (f h).layout.isSome = h.layout.isSome) : (a.modifyHandle id f).Counted where
  handles := ha.handles.modify id.slot f
  frames := ha.frames
  layouts := by
    show a.liveLayouts = (a.handles.modify id.slot f).countOf _
    rw [ha.layouts]
    cases hv : a.handles.find? id.slot with
    | none => rw [Slots.modify_of_find?_none hv]
    | some h =>
      have hcount := Slots.countOf_modify hv f fun h => h.layout.isSome
      rw [hf h] at hcount
      omega

/-- A handle that is given up takes its layout from the count. -/
theorem Counted.freeHandle {a : Arena} (ha : a.Counted) (id : HandleId) :
    (a.freeHandle id).Counted := by
  unfold Arena.freeHandle
  cases hv : a.handle? id with
  | none => exact ha
  | some h =>
    refine ⟨ha.handles.erase id.slot, ha.frames, ?_⟩
    have hcount := Slots.countOf_erase hv fun h => h.layout.isSome
    show (if h.layout.isSome then a.liveLayouts - 1 else a.liveLayouts) =
      (a.handles.erase id.slot).countOf _
    rw [ha.layouts, ← hcount]
    cases h.layout <;> simp

/-- A layout that is lost is taken from the count. -/
theorem Counted.loseLayout {a : Arena} (ha : a.Counted) (id : HandleId) :
    (a.loseLayout id).Counted := by
  unfold Arena.loseLayout
  cases hv : a.handle? id with
  | none => exact ha
  | some h =>
    refine ⟨ha.handles.modify id.slot _, ha.frames, ?_⟩
    have hcount := Slots.countOf_modify hv (fun h => { h with layout := none, frame := none })
      fun h => h.layout.isSome
    show (if h.layout.isSome then a.liveLayouts - 1 else a.liveLayouts) =
      (a.handles.modify id.slot fun h => { h with layout := none, frame := none }).countOf _
    rw [ha.layouts]
    cases hl : h.layout <;> simp [hl] at hcount ⊢ <;> omega

/-- Lists of frames are not counted. -/
theorem Counted.attach {a : Arena} (ha : a.Counted) (id : HandleId) (f : FrameId) :
    (a.attach id f).Counted where
  handles := ha.handles
  frames := ha.frames.modify f.slot _
  layouts := ha.layouts

/-! ### Pushing a frame -/

/-- A frame that is pushed was not active before. -/
theorem frame?_pushFrame_fresh {a : Arena} (ha : a.Counted) : a.frame? a.pushFrame.1 = none :=
  Slots.find?_insert_fresh ha.frames _

/-- The frame that is pushed is empty, and the frame that was current is its parent. -/
theorem frame?_pushFrame {a : Arena} (ha : a.Counted) (f : FrameId) :
    a.pushFrame.2.frame? f =
      if f = a.pushFrame.1 then some { handles := [], parent := a.current } else a.frame? f := by
  show (a.frames.insert _).2.find? f.slot = _
  rw [Slots.find?_insert ha.frames]
  simp only [← FrameId.slot_inj]
  rfl

/-- A push keeps the books. -/
theorem Counted.pushFrame {a : Arena} (ha : a.Counted) : a.pushFrame.2.Counted where
  handles := ha.handles
  frames := ha.frames.insert _
  layouts := ha.layouts

/-! ### Settling the handles of a frame that ends -/

/-- What becomes of a handle whose frame ends: nothing if no reference is left, a handle without a
layout after an error, and otherwise a handle of the enclosing frame. -/
def settled (exit : FrameExit) (parent : Option FrameId) (h : Handle) : Option Handle :=
  if h.reclaimable then none
  else
    match exit with
    | .aborted => some { h with layout := none, frame := none }
    | .normal => some { h with frame := parent }

/-- Settling one handle. -/
theorem handle?_settle (exit : FrameExit) (parent : Option FrameId) (a : Arena)
    (id other : HandleId) :
    (settle exit parent a id).handle? other =
      if other = id then (a.handle? id).bind (settled exit parent) else a.handle? other := by
  unfold settle
  cases hv : a.handle? id with
  | none => exact handle?_of_none hv other
  | some h =>
    by_cases hr : h.reclaimable = true
    · simp only [if_pos hr, handle?_freeHandle, Option.bind_some, settled]
    · cases exit with
      | aborted =>
        simp only [if_neg hr, handle?_loseLayout, hv, Option.map_some, Option.bind_some, settled]
      | normal =>
        simp only [if_neg hr, Option.bind_some, settled]
        cases parent with
        | none => simp only [handle?_modifyHandle, hv, Option.map_some]
        | some p =>
          show (a.modifyHandle id _).handle? other = _
          simp only [handle?_modifyHandle, hv, Option.map_some]

/-- Only the parent frame of a normal end gets the handle, if there is still one. -/
theorem frame?_settle (exit : FrameExit) (parent : Option FrameId) (a : Arena) (id : HandleId)
    (f : FrameId) :
    (settle exit parent a id).frame? f =
      (a.frame? f).map fun frame =>
        if exit = .normal ∧ parent = some f ∧
            ((a.handle? id).bind (settled exit parent)).isSome = true then
          { frame with handles := frame.handles ++ [id] }
        else frame := by
  unfold settle
  cases hv : a.handle? id with
  | none => simp
  | some h =>
    by_cases hr : h.reclaimable = true
    · simp [hr, frame?_freeHandle, settled]
    · cases exit with
      | aborted => simp [hr, frame?_loseLayout, settled]
      | normal =>
        cases parent with
        | none => simp [hr, settled, modifyHandle, frame?]
        | some p =>
          simp only [if_neg hr, frame?_attach, Option.bind_some, settled, Option.isSome_some,
            Option.some.injEq, true_and, and_true]
          by_cases hp : f = p
          · subst hp
            simp [modifyHandle, frame?]
          · simp [hp, Ne.symm hp, modifyHandle, frame?]

/-- Settling does not change which frame is current. -/
theorem current_settle (exit : FrameExit) (parent : Option FrameId) (a : Arena) (id : HandleId) :
    (settle exit parent a id).current = a.current := by
  unfold settle
  cases a.handle? id with
  | none => rfl
  | some h =>
    by_cases hr : h.reclaimable = true
    · simp only [if_pos hr, current_freeHandle]
    · cases exit with
      | aborted => simp only [if_neg hr, current_loseLayout]
      | normal =>
        simp only [if_neg hr]
        cases parent <;> rfl

/-- Settling keeps the books. -/
theorem Counted.settle {a : Arena} (ha : a.Counted) (exit : FrameExit) (parent : Option FrameId)
    (id : HandleId) : (settle exit parent a id).Counted := by
  unfold Arena.settle
  cases a.handle? id with
  | none => exact ha
  | some h =>
    by_cases hr : h.reclaimable = true
    · simp only [if_pos hr]
      exact ha.freeHandle id
    · simp only [if_neg hr]
      cases exit with
      | aborted => exact ha.loseLayout id
      | normal =>
        have hmod := ha.modifyHandle id (f := fun h => { h with frame := parent }) fun _ => rfl
        cases parent with
        | none => exact hmod
        | some p => exact hmod.attach id p

/-- Over a list without repetitions each handle is settled once, and no other is touched. -/
theorem handle?_foldl_settle (exit : FrameExit) (parent : Option FrameId) {ids : List HandleId}
    (hnodup : ids.Nodup) (a : Arena) (other : HandleId) :
    (ids.foldl (settle exit parent) a).handle? other =
      if other ∈ ids then (a.handle? other).bind (settled exit parent) else a.handle? other := by
  induction ids generalizing a with
  | nil => simp
  | cons id rest ih =>
    obtain ⟨hnot, hrest⟩ := List.nodup_cons.mp hnodup
    rw [List.foldl_cons, ih hrest, handle?_settle]
    by_cases heq : other = id
    · subst heq
      simp [hnot]
    · simp [heq]

/-- The parent of a normal end gets the handles that are left, behind its own. -/
theorem frame?_foldl_settle (exit : FrameExit) (parent : Option FrameId) {ids : List HandleId}
    (hnodup : ids.Nodup) (a : Arena) (f : FrameId) :
    (ids.foldl (settle exit parent) a).frame? f =
      (a.frame? f).map fun frame =>
        { frame with
          handles := frame.handles ++
            if exit = .normal ∧ parent = some f then
              ids.filter fun id => ((a.handle? id).bind (settled exit parent)).isSome
            else [] } := by
  induction ids generalizing a with
  | nil => cases hf : a.frame? f <;> simp [hf]
  | cons id rest ih =>
    obtain ⟨hnot, hrest⟩ := List.nodup_cons.mp hnodup
    -- the rest of the list does not hold `id`, so settling `id` changes none of its handles
    have hsame : (rest.filter fun x =>
        (((settle exit parent a id).handle? x).bind (settled exit parent)).isSome) =
        rest.filter fun x => ((a.handle? x).bind (settled exit parent)).isSome := by
      apply List.filter_congr
      intro x hx
      have hne : x ≠ id := fun h => hnot (h ▸ hx)
      rw [handle?_settle, if_neg hne]
    rw [List.foldl_cons, ih hrest, hsame, frame?_settle, Option.map_map]
    congr 1
    funext frame
    by_cases hto : exit = .normal ∧ parent = some f
    · simp only [Function.comp, hto, true_and, if_true, List.filter_cons]
      split <;> simp
    · have hto' : ¬(exit = .normal ∧ parent = some f ∧
          ((a.handle? id).bind (settled exit parent)).isSome = true) :=
        fun h => hto ⟨h.1, h.2.1⟩
      simp only [Function.comp, if_neg hto, if_neg hto']

/-- Settling a whole list does not change which frame is current. -/
theorem current_foldl_settle (exit : FrameExit) (parent : Option FrameId) (ids : List HandleId)
    (a : Arena) : (ids.foldl (settle exit parent) a).current = a.current := by
  induction ids generalizing a with
  | nil => rfl
  | cons id rest ih => rw [List.foldl_cons, ih, current_settle]

/-- Settling a whole list keeps the books. -/
theorem Counted.foldl_settle {a : Arena} (ha : a.Counted) (exit : FrameExit)
    (parent : Option FrameId) (ids : List HandleId) :
    (ids.foldl (Arena.settle exit parent) a).Counted := by
  induction ids generalizing a with
  | nil => exact ha
  | cons id rest ih => exact ih (ha.settle exit parent id)

/-! ### Handles made, counted up and counted down -/

/-- A handle that is made was not there before. -/
theorem handle?_allocate_fresh {a : Arena} (ha : a.Counted) (layout : RowLayout) :
    a.handle? (a.allocate layout).1 = none := by
  have hfresh := Slots.find?_insert_fresh ha.handles
    { layout := some layout, refs := 1, frame := a.current, reclaimable := false }
  unfold allocate
  cases hcur : a.current <;> rw [hcur] at hfresh <;> exact hfresh

/-- A new handle has its layout and one reference, and belongs to the current frame. -/
theorem handle?_allocate {a : Arena} (ha : a.Counted) (layout : RowLayout) (id : HandleId) :
    (a.allocate layout).2.handle? id =
      if id = (a.allocate layout).1 then
        some { layout := some layout, refs := 1, frame := a.current, reclaimable := false }
      else a.handle? id := by
  have hfind := Slots.find?_insert ha.handles
    { layout := some layout, refs := 1, frame := a.current, reclaimable := false } id.slot
  unfold allocate
  simp only [← HandleId.slot_inj]
  cases hcur : a.current <;> rw [hcur] at hfind <;> exact hfind

/-- A new handle goes to the end of the list of the current frame. -/
theorem frame?_allocate (a : Arena) (layout : RowLayout) (f : FrameId) :
    (a.allocate layout).2.frame? f =
      if a.current = some f then
        (a.frame? f).map fun frame =>
          { frame with handles := frame.handles ++ [(a.allocate layout).1] }
      else a.frame? f := by
  unfold allocate
  cases hcur : a.current with
  | none => rfl
  | some g =>
    simp only [frame?_attach, Option.some.injEq]
    by_cases hg : f = g
    · subst hg
      simp only [if_true]
      rfl
    · rw [if_neg hg, if_neg (Ne.symm hg)]
      rfl

/-- Making a handle does not change which frame is current. -/
theorem current_allocate (a : Arena) (layout : RowLayout) :
    (a.allocate layout).2.current = a.current := by
  unfold allocate
  cases a.current <;> rfl

/-- A new handle is counted with its layout. -/
theorem Counted.allocate {a : Arena} (ha : a.Counted) (layout : RowLayout) :
    (a.allocate layout).2.Counted := by
  have hcount := Slots.countOf_insert ha.handles
    { layout := some layout, refs := 1, frame := a.current, reclaimable := false }
    fun h => h.layout.isSome
  have hmade : Counted { a with
      handles := (a.handles.insert
        { layout := some layout, refs := 1, frame := a.current, reclaimable := false }).2
      liveLayouts := a.liveLayouts + 1 } := by
    refine ⟨ha.handles.insert _, ha.frames, ?_⟩
    rw [hcount, ha.layouts]
    rfl
  unfold Arena.allocate
  cases hcur : a.current with
  | none =>
    rw [hcur] at hmade
    exact hmade
  | some f =>
    rw [hcur] at hmade
    exact hmade.attach _ f

/-- A reference more, on the handle that is named and on no other. -/
theorem handle?_retain (a : Arena) (id other : HandleId) :
    (a.retain id).handle? other =
      if other = id then
        (a.handle? id).map fun h => { h with refs := h.refs + 1, reclaimable := false }
      else a.handle? other :=
  handle?_modifyHandle a id other _

/-- What becomes of a handle that a reference is taken from; `active` tells whether its frame is
still active. -/
def released (active : FrameId → Bool) (h : Handle) : Option Handle :=
  if 0 < h.refs - 1 then some { h with refs := h.refs - 1 }
  else if h.frame.any active then some { h with refs := h.refs - 1, reclaimable := true }
  else none

/-- A reference less, on the handle that is named and on no other. -/
theorem handle?_release (a : Arena) (id other : HandleId) :
    (a.release id).handle? other =
      if other = id then (a.handle? id).bind (released a.isActive) else a.handle? other := by
  unfold release
  cases hv : a.handle? id with
  | none => exact handle?_of_none hv other
  | some h =>
    simp only [Option.bind_some, released]
    by_cases hrefs : 0 < h.refs - 1
    · simp only [if_pos hrefs, handle?_modifyHandle, hv, Option.map_some]
    · simp only [if_neg hrefs]
      cases hf : h.frame with
      | none =>
        simp only [handle?_freeHandle, handle?_modifyHandle, Option.any_none]
        by_cases heq : other = id <;> simp [heq]
      | some f =>
        show (if a.isActive f = true then _ else _ : Arena).handle? other = _
        by_cases hact : a.isActive f = true
        · simp only [if_pos hact, handle?_modifyHandle, hv, Option.map_some, Option.any_some]
          by_cases heq : other = id <;> simp [heq, hf]
        · simp only [if_neg hact, handle?_freeHandle, handle?_modifyHandle, Option.any_some]
          by_cases heq : other = id <;> simp [heq]

/-- Taking a reference away leaves the frames, and which of them is current. -/
theorem frames_release (a : Arena) (id : HandleId) :
    (a.release id).frames = a.frames ∧ (a.release id).current = a.current := by
  have hfree : ∀ b : Arena, (b.freeHandle id).frames = b.frames ∧
      (b.freeHandle id).current = b.current := by
    intro b
    unfold freeHandle
    cases b.handle? id <;> exact ⟨rfl, rfl⟩
  unfold release
  cases a.handle? id with
  | none => exact ⟨rfl, rfl⟩
  | some h =>
    simp only
    split
    · exact ⟨rfl, rfl⟩
    · split
      · split
        · exact ⟨rfl, rfl⟩
        · exact hfree _
      · exact hfree _

/-- Taking a reference away keeps the books. -/
theorem Counted.release {a : Arena} (ha : a.Counted) (id : HandleId) : (a.release id).Counted := by
  unfold Arena.release
  cases a.handle? id with
  | none => exact ha
  | some h =>
    have hmod := ha.modifyHandle id (f := fun h' => { h' with refs := h.refs - 1 }) fun _ => rfl
    simp only
    split
    · exact hmod
    · split
      · split
        · exact hmod.modifyHandle id fun _ => rfl
        · exact hmod.freeHandle id
      · exact hmod.freeHandle id

end Arena

end StoredRoutine
