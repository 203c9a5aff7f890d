import StoredRoutine.Proofs.Lifetime.Arena

/-!
# `StoredRoutine.Proofs.Lifetime.Sound`: the invariant of the arena

`Arena.Sound a stack held` relates an arena to the stack of its active frames, innermost first, and
to the references that are outstanding, one entry for each. Every operation keeps it:

* `Sound.pushFrame` and `Sound.popFrame` for the stack; a pop settles exactly the handles that the
  ended frame owns (`Sound.popFrame_spec`), and no other frame can be popped
  (`popFrame_of_current_ne`);
* `Sound.allocate`, `Sound.retain` and `Sound.release` for the references.

Half of the invariant is about one handle at a time. `Fits` is this half, and `Sound.of_fits` puts
it back together with the part about the frames: an operation is followed through the handles once,
by what it makes of a handle that fits.

It follows that nothing leaks: with no frame and no reference left there is no handle and no layout
(`Sound.no_leak`).
-/

set_option autoImplicit false

namespace StoredRoutine.Arena

variable {a : Arena} {stack : List FrameId} {held : List HandleId}

/-! ### The stack of frames -/

/-- The frames that are reached from the given one by going from a frame to its parent. -/
def IsStack (a : Arena) : Option FrameId → List FrameId → Prop
  | current, [] => current = none
  | current, id :: rest =>
    current = some id ∧ ∃ frame, a.frame? id = some frame ∧ IsStack a frame.parent rest

/-- The parents of frames decide what the stack is. -/
theorem IsStack.congr {b : Arena} {current : Option FrameId} (h : IsStack a current stack)
    (hsame : ∀ f ∈ stack, (b.frame? f).map (·.parent) = (a.frame? f).map (·.parent)) :
    IsStack b current stack := by
  induction stack generalizing current with
  | nil => exact h
  | cons id rest ih =>
    obtain ⟨hcurrent, frame, hframe, hrest⟩ := h
    have hid := hsame id List.mem_cons_self
    rw [hframe, Option.map_some, Option.map_eq_some_iff] at hid
    obtain ⟨frame', hframe', hparent⟩ := hid
    refine ⟨hcurrent, frame', hframe', ?_⟩
    rw [hparent]
    exact ih hrest fun f hf => hsame f (List.mem_cons_of_mem id hf)

/-- The current frame is the top of the stack. -/
theorem IsStack.current_eq {current : Option FrameId} (h : IsStack a current stack) :
    current = stack.head? := by
  cases stack with
  | nil => exact h
  | cons id rest => exact h.1

/-! ### The invariant -/

/-- An arena with the given stack of frames, of whose handles the given references are
outstanding. -/
structure Sound (a : Arena) (stack : List FrameId) (held : List HandleId) : Prop
    extends Counted a where
  /-- The stack is the parent chain of the current frame, -/
  chain : IsStack a a.current stack
  nodup : stack.Nodup
  /-- and it holds every active frame. -/
  active : ∀ f, (a.frame? f).isSome ↔ f ∈ stack
  /-- A handle counts the references to it that are outstanding, -/
  refs : ∀ {id h}, a.handle? id = some h → h.refs = held.count id
  /-- and is kept while there is one. -/
  kept : ∀ {id}, id ∈ held → (a.handle? id).isSome
  /-- A handle waits for its frame to end exactly while nothing refers to it. -/
  reclaimable_iff : ∀ {id h}, a.handle? id = some h → (h.reclaimable = true ↔ h.refs = 0)
  /-- It does so only in a frame, -/
  reclaimable_attached : ∀ {id h}, a.handle? id = some h → h.reclaimable = true → h.frame.isSome
  /-- and a handle in a frame has its layout. -/
  attached_layout : ∀ {id h}, a.handle? id = some h → h.frame.isSome → h.layout.isSome
  /-- The list of a frame names the handles of this frame, each of them once, -/
  listed : ∀ {f frame}, a.frame? f = some frame →
    frame.handles.Nodup ∧ ∀ id, id ∈ frame.handles ↔ ∃ h, a.handle? id = some h ∧ h.frame = some f
  /-- and a handle is in no frame that has ended. -/
  frame_mem : ∀ {id h f}, a.handle? id = some h → h.frame = some f → f ∈ stack

/-- The empty arena, without frames and references. -/
theorem sound_empty : empty.Sound [] [] where
  toCounted := counted_empty
  chain := rfl
  nodup := List.nodup_nil
  active f := by simp [frame?_empty]
  refs h := by simp [handle?_empty] at h
  kept h := by simp at h
  reclaimable_iff h := by simp [handle?_empty] at h
  reclaimable_attached h := by simp [handle?_empty] at h
  attached_layout h := by simp [handle?_empty] at h
  listed h := by simp [frame?_empty] at h
  frame_mem h := by simp [handle?_empty] at h

/-- What the invariant says about one handle of the given name. -/
structure Fits (stack : List FrameId) (held : List HandleId) (id : HandleId) (x : Handle) :
    Prop where
  refs : x.refs = held.count id
  reclaimable_iff : x.reclaimable = true ↔ x.refs = 0
  reclaimable_attached : x.reclaimable = true → x.frame.isSome
  attached_layout : x.frame.isSome → x.layout.isSome
  frame_mem : ∀ {f}, x.frame = some f → f ∈ stack

/-- Every handle of a sound arena fits. -/
theorem Sound.fits (h : a.Sound stack held) {id : HandleId} {x : Handle}
    (hx : a.handle? id = some x) : Fits stack held id x where
  refs := h.refs hx
  reclaimable_iff := h.reclaimable_iff hx
  reclaimable_attached := h.reclaimable_attached hx
  attached_layout := h.attached_layout hx
  frame_mem := h.frame_mem hx

/-- The list of a frame names the handles of this frame, each of them once. -/
def Lists (a : Arena) (f : FrameId) (ids : List HandleId) : Prop :=
  ids.Nodup ∧ ∀ id, id ∈ ids ↔ ∃ x, a.handle? id = some x ∧ x.frame = some f

/-- An arena of whose handles each one fits is sound if its frames are. -/
theorem Sound.of_fits (hcounted : a.Counted) (hchain : IsStack a a.current stack)
    (hnodup : stack.Nodup) (hactive : ∀ f, (a.frame? f).isSome ↔ f ∈ stack)
    (hkept : ∀ {id}, id ∈ held → (a.handle? id).isSome)
    (hlisted : ∀ {f frame}, a.frame? f = some frame → a.Lists f frame.handles)
    (hfits : ∀ {id x}, a.handle? id = some x → Fits stack held id x) : a.Sound stack held where
  toCounted := hcounted
  chain := hchain
  nodup := hnodup
  active := hactive
  refs hx := (hfits hx).refs
  kept := hkept
  reclaimable_iff hx := (hfits hx).reclaimable_iff
  reclaimable_attached hx := (hfits hx).reclaimable_attached
  attached_layout hx := (hfits hx).attached_layout
  listed := hlisted
  frame_mem hx := (hfits hx).frame_mem

/-- A frame on top of the stack does not concern a handle that fits. -/
theorem Fits.push {id : HandleId} {x : Handle} (h : Fits stack held id x) (f : FrameId) :
    Fits (f :: stack) held id x where
  refs := h.refs
  reclaimable_iff := h.reclaimable_iff
  reclaimable_attached := h.reclaimable_attached
  attached_layout := h.attached_layout
  frame_mem hf := List.mem_cons_of_mem f (h.frame_mem hf)

/-- A reference to one handle does not concern the others. -/
theorem fits_cons_of_ne {id other : HandleId} {x : Handle} (hne : other ≠ id) :
    Fits stack (id :: held) other x ↔ Fits stack held other x := by
  have hcount : (id :: held).count other = held.count other :=
    List.count_cons_of_ne (Ne.symm hne)
  constructor <;> intro h
  · exact { h with refs := hcount ▸ h.refs }
  · exact { h with refs := hcount.symm ▸ h.refs }

/-- In which order the references are listed does not matter. -/
theorem Sound.perm {held' : List HandleId} (h : a.Sound stack held) (hperm : held.Perm held') :
    a.Sound stack held' :=
  Sound.of_fits h.toCounted h.chain h.nodup h.active
    (fun hid => h.kept (hperm.mem_iff.mpr hid)) h.listed
    fun hx => { h.fits hx with refs := (h.refs hx).trans (hperm.count_eq _) }

/-- The current frame is the top of the stack. -/
theorem Sound.current_eq (h : a.Sound stack held) : a.current = stack.head? := h.chain.current_eq

/-- A handle is live exactly while it is referred to or waits for its frame to end. -/
theorem Sound.live_iff (h : a.Sound stack held) (id : HandleId) :
    (a.handle? id).isSome ↔
      0 < held.count id ∨ ∃ x, a.handle? id = some x ∧ x.reclaimable = true := by
  constructor
  · intro hsome
    obtain ⟨x, hx⟩ := Option.isSome_iff_exists.mp hsome
    by_cases hzero : x.refs = 0
    · exact Or.inr ⟨x, hx, (h.reclaimable_iff hx).mpr hzero⟩
    · left
      have hrefs := h.refs hx
      omega
  · rintro (hpos | ⟨x, hx, -⟩)
    · exact h.kept (List.count_pos_iff.mp hpos)
    · rw [hx]
      rfl

/-- A handle with a reference does not wait for its frame to end. -/
theorem Sound.not_reclaimable (h : a.Sound stack held) {id : HandleId} {x : Handle}
    (hid : id ∈ held) (hx : a.handle? id = some x) : x.reclaimable = false := by
  have hpos := List.count_pos_iff.mpr hid
  have hrefs := h.refs hx
  cases hr : x.reclaimable with
  | false => rfl
  | true =>
    have hzero := (h.reclaimable_iff hx).mp hr
    omega

/-- Without frames and without references there are neither handles nor layouts. -/
theorem Sound.no_leak (h : a.Sound [] []) : a.liveHandles = 0 ∧ a.liveLayouts = 0 := by
  have hnone : ∀ id, a.handles.find? id = none := by
    intro id
    cases hx : a.handles.find? id with
    | none => rfl
    | some x =>
      have hx : a.handle? ⟨id⟩ = some x := hx
      have hzero : x.refs = 0 := h.refs hx
      have hframe := h.reclaimable_attached hx ((h.reclaimable_iff hx).mpr hzero)
      obtain ⟨f, hf⟩ := Option.isSome_iff_exists.mp hframe
      exact absurd (h.frame_mem hx hf) List.not_mem_nil
  constructor
  · exact (Slots.size_eq_countOf _).trans (Slots.countOf_eq_zero hnone _)
  · exact h.layouts.trans (Slots.countOf_eq_zero hnone _)

/-! ### Pushing a frame -/

/-- A frame that is pushed on a stack is not on it. -/
theorem Sound.pushFrame_not_mem (h : a.Sound stack held) : a.pushFrame.1 ∉ stack := by
  rw [← h.active, frame?_pushFrame_fresh h.toCounted]
  exact Bool.false_ne_true

/-- A pushed frame comes on top of the stack. -/
theorem Sound.pushFrame (h : a.Sound stack held) :
    a.pushFrame.2.Sound (a.pushFrame.1 :: stack) held := by
  have hframe := frame?_pushFrame h.toCounted
  have hnew := h.pushFrame_not_mem
  refine Sound.of_fits h.toCounted.pushFrame ?chain ?nodup ?active h.kept ?listed
    fun hx => (h.fits hx).push _
  case chain =>
    refine ⟨rfl, _, by rw [hframe, if_pos rfl], h.chain.congr fun f hf => ?_⟩
    have hne : f ≠ a.pushFrame.1 := fun heq => hnew (heq ▸ hf)
    rw [hframe, if_neg hne]
  case nodup => exact List.nodup_cons.mpr ⟨hnew, h.nodup⟩
  case active =>
    intro f
    rw [hframe, List.mem_cons, ← h.active]
    by_cases heq : f = a.pushFrame.1 <;> simp [heq]
  case listed =>
    intro f frame hf
    rw [hframe] at hf
    by_cases heq : f = a.pushFrame.1
    · -- no handle is in the new frame yet
      rw [if_pos heq] at hf
      obtain rfl := Option.some.inj hf
      refine ⟨List.nodup_nil, fun id => ⟨fun hid => absurd hid List.not_mem_nil, ?_⟩⟩
      rintro ⟨x, hx, hxf⟩
      exact absurd (heq ▸ h.frame_mem hx hxf) hnew
    · rw [if_neg heq] at hf
      exact h.listed hf

/-! ### Popping a frame -/

/-- A frame that is not the current one cannot be popped. -/
theorem popFrame_of_current_ne {id : FrameId} (hne : a.current ≠ some id) (exit : FrameExit) :
    a.popFrame id exit = .error (.protocol "invocation frame popped out of order") := by
  unfold popFrame
  rw [if_neg hne]

/-- What is left of a handle of a frame that ended. -/
theorem settled_eq_some {exit : FrameExit} {parent : Option FrameId} {h h' : Handle} :
    settled exit parent h = some h' ↔
      h.reclaimable = false ∧
        h' = { h with
          layout := if exit = .aborted then none else h.layout
          frame := if exit = .aborted then none else parent } := by
  unfold settled
  cases hr : h.reclaimable <;> cases exit <;> simp [eq_comm]

/-- The handles of the ended frame are settled, the handles of the other frames are as they were,
and the enclosing frame takes over what is left after a normal end. -/
theorem Sound.popFrame_spec {id : FrameId} {rest : List FrameId}
    (h : a.Sound (id :: rest) held) (exit : FrameExit) :
    ∃ a' frame, a.popFrame id exit = .ok a' ∧ a'.Counted ∧ a'.current = rest.head? ∧
      a.frame? id = some frame ∧
      (∀ x, a'.handle? x = (a.handle? x).bind fun hd =>
        if hd.frame = some id then settled exit rest.head? hd else some hd) ∧
      ∀ f, a'.frame? f = if f = id then none else (a.frame? f).map fun fr =>
        { fr with
          handles := fr.handles ++
            if exit = .normal ∧ rest.head? = some f then
              frame.handles.filter fun x => ((a.handle? x).bind (settled exit rest.head?)).isSome
            else [] } := by
  obtain ⟨hcurrent, frame, hframe, hrest⟩ := h.chain
  obtain ⟨hnodup, hmem⟩ := h.listed hframe
  have hparent : frame.parent = rest.head? := hrest.current_eq
  let erased : Arena :=
    { a with frames := a.frames.erase id.slot, current := frame.parent }
  have herased : ∀ f, erased.frame? f = if f = id then none else a.frame? f := by
    intro f
    show (a.frames.erase id.slot).find? f.slot = _
    rw [Slots.find?_erase]
    simp only [FrameId.slot_inj, Arena.frame?]
  -- the parent is another frame, so it is still active
  have hfilter : frame.parent.filter erased.isActive = rest.head? := by
    rw [hparent]
    cases rest with
    | nil => rfl
    | cons p below =>
      have hne : p ≠ id := by
        rintro rfl
        exact (List.nodup_cons.mp h.nodup).1 List.mem_cons_self
      have hactive : (a.frame? p).isSome := (h.active p).mpr (by simp)
      simp [Option.filter, isActive_eq, herased, hne, hactive]
  refine ⟨frame.handles.foldl (settle exit rest.head?) erased, frame, ?_, ?_, ?_, hframe, ?_, ?_⟩
  · unfold Arena.popFrame
    have hfind : a.frames.find? id.slot = some frame := hframe
    rw [if_pos hcurrent, hfind]
    show Except.ok (frame.handles.foldl (settle exit (frame.parent.filter erased.isActive)) erased)
      = _
    rw [hfilter]
  · have hcounted : erased.Counted := ⟨h.handles, h.frames.erase id.slot, h.layouts⟩
    exact hcounted.foldl_settle exit rest.head? frame.handles
  · rw [current_foldl_settle]
    exact hparent
  · intro x
    rw [handle?_foldl_settle _ _ hnodup]
    show (if x ∈ frame.handles then (a.handle? x).bind (settled exit rest.head?)
      else a.handle? x) = _
    cases hx : a.handle? x with
    | none => simp
    | some hd =>
      have hin : x ∈ frame.handles ↔ hd.frame = some id := by
        rw [hmem x, hx]
        simp
      simp only [Option.bind_some, hin]
  · intro f
    rw [frame?_foldl_settle _ _ hnodup, herased]
    by_cases heq : f = id
    · simp [heq]
    · simp only [if_neg heq]
      rfl

section PopFrame

variable {x : HandleId} {top : FrameId} {rest : List FrameId} {exit : FrameExit}

/-- A handle of another frame fits the stack below the one that ended. -/
theorem Fits.of_frame_ne {hd : Handle} (h : Fits (top :: rest) held x hd)
    (hne : hd.frame ≠ some top) : Fits rest held x hd where
  refs := h.refs
  reclaimable_iff := h.reclaimable_iff
  reclaimable_attached := h.reclaimable_attached
  attached_layout := h.attached_layout
  frame_mem {f} hf := by
    rcases List.mem_cons.mp (h.frame_mem hf) with heq | hin
    · exact absurd (heq ▸ hf) hne
    · exact hin

/-- So does what is left of a handle of the ended frame. -/
theorem Fits.settled {hd left : Handle} (h : Fits (top :: rest) held x hd)
    (hf : hd.frame = some top) (hleft : settled exit rest.head? hd = some left) :
    Fits rest held x left := by
  obtain ⟨hr, rfl⟩ := settled_eq_some.mp hleft
  refine ⟨h.refs, h.reclaimable_iff, ?_, ?_, ?_⟩
  · intro hr'
    exact absurd (hr.symm.trans hr') Bool.false_ne_true
  · intro hattached
    cases exit with
    | normal => exact h.attached_layout (by rw [hf]; rfl)
    | aborted => exact nomatch hattached
  · intro f hf'
    cases exit with
    | normal => exact List.mem_of_mem_head? hf'
    | aborted => exact nomatch hf'

/-- The handles that a frame takes over from an inner one that ended: those that are left of it, if
the frame is the one to take them. -/
theorem mem_takenOver {f : FrameId} {ended : List HandleId}
    (hlists : a.Lists top ended) :
    (x ∈ if exit = .normal ∧ rest.head? = some f then
        ended.filter fun x => ((a.handle? x).bind (settled exit rest.head?)).isSome
      else []) ↔
    ∃ hd left, a.handle? x = some hd ∧ hd.frame = some top ∧
      settled exit rest.head? hd = some left ∧ left.frame = some f := by
  constructor
  · intro hx
    split at hx
    next hto =>
      obtain ⟨hin, hsome⟩ := List.mem_filter.mp hx
      obtain ⟨hd, hhd, hf⟩ := (hlists.2 x).mp hin
      rw [hhd, Option.bind_some, Option.isSome_iff_exists] at hsome
      obtain ⟨left, hleft⟩ := hsome
      refine ⟨hd, left, hhd, hf, hleft, ?_⟩
      rw [(settled_eq_some.mp hleft).2]
      simp [hto.1, hto.2]
    next => exact absurd hx List.not_mem_nil
  · rintro ⟨hd, left, hhd, hf, hleft, hto⟩
    -- after an error no handle is left in a frame, so the end was a normal one
    have hmoved := (settled_eq_some.mp hleft).2 ▸ hto
    cases exit with
    | aborted => exact nomatch hmoved
    | normal =>
      rw [if_pos ⟨rfl, hmoved⟩, List.mem_filter]
      exact ⟨(hlists.2 x).mpr ⟨hd, hhd, hf⟩, by rw [hhd, Option.bind_some, hleft]; rfl⟩

/-- A handle that is found after a frame ended was in another frame, or is what is left of one in
the ended frame. -/
theorem eq_some_of_popFrame {x? : Option Handle} {y : Handle} :
    (x?.bind fun hd => if hd.frame = some top then settled exit rest.head? hd else some hd) =
        some y ↔
      (x? = some y ∧ y.frame ≠ some top) ∨
        ∃ hd, x? = some hd ∧ hd.frame = some top ∧ settled exit rest.head? hd = some y := by
  rw [Option.bind_eq_some_iff]
  constructor
  · rintro ⟨hd, hhd, hy⟩
    split at hy
    next hf => exact .inr ⟨hd, hhd, hf, hy⟩
    next hf =>
      obtain rfl := Option.some.inj hy
      exact .inl ⟨hhd, hf⟩
  · rintro (⟨hy, hf⟩ | ⟨hd, hhd, hf, hy⟩)
    · exact ⟨y, hy, by rw [if_neg hf]⟩
    · exact ⟨hd, hhd, by rw [if_pos hf, hy]⟩

/-- A frame that lists its handles lists them still when those that it takes over are put behind
them. -/
theorem Lists.append_takenOver {b : Arena} {f : FrameId} {ids ended : List HandleId}
    (hids : a.Lists f ids) (hended : a.Lists top ended) (hne : f ≠ top)
    (hhandle : ∀ x, b.handle? x = (a.handle? x).bind fun hd =>
      if hd.frame = some top then settled exit rest.head? hd else some hd) :
    b.Lists f (ids ++ if exit = .normal ∧ rest.head? = some f then
      ended.filter fun x => ((a.handle? x).bind (settled exit rest.head?)).isSome else []) := by
  have hother : ∀ {hd : Handle}, hd.frame = some f → hd.frame ≠ some top := by
    intro hd hf htop
    exact hne (Option.some.inj (hf.symm.trans htop))
  refine ⟨List.nodup_append'.mpr ⟨hids.1, ?_, ?_⟩, fun x => ?_⟩
  · split
    · exact hended.1.filter _
    · exact List.nodup_nil
  · intro x hx hx'
    obtain ⟨hd, hhd, hf⟩ := (hids.2 x).mp hx
    obtain ⟨hd', -, hhd', htop, -⟩ := (mem_takenOver hended).mp hx'
    obtain rfl := Option.some.inj (hhd.symm.trans hhd')
    exact hother hf htop
  · rw [List.mem_append, hids.2 x, mem_takenOver hended]
    simp only [hhandle, eq_some_of_popFrame]
    constructor
    · rintro (⟨hd, hhd, hf⟩ | ⟨hd, left, hhd, htop, hleft, hf⟩)
      · exact ⟨hd, .inl ⟨hhd, hother hf⟩, hf⟩
      · exact ⟨left, .inr ⟨hd, hhd, htop, hleft⟩, hf⟩
    · rintro ⟨y, ⟨hy, -⟩ | ⟨hd, hhd, htop, hleft⟩, hf⟩
      · exact .inl ⟨y, hy, hf⟩
      · exact .inr ⟨hd, y, hhd, htop, hleft, hf⟩

/-- Popping the current frame leaves the stack below it. -/
theorem Sound.popFrame (h : a.Sound (top :: rest) held) (exit : FrameExit) :
    ∃ a', a.popFrame top exit = .ok a' ∧ a'.Sound rest held := by
  obtain ⟨a', ended, hpop, hcounted, hcurrent, hended, hhandle, hframe⟩ := h.popFrame_spec exit
  obtain ⟨hnotin, hrest⟩ := List.nodup_cons.mp h.nodup
  refine ⟨a', hpop, Sound.of_fits hcounted ?chain hrest ?active ?kept ?listed ?fits⟩
  case chain =>
    obtain ⟨-, frame, hfr, hchain⟩ := h.chain
    have hparent := hchain.current_eq
    rw [hcurrent, ← hparent]
    refine hchain.congr fun f hf => ?_
    have hne : f ≠ top := fun heq => hnotin (heq ▸ hf)
    rw [hframe, if_neg hne, Option.map_map]
    rfl
  case active =>
    intro f
    rw [hframe]
    by_cases heq : f = top
    · simp [heq, hnotin]
    · rw [if_neg heq, Option.isSome_map, h.active, List.mem_cons]
      simp [heq]
  case kept =>
    -- a handle with a reference does not wait for its frame to end, so it is not freed here
    intro x hx
    obtain ⟨hd, hhd⟩ := Option.isSome_iff_exists.mp (h.kept hx)
    have hr := h.not_reclaimable hx hhd
    rw [hhandle, hhd, Option.bind_some]
    split
    · rw [settled_eq_some.mpr ⟨hr, rfl⟩]
      rfl
    · rfl
  case listed =>
    intro f frame' hf'
    rw [hframe] at hf'
    by_cases heq : f = top
    · rw [if_pos heq] at hf'
      exact nomatch hf'
    · rw [if_neg heq, Option.map_eq_some_iff] at hf'
      obtain ⟨frame, hf, rfl⟩ := hf'
      have hlists : a.Lists f frame.handles := h.listed hf
      exact hlists.append_takenOver (h.listed hended) heq hhandle
  case fits =>
    intro x y hy
    rw [hhandle, eq_some_of_popFrame] at hy
    rcases hy with ⟨hy, hne⟩ | ⟨hd, hhd, htop, hleft⟩
    · exact (h.fits hy).of_frame_ne hne
    · exact (h.fits hhd).settled htop hleft

end PopFrame

/-! ### References -/

/-- A handle that is made in the current frame fits, with the first reference to it. -/
theorem Sound.fits_new (h : a.Sound stack held) (layout : RowLayout) {id : HandleId}
    (hnot : id ∉ held) :
    Fits stack (id :: held) id
      { layout := some layout, refs := 1, frame := a.current, reclaimable := false } where
  refs := by rw [List.count_cons_self, List.count_eq_zero.mpr hnot]
  reclaimable_iff := by simp
  reclaimable_attached hr := nomatch hr
  attached_layout _ := rfl
  frame_mem hf := List.mem_of_mem_head? (h.current_eq ▸ hf)

/-- The current frame lists the new handle behind the others, and the other frames do not list
it. -/
theorem Sound.listed_allocate (h : a.Sound stack held) (layout : RowLayout) {f : FrameId}
    {frame : Frame} (hf : (a.allocate layout).2.frame? f = some frame) :
    (a.allocate layout).2.Lists f frame.handles := by
  have hfresh := handle?_allocate_fresh h.toCounted layout
  rw [frame?_allocate] at hf
  by_cases hcur : a.current = some f
  · rw [if_pos hcur, Option.map_eq_some_iff] at hf
    obtain ⟨before, hbefore, rfl⟩ := hf
    obtain ⟨hnodup, hmem⟩ := h.listed hbefore
    have hout : (a.allocate layout).1 ∉ before.handles := by
      rw [hmem, hfresh]
      simp
    refine ⟨List.nodup_append'.mpr
      ⟨hnodup, List.nodup_singleton _, List.disjoint_singleton.mpr hout⟩, fun x => ?_⟩
    rw [List.mem_append, List.mem_singleton, hmem, handle?_allocate h.toCounted]
    by_cases heq : x = (a.allocate layout).1
    · simp [heq, hcur]
    · simp [heq]
  · rw [if_neg hcur] at hf
    obtain ⟨hnodup, hmem⟩ := h.listed hf
    refine ⟨hnodup, fun x => ?_⟩
    rw [hmem, handle?_allocate h.toCounted]
    by_cases heq : x = (a.allocate layout).1
    · simp [heq, hcur, hfresh]
    · simp [heq]

/-- A new handle comes with one reference. -/
theorem Sound.allocate (h : a.Sound stack held) (layout : RowLayout) :
    (a.allocate layout).2.Sound stack ((a.allocate layout).1 :: held) := by
  have hhandle := handle?_allocate h.toCounted layout
  have hframe := frame?_allocate a layout
  -- a handle to which there is a reference is live, so its identifier is not a new one
  have hnot : (a.allocate layout).1 ∉ held := by
    intro hin
    have hkept := h.kept hin
    rw [handle?_allocate_fresh h.toCounted layout] at hkept
    exact Bool.false_ne_true hkept
  refine Sound.of_fits (h.toCounted.allocate layout) ?chain h.nodup ?active ?kept
    (h.listed_allocate layout) ?fits
  case chain =>
    rw [current_allocate]
    refine h.chain.congr fun f _ => ?_
    rw [hframe]
    split
    · rw [Option.map_map]
      rfl
    · rfl
  case active =>
    intro f
    rw [hframe, ← h.active]
    split <;> simp
  case kept =>
    intro x hx
    rw [hhandle]
    split
    · rfl
    next hne => exact h.kept ((List.mem_cons.mp hx).resolve_left hne)
  case fits =>
    intro x hd hx
    rw [hhandle] at hx
    split at hx
    next heq =>
      obtain rfl := Option.some.inj hx
      rw [heq]
      exact h.fits_new layout hnot
    next hne => exact (fits_cons_of_ne hne).mpr (h.fits hx)

/-- A change of handles that keeps their frames keeps the lists of the frames. -/
theorem Sound.listed_congr (h : a.Sound stack held) {b : Arena}
    (hframes : ∀ f, b.frame? f = a.frame? f)
    (hsame : ∀ x, (b.handle? x).bind (·.frame) = (a.handle? x).bind (·.frame)) {f : FrameId}
    {frame : Frame} (hf : b.frame? f = some frame) : b.Lists f frame.handles := by
  rw [hframes] at hf
  obtain ⟨hnodup, hmem⟩ := h.listed hf
  refine ⟨hnodup, fun id => ?_⟩
  rw [hmem, ← Option.bind_eq_some_iff, ← Option.bind_eq_some_iff, hsame]

/-- A handle that fits does so with a reference more. -/
theorem Fits.retain {id : HandleId} {x : Handle} (h : Fits stack held id x) :
    Fits stack (id :: held) id { x with refs := x.refs + 1, reclaimable := false } where
  refs := by rw [List.count_cons_self, h.refs]
  reclaimable_iff := by simp
  reclaimable_attached hr := nomatch hr
  attached_layout := h.attached_layout
  frame_mem := h.frame_mem

/-- A reference more to a handle that is already referred to. -/
theorem Sound.retain (h : a.Sound stack held) {id : HandleId} (hid : id ∈ held) :
    (a.retain id).Sound stack (id :: held) := by
  have hhandle := handle?_retain a id
  refine Sound.of_fits (h.toCounted.modifyHandle id fun _ => rfl) ?chain h.nodup h.active ?kept
    ?listed ?fits
  case chain => exact h.chain.congr fun f _ => rfl
  -- the handle is live as there is a reference to it already
  case kept =>
    intro x hx
    rw [hhandle]
    split
    · rw [Option.isSome_map]
      exact h.kept hid
    next hne => exact h.kept ((List.mem_cons.mp hx).resolve_left hne)
  case listed =>
    intro f frame hf
    refine h.listed_congr (b := a.retain id) (fun _ => rfl) (fun x => ?_) hf
    rw [hhandle]
    split
    next heq =>
      rw [heq]
      cases a.handle? id <;> rfl
    · rfl
  case fits =>
    intro x hd hx
    rw [hhandle] at hx
    split at hx
    next heq =>
      obtain ⟨hd', hhd', rfl⟩ := Option.map_eq_some_iff.mp hx
      exact heq ▸ (h.fits hhd').retain
    next hne => exact (fits_cons_of_ne hne).mpr (h.fits hx)

/-- While a handle is in a frame, this frame is active. -/
theorem Sound.any_isActive (h : a.Sound stack held) {id : HandleId} {x : Handle}
    (hx : a.handle? id = some x) : x.frame.any a.isActive = x.frame.isSome := by
  cases hf : x.frame with
  | none => rfl
  | some f => exact (h.active f).mpr (h.frame_mem hx hf)

/-- What a reference less makes of a handle: it is kept while there is another reference, or a frame
for whose end it has to wait. -/
theorem Sound.handle?_release_self {id : HandleId} (h : a.Sound stack (id :: held)) {x : Handle}
    (hx : a.handle? id = some x) :
    (a.release id).handle? id =
      if 0 < held.count id ∨ x.frame.isSome then
        some { x with refs := held.count id, reclaimable := held.count id == 0 }
      else none := by
  have hrefs : x.refs = held.count id + 1 := by
    rw [h.refs hx, List.count_cons_self]
  have hwaiting : x.reclaimable = false := h.not_reclaimable List.mem_cons_self hx
  rw [handle?_release, if_pos rfl, hx, Option.bind_some]
  unfold released
  rw [h.any_isActive hx, hrefs, Nat.add_sub_cancel]
  by_cases hpos : 0 < held.count id
  · have hne : (held.count id == 0) = false := beq_eq_false_iff_ne.mpr (Nat.ne_of_gt hpos)
    rw [if_pos hpos, if_pos (Or.inl hpos), hne, ← hwaiting]
  · have hzero : held.count id = 0 := Nat.eq_zero_of_not_pos hpos
    rw [if_neg hpos, hzero]
    cases x.frame <;> simp

/-- A handle that is kept fits with a reference less. -/
theorem Fits.release {id : HandleId} {x : Handle} (h : Fits stack (id :: held) id x)
    (hkeep : 0 < held.count id ∨ x.frame.isSome) :
    Fits stack held id { x with refs := held.count id, reclaimable := held.count id == 0 } where
  refs := rfl
  reclaimable_iff := beq_iff_eq
  reclaimable_attached hr := hkeep.resolve_left (Nat.not_lt.mpr (Nat.le_of_eq (beq_iff_eq.mp hr)))
  attached_layout := h.attached_layout
  frame_mem := h.frame_mem

/-- A reference less. A handle whose last reference it was is freed, unless it is in a frame. -/
theorem Sound.release {id : HandleId} (h : a.Sound stack (id :: held)) :
    (a.release id).Sound stack held := by
  obtain ⟨hframes, hcurrent⟩ := frames_release a id
  have hframe : ∀ f, (a.release id).frame? f = a.frame? f := by
    intro f
    unfold Arena.frame?
    rw [hframes]
  obtain ⟨own, hown⟩ := Option.isSome_iff_exists.mp (h.kept List.mem_cons_self)
  have hself := h.handle?_release_self hown
  have hother : ∀ {x}, x ≠ id → (a.release id).handle? x = a.handle? x := by
    intro x hne
    rw [handle?_release, if_neg hne]
  refine Sound.of_fits (h.toCounted.release id) ?chain h.nodup ?active ?kept ?listed ?fits
  case chain =>
    rw [hcurrent]
    refine h.chain.congr fun f _ => ?_
    rw [hframe]
  case active =>
    intro f
    rw [hframe]
    exact h.active f
  case kept =>
    intro x hx
    by_cases heq : x = id
    · subst heq
      rw [hself, if_pos (Or.inl (List.count_pos_iff.mpr hx))]
      rfl
    · rw [hother heq]
      exact h.kept (List.mem_cons_of_mem id hx)
  case listed =>
    intro f frame hf
    refine h.listed_congr hframe (fun x => ?_) hf
    by_cases heq : x = id
    · -- a handle that is freed was in no frame, so it is missing from no list
      subst heq
      rw [hself, hown]
      split
      · rfl
      next hfreed =>
        have hnone : own.frame = none := by
          rw [not_or, Bool.not_eq_true, Option.isSome_eq_false_iff, Option.isNone_iff_eq_none]
            at hfreed
          exact hfreed.2
        exact hnone.symm
    · rw [hother heq]
  case fits =>
    intro x hd hx
    by_cases heq : x = id
    · subst heq
      rw [hself] at hx
      split at hx
      next hkeep =>
        obtain rfl := Option.some.inj hx
        exact (h.fits hown).release hkeep
      next => exact nomatch hx
    · rw [hother heq] at hx
      exact (fits_cons_of_ne heq).mp (h.fits hx)

end StoredRoutine.Arena
