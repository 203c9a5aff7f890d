import StoredRoutine.Catalog.Entry
import StoredRoutine.Failure
import StoredRoutine.Lifetime.Slots

/-!
# `StoredRoutine.Lifetime.Arena`: row layouts and the call that owns them

Scripts reach the layout of a row through a handle. Handles are counted, and each is attached to
the call frame in which it was made. Frames form a stack. When a frame ends normally its handles
pass to the enclosing frame; when it is aborted they lose their layout, so that a row object that
outlives a failed call can be seen to be lost. A handle whose last reference goes away while its
frame is active is kept until the frame ends.
-/

set_option autoImplicit false

namespace StoredRoutine

/-- Names a frame. The identifier of a frame that has ended never names a later one. -/
structure FrameId where
  slot : SlotId
  deriving Repr, DecidableEq

/-- Names a handle. -/
structure HandleId where
  slot : SlotId
  deriving Repr, DecidableEq

/-- How a frame ends. -/
inductive FrameExit where
  /-- The body returned. -/
  | normal
  /-- The body raised an error. -/
  | aborted
  deriving Repr, DecidableEq

/-- A counted reference to a row layout. -/
structure Handle where
  layout : Option RowLayout
  refs : Nat
  /-- The frame that owns the handle. -/
  frame : Option FrameId
  /-- No reference is left, but the owning frame is still active. -/
  reclaimable : Bool
  deriving Repr

/-- A call frame: the handles it owns, and the frame around it. -/
structure Frame where
  handles : List HandleId
  parent : Option FrameId
  deriving Repr

/-- What can be observed of a handle. -/
structure HandleStatus where
  refs : Nat
  reclaimable : Bool
  attached : Bool
  hasLayout : Bool
  deriving Repr, DecidableEq

/-- The handles and the stack of frames. -/
structure Arena where
  handles : Slots Handle := {}
  frames : Slots Frame := {}
  /-- The innermost frame. -/
  current : Option FrameId := none
  /-- The number of handles that still have their layout. -/
  liveLayouts : Nat := 0
  deriving Repr

namespace Arena

/-- The arena without frames and handles. -/
def empty : Arena := {}

/-- The handle of the given name, while it is kept. -/
def handle? (a : Arena) (id : HandleId) : Option Handle := a.handles.find? id.slot

/-- Whether a frame is active. -/
def isActive (a : Arena) (id : FrameId) : Bool := (a.frames.find? id.slot).isSome

/-- Changes a handle. -/
def modifyHandle (a : Arena) (id : HandleId) (f : Handle → Handle) : Arena :=
  { a with handles := a.handles.modify id.slot f }

/-- Appends a handle to the list of a frame. -/
def attach (a : Arena) (id : HandleId) (frame : FrameId) : Arena :=
  { a with frames := a.frames.modify frame.slot fun f => { f with handles := f.handles ++ [id] } }

/-- Gives a handle up. -/
def freeHandle (a : Arena) (id : HandleId) : Arena :=
  match a.handle? id with
  | none => a
  | some h =>
    { a with
      handles := a.handles.erase id.slot
      liveLayouts := if h.layout.isSome then a.liveLayouts - 1 else a.liveLayouts }

/-- Takes the layout from a handle and detaches it. -/
def loseLayout (a : Arena) (id : HandleId) : Arena :=
  match a.handle? id with
  | none => a
  | some h =>
    { a.modifyHandle id fun h => { h with layout := none, frame := none } with
      liveLayouts := if h.layout.isSome then a.liveLayouts - 1 else a.liveLayouts }

/-- Starts a frame inside the current one. -/
def pushFrame (a : Arena) : FrameId × Arena :=
  let (slot, frames) := a.frames.insert { handles := [], parent := a.current }
  (⟨slot⟩, { a with frames, current := some ⟨slot⟩ })

/-- What happens to one handle of a frame that ends; `parent` is the frame around it, if it is
active. -/
def settle (exit : FrameExit) (parent : Option FrameId) (a : Arena) (id : HandleId) : Arena :=
  match a.handle? id with
  | none => a
  | some h =>
    if h.reclaimable then a.freeHandle id
    else
      match exit with
      | .aborted => a.loseLayout id
      | .normal =>
        let a := a.modifyHandle id fun h => { h with frame := parent }
        match parent with
        | none => a
        | some p => a.attach id p

/-- Ends a frame, which has to be the current one. -/
def popFrame (a : Arena) (id : FrameId) (exit : FrameExit) : Outcome Arena :=
  if a.current = some id then
    match a.frames.find? id.slot with
    | none => .error (.internal "current frame vanished")
    | some frame =>
      let a := { a with frames := a.frames.erase id.slot, current := frame.parent }
      let parent := frame.parent.filter a.isActive
      .ok (frame.handles.foldl (settle exit parent) a)
  else .error (.protocol "invocation frame popped out of order")

/-- Makes a handle with one reference, owned by the current frame. -/
def allocate (a : Arena) (layout : RowLayout) : HandleId × Arena :=
  let (slot, handles) := a.handles.insert
    { layout := some layout, refs := 1, frame := a.current, reclaimable := false }
  let id : HandleId := ⟨slot⟩
  let a := { a with handles, liveLayouts := a.liveLayouts + 1 }
  match a.current with
  | none => (id, a)
  | some frame => (id, a.attach id frame)

/-- Adds a reference. -/
def retain (a : Arena) (id : HandleId) : Arena :=
  a.modifyHandle id fun h => { h with refs := h.refs + 1, reclaimable := false }

/-- Takes a reference away. The last one frees the handle, or leaves it to its frame. -/
def release (a : Arena) (id : HandleId) : Arena :=
  match a.handle? id with
  | none => a
  | some h =>
    let refs := h.refs - 1
    let a := a.modifyHandle id fun h => { h with refs := refs }
    if 0 < refs then a
    else
      match h.frame with
      | some frame =>
        if a.isActive frame then a.modifyHandle id fun h => { h with reclaimable := true }
        else a.freeHandle id
      | none => a.freeHandle id

/-- The layout behind a handle, unless it was lost or the handle freed. -/
def layout? (a : Arena) (id : HandleId) : Option RowLayout := (a.handle? id).bind (·.layout)

/-- What can be observed of a handle; nothing once it is freed. -/
def status? (a : Arena) (id : HandleId) : Option HandleStatus :=
  (a.handle? id).map fun h =>
    { refs := h.refs, reclaimable := h.reclaimable, attached := h.frame.isSome,
      hasLayout := h.layout.isSome }

/-- The number of handles that are kept. -/
def liveHandles (a : Arena) : Nat := a.handles.size

end Arena

end StoredRoutine
