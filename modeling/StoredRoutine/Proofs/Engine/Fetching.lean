import StoredRoutine.Proofs.Engine.Iterators
import StoredRoutine.Proofs.Host.Portals

/-!
# `StoredRoutine.Proofs.Engine.Fetching`: what one call of an iterator does

An iterator hands out the row in front of its queue. If there is none, it fetches a batch: the first
row of it is handed out and the others are the new queue, or there is no row and the iterator ends.
The lemmas say what the engine is after each of these parts, as far as the iterator, the host and
the registry go.
-/

set_option autoImplicit false

namespace StoredRoutine

open Script (ObjectId Value)

theorem Serving.run_onHost {α : Type} {f : Host → Outcome α × Host} {e : Engine} {r : Outcome α}
    {host : Host} (h : f e.host = (r, host)) : Serving.onHost f e = (r, { e with host }) := by
  unfold Serving.onHost
  rw [h]

namespace Engine

variable {e e' : Engine} {id : ObjectId} {name : String} {cleanup : CleanupId}

/-! ### Rows that are handed out -/

/-- The object that was answered is a tuple that can only be read, and holds the row. -/
def Holds (e : Engine) (answer : Outcome Value) (row : Row) : Prop :=
  ∃ o t handle, answer = .ok (.object .tuple o) ∧ e.object? o = some (.tuple t) ∧
    e.tuple? t = some { handle, values := row, state := .readOnly }

theorem Gave.holds {i : RowIterator} {handle : HandleId} {row : Row} {o : ObjectId}
    (h : e.Gave id i handle row o e') : e'.Holds (.ok (.object .tuple o)) row :=
  ⟨o, _, handle, rfl, h.object, h.tuple⟩

/-- The last steps of a call: the row is handed out, and the others are left for later. -/
theorem handOut_spec {i : RowIterator} (ho : e.object? id = some (.iterator i))
    (f : RowIterator → RowIterator) (handle : HandleId) (queue : List Row)
    (hf : f i = { i with handle := some handle, queue }) (row : Row) :
    ∃ answer e', (do
      Serving.modifyIterator id f
      Serving.showTuple (← Serving.tupleWith handle row .readOnly) : Serving Value) e =
        (answer, e') ∧ e'.Holds answer row ∧
      e'.object? id = some (.iterator { i with handle := some handle, queue }) ∧
      e'.host = e.host ∧ e'.cleanups = e.cleanups ∧ e'.options = e.options := by
  refine ⟨_, _, rfl, (gave_of_eq e rfl rfl ho hf rfl).1.holds, ?_, rfl, rfl, rfl⟩
  -- the tuple is a new object behind the iterator
  unfold object? at ho
  obtain ⟨hlt, -⟩ := Array.getElem?_eq_some_iff.mp ho
  show ((e.objects.modify id.index (.mapIterator f)).push _)[id.index]? = _
  rw [Array.getElem?_push_lt (by simpa using hlt), ← Array.getElem?_eq_getElem,
    Array.getElem?_modify, if_pos rfl, ho, Option.map_some, Object.mapIterator, hf]

/-! ### Batches -/

/-- What an iterator does with a batch that it has fetched. -/
theorem nextRow_batch {i : RowIterator} (ho : e.object? id = some (.iterator i))
    (hneeds : i.queue = [] ∨ i.handle = none) (hdone : i.done = false) {batch : RowSet}
    {host : Host} (hfetch : e.host.fetch i.cursor.name .forward (Int64.ofNat e.options.fetchSize) =
      (.ok batch, host)) :
    Serving.nextRow id e = (match batch.rows with
      | [] => do
        Serving.finishIterator id i
        return .nil
      | row :: rest => do
        let handle ← Serving.iteratorHandle i batch.layout
        Serving.modifyIterator id fun i => { i with handle := some handle, queue := rest }
        Serving.showTuple (← Serving.tupleWith handle row .readOnly) : Serving Value)
          { e with host } := by
  rw [nextRow_unqueued ho hneeds]
  simp only [hdone, Bool.false_eq_true, if_false]
  have hfetched : Serving.onHost (fun h => h.fetch i.cursor.name .forward
      (Int64.ofNat e.options.fetchSize)) e = (.ok batch, { e with host }) :=
    Serving.run_onHost hfetch
  rw [run_get_bind, run_bind]
  generalize Serving.onHost _ e = done at hfetched ⊢
  subst hfetched
  rfl

/-- A fetch that fails is all that a call does. -/
theorem nextRow_failed {i : RowIterator} (ho : e.object? id = some (.iterator i))
    (hneeds : i.queue = [] ∨ i.handle = none) (hdone : i.done = false) {f : Failure} {host : Host}
    (hfetch : e.host.fetch i.cursor.name .forward (Int64.ofNat e.options.fetchSize) =
      (.error f, host)) : Serving.nextRow id e = (.error f, { e with host }) := by
  rw [nextRow_unqueued ho hneeds]
  simp only [hdone, Bool.false_eq_true, if_false]
  rw [run_get_bind, run_bind, Serving.run_onHost hfetch]

/-- The handle of a batch is there, and only the arena has changed. -/
theorem iteratorHandle_ok (i : RowIterator) (layout : RowLayout) (e : Engine) :
    ∃ handle arena, Serving.iteratorHandle i layout e = (.ok handle, { e with arena }) := by
  unfold Serving.iteratorHandle
  cases i.handle with
  | none => exact ⟨_, _, rfl⟩
  | some handle => exact ⟨handle, e.arena, rfl⟩

/-! ### The end of an iterator -/

/-- To close the portal of an open cursor marks the cursor, takes its entry, and asks the host. -/
theorem closePortal_eq (e : Engine) (id : ObjectId) (name : String) (cleanup : CleanupId) :
    Serving.closePortal id { name, cleanup := some cleanup } e = ((e.host.closeCursor name).1,
      { e with
        objects := e.objects.modify id.index (.mapCursor .shut)
        cleanups := (e.cleanups.unregister cleanup).2
        host := (e.host.closeCursor name).2 }) := rfl

/-- A cursor that is closed already is left alone. -/
theorem closePortal_closed {c : Cursor} (hc : c.closed = true) (e : Engine) (id : ObjectId) :
    Serving.closePortal id c e = (.ok (), e) := by
  unfold Serving.closePortal
  simp only [hc, if_true]
  rfl

/-- An iterator that has come to the end of the rows gives up its handle, and closes its cursor. -/
theorem finishIterator_spec {i : RowIterator} (ho : e.object? id = some (.iterator i))
    (hcursor : i.cursor = { name, cleanup := some cleanup }) :
    ∃ e' j, Serving.finishIterator id i e = (.ok (), e') ∧
      e'.object? id = some (.iterator j) ∧ j.Ended ∧ j.queue = i.queue ∧
      e'.host = (e.host.closeCursor name).2 ∧
      e'.cleanups = (e.cleanups.unregister cleanup).2 ∧ e'.options = e.options := by
  obtain ⟨c, queue, handle, done⟩ := i
  cases hcursor
  -- the arena loses the handle, which does not matter to the rest
  obtain ⟨arena, hfinish⟩ : ∃ arena, Serving.finishIterator id
      { cursor := { name, cleanup := some cleanup }, queue, handle, done } e =
        (tryCatch (Serving.closePortal id { name, cleanup := some cleanup }) fun _ => pure ())
          { e with
            objects := e.objects.modify id.index
              (.mapIterator fun i => { i with done := true, handle := none })
            arena } := by
    cases handle with
    | none => exact ⟨e.arena, rfl⟩
    | some handle => exact ⟨e.arena.release handle, rfl⟩
  rw [hfinish, run_tryCatch, closePortal_eq]
  have hobject : ((e.objects.modify id.index
      (.mapIterator fun i => { i with done := true, handle := none })).modify id.index
        (.mapCursor .shut))[id.index]? = some (Object.mapCursor .shut (.iterator
          ⟨{ name, cleanup := some cleanup }, queue, none, true⟩)) := by
    unfold object? at ho
    rw [Array.getElem?_modify, if_pos rfl, Array.getElem?_modify, if_pos rfl, ho]
    rfl
  -- whether the portal was there does not matter either
  cases (e.host.closeCursor name).1 with
  | ok => exact ⟨_, _, rfl, hobject, ⟨rfl, rfl⟩, rfl, rfl, rfl, rfl⟩
  | error f => exact ⟨_, _, rfl, hobject, ⟨rfl, rfl⟩, rfl, rfl, rfl, rfl⟩

end Engine

end StoredRoutine
