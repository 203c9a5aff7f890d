import StoredRoutine.Proofs.Engine.Fetching
import StoredRoutine.Proofs.Engine.Watched

/-!
# `StoredRoutine.Proofs.Engine.Expired`: cursors and iterators after the end of their transaction

The end of a transaction closes the cursors of all objects, and no cursor opens again
(`law_remains`). So whatever happens later, a cursor of a script refuses everything but being
closed, and this has no effect (`Refuses`). The host is not asked.

An iterator has such a cursor, too, but never looks whether it is closed. The rows in its queue are
still handed out, and when there are none it fetches from the portal of that name, if the host has
one (`Lingers`). That is all: an iterator that comes to its end closes no portal, since its cursor
counts as closed, and one that was at its end answers nil. `Reachable.expired` says this for all
cursors and iterators that were made before the end of a transaction, and
`nextRow_not_always_refused` that an iterator gets a row from the host.
-/

set_option autoImplicit false

namespace StoredRoutine

open Script (AllOf ObjectId Service Value)

/-! ### Closed for good -/

/-- An object keeps its kind, and its cursor keeps its name and does not open again. -/
inductive Object.Remains : Object → Object → Prop where
  | cursor {c d : Cursor} (hname : d.name = c.name) (hclosed : c.closed = true → d.closed = true) :
    Remains (.cursor c) (.cursor d)
  | iterator {i j : RowIterator} (hname : j.cursor.name = i.cursor.name)
    (hclosed : i.cursor.closed = true → j.cursor.closed = true) :
    Remains (.iterator i) (.iterator j)
  | other {o p : Object} (ho : o.cursor? = none) (hp : p.cursor? = none) : Remains o p

theorem Object.Remains.refl (o : Object) : o.Remains o := by
  cases o with
  | cursor c => exact .cursor rfl id
  | iterator i => exact .iterator rfl id
  | _ => exact .other rfl rfl

/-- A change of the cursor alone. -/
theorem Object.remains_mapCursor (o : Object) {f : Cursor → Cursor}
    (hf : ∀ c, (f c).name = c.name ∧ (c.closed = true → (f c).closed = true)) :
    o.Remains (o.mapCursor f) := by
  cases o with
  | cursor c => exact .cursor (hf c).1 (hf c).2
  | iterator i => exact .iterator (hf i.cursor).1 (hf i.cursor).2
  | _ => exact .other rfl rfl

theorem Engine.law_remains : Object.Law Object.Remains where
  refl := Object.Remains.refl
  -- an object does not change its kind
  trans h h' := by
    cases h with
    | cursor hname hclosed =>
      cases h' with
      | cursor hname' hclosed' => exact .cursor (hname'.trans hname) fun hc => hclosed' (hclosed hc)
      | other ho _ => cases ho
    | iterator hname hclosed =>
      cases h' with
      | iterator hname' hclosed' =>
        exact .iterator (hname'.trans hname) fun hc => hclosed' (hclosed hc)
      | other ho _ => cases ho
    | other ho hp =>
      cases h' with
      | cursor => cases hp
      | iterator => cases hp
      | other _ hq => exact .other ho hq
  change h := by
    cases h with
    | same => exact .refl _
    | saved p => exact .other rfl rfl
    | shown set entry => exact .other rfl rfl
    | popped hqueue => exact .iterator rfl id
    | fetched hdone hhandle rest => exact .iterator rfl id
    | finished hdone => exact .iterator rfl id
  shut o := o.remains_mapCursor fun _ => ⟨rfl, fun _ => rfl⟩
  closed o := o.remains_mapCursor fun _ => ⟨rfl, fun _ => rfl⟩

theorem Object.Remains.shut {o p : Object} (h : o.Remains p) (ho : o.Shut) : p.Shut := by
  cases h with
  | cursor hname hclosed =>
    intro c hc
    cases hc
    exact hclosed (ho _ rfl)
  | iterator hname hclosed =>
    intro c hc
    cases hc
    exact hclosed (ho _ rfl)
  | other _ hp =>
    intro c hc
    rw [hp] at hc
    cases hc

namespace Serving

/-- The failure of a cursor that is closed. -/
def cursorClosed (name : String) : Failure :=
  .runtime { message := s!"cursor \"{name}\" is closed" }

/-- Whether the arguments of a method that fetches or moves can be read. -/
def readable (s : Service) (rest : List Value) : Outcome Unit :=
  match s with
  | .cursorFetch | .cursorMove =>
    (Arguments.optional Arguments.whole (Arguments.nth rest 0)).map fun _ => ()
  | _ => (position rest).map fun _ => ()

/-- The methods of a cursor that use its portal. -/
def portalMethods : List Service := [.cursorFetch, .cursorMove, .cursorFetchAt, .cursorMoveTo]

end Serving

namespace Engine

open Serving (cursorClosed portalMethods readable)

variable {e e' e₀ r : Engine} {id : ObjectId} {c : Cursor} {i : RowIterator}

/-- A cursor that is closed: its methods leave the engine and its host as they are. Those that would
use the portal fail, for this reason if their arguments can be read. -/
structure Refuses (e : Engine) (id : ObjectId) (name : String) : Prop where
  use : ∀ (call : Caller) (s : Service) (rest : List Value), s ∈ portalMethods →
    Serving.serve call s (.object .cursor id :: rest) e =
      ((readable s rest).bind fun _ => .error (cursorClosed name), e)
  close : ∀ (call : Caller) (rest : List Value),
    Serving.serve call .cursorClose (.object .cursor id :: rest) e = (.ok [], e)

theorem openCursor_closed (ho : e.object? id = some (.cursor c)) (hc : c.closed = true) :
    Serving.openCursor id e = (.error (cursorClosed c.name), e) := by
  unfold Serving.openCursor
  rw [run_get_bind]
  generalize e.object? id = found at ho ⊢
  subst ho
  simp only [hc, if_true]
  rfl

theorem fetchRows_closed (ho : e.object? id = some (.cursor c)) (hc : c.closed = true)
    (direction : FetchDirection) (count : Int64) :
    Serving.fetchRows id direction count e = (.error (cursorClosed c.name), e) := by
  unfold Serving.fetchRows
  rw [run_bind, openCursor_closed ho hc]

theorem moveCursor_closed (ho : e.object? id = some (.cursor c)) (hc : c.closed = true)
    (direction : FetchDirection) (count : Int64) :
    Serving.moveCursor id direction count e = (.error (cursorClosed c.name), e) := by
  unfold Serving.moveCursor
  rw [run_bind, openCursor_closed ho hc]

theorem closeCursor_closed (ho : e.object? id = some (.cursor c)) (hc : c.closed = true) :
    Serving.closeCursor id e = (.ok (), e) := by
  unfold Serving.closeCursor
  rw [run_get_bind]
  generalize e.object? id = found at ho ⊢
  subst ho
  exact closePortal_closed hc e id

/-- A method that reads its arguments and then fails. -/
theorem run_readable {α β : Type} (o : Outcome α) {k : α → Serving β} {f : Failure}
    (hk : ∀ a, k a e = (.error f, e)) :
    (Serving.ofOutcome o >>= k) e = ((o.map fun _ => ()).bind fun _ => .error f, e) := by
  cases o with
  | error g => rfl
  | ok a => exact hk a

theorem refuses_of_closed (ho : e.object? id = some (.cursor c)) (hc : c.closed = true) :
    e.Refuses id c.name where
  use call s rest hs := by
    have hfetch (direction : FetchDirection) (count : Int64) : (do
        return [← Serving.fetchRows id direction count] : Serving (List Value)) e =
        (.error (cursorClosed c.name), e) := by
      rw [run_bind, fetchRows_closed ho hc]
    have hmove (direction : FetchDirection) (count : Int64) : (do
        Serving.moveCursor id direction count
        return [] : Serving (List Value)) e = (.error (cursorClosed c.name), e) := by
      rw [run_bind, moveCursor_closed ho hc]
    simp only [portalMethods, List.mem_cons, List.not_mem_nil, or_false] at hs
    rcases hs with rfl | rfl | rfl | rfl
    · exact run_readable _ fun count => hfetch .forward _
    · exact run_readable _ fun count => hmove .forward _
    · exact run_readable _ fun place => hfetch place.1 place.2
    · exact run_readable _ fun place => hmove place.1 place.2
  close call rest := by
    show (do
      Serving.closeCursor id
      return [] : Serving (List Value)) e = _
    rw [run_bind, closeCursor_closed ho hc]
    rfl

/-! ### Iterators -/

/-- An iterator whose cursor is closed: what a call of it does, and that no portal is closed by it.
It does not look at its cursor. -/
structure Lingers (e : Engine) (id : ObjectId) (i : RowIterator) : Prop where
  /-- At its end it answers nil. -/
  done : i.queue = [] ∨ i.handle = none → i.done = true → Serving.nextRow id e = (.ok .nil, e)
  /-- The rows in its queue are handed out without the host. -/
  queued : ∀ (row : Row) (rest : List Row) (handle : HandleId), i.queue = row :: rest →
    i.handle = some handle →
    (Serving.nextRow id e).2.Holds (Serving.nextRow id e).1 row ∧
      (Serving.nextRow id e).2.host = e.host
  /-- Otherwise it fetches a batch from the host, and does nothing else there. -/
  fetched : i.queue = [] ∨ i.handle = none → i.done = false →
    (Serving.nextRow id e).2.host =
      (e.host.fetch i.cursor.name .forward (Int64.ofNat e.options.fetchSize)).2
  /-- If the host has closed the portal, the call fails, and nothing changes. -/
  gone : i.queue = [] ∨ i.handle = none → i.done = false →
    e.host.portal? i.cursor.name = none →
    Serving.nextRow id e = (.error (Host.noSuchCursor i.cursor.name), e)
  /-- The same portals are open as before. -/
  portals : (Serving.nextRow id e).2.host.portals.map (·.1) = e.host.portals.map (·.1)

/-- An iterator that ends leaves the host alone, if its cursor is closed. -/
theorem finishIterator_closed (hc : i.cursor.closed = true) (e : Engine) (id : ObjectId) :
    ∃ e', Serving.finishIterator id i e = (.ok (), e') ∧ e'.host = e.host := by
  obtain ⟨e₁, hfinish, hhost⟩ : ∃ e₁, Serving.finishIterator id i e =
      (tryCatch (Serving.closePortal id i.cursor) fun _ => pure ()) e₁ ∧ e₁.host = e.host := by
    obtain ⟨cursor, queue, handle, done⟩ := i
    cases handle with
    | none => exact ⟨_, rfl, rfl⟩
    | some handle => exact ⟨_, rfl, rfl⟩
  rw [hfinish, run_tryCatch, closePortal_closed hc]
  exact ⟨e₁, rfl, hhost⟩

/-- An iterator that has no row for a call fetches, and that is all that the host sees. -/
theorem host_nextRow_fetched (ho : e.object? id = some (.iterator i))
    (hc : i.cursor.closed = true) (hneeds : i.queue = [] ∨ i.handle = none)
    (hdone : i.done = false) :
    (Serving.nextRow id e).2.host =
      (e.host.fetch i.cursor.name .forward (Int64.ofNat e.options.fetchSize)).2 := by
  -- what is done with the batch, also to finish, leaves a host without the cursor alone
  cases hfetch : e.host.fetch i.cursor.name .forward (Int64.ofNat e.options.fetchSize) with
  | mk outcome host =>
    cases outcome with
    | error f => rw [nextRow_failed ho hneeds hdone hfetch]
    | ok batch =>
      rw [nextRow_batch ho hneeds hdone hfetch]
      cases batch.rows with
      | nil =>
        obtain ⟨e', hfinish, hhost⟩ := finishIterator_closed hc { e with host } id
        dsimp only
        rw [run_bind, hfinish]
        exact hhost
      | cons row rest =>
        obtain ⟨handle, arena, hmade⟩ := iteratorHandle_ok i batch.layout { e with host }
        have ho' : ({ e with host, arena } : Engine).object? id = some (.iterator i) := ho
        obtain ⟨answer, e', hout, -, -, hhost, -⟩ :=
          handOut_spec ho' (fun i => { i with handle := some handle, queue := rest }) handle rest
            rfl row
        dsimp only
        rw [run_bind, hmade]
        dsimp only
        rw [hout]
        exact hhost

theorem lingers_of_closed (ho : e.object? id = some (.iterator i))
    (hc : i.cursor.closed = true) : e.Lingers id i := by
  have hqueued (row : Row) (rest : List Row) (handle : HandleId) (hqueue : i.queue = row :: rest)
      (hhandle : i.handle = some handle) :
      (Serving.nextRow id e).2.Holds (Serving.nextRow id e).1 row ∧
        (Serving.nextRow id e).2.host = e.host := by
    obtain ⟨answer, e', hout, hholds, -, hhost, -⟩ :=
      handOut_spec ho (fun i => { i with queue := rest }) handle rest
        (by rw [← hhandle]) row
    rw [nextRow_queued ho hqueue hhandle, hout]
    exact ⟨hholds, hhost⟩
  have hdone (hneeds : i.queue = [] ∨ i.handle = none) (hdone : i.done = true) :
      Serving.nextRow id e = (.ok .nil, e) := by
    rw [nextRow_unqueued ho hneeds]
    simp only [hdone, if_true]
    rfl
  have hfetched := host_nextRow_fetched ho hc
  refine ⟨hdone, hqueued, hfetched, fun hneeds hgoing hgone => ?_, ?_⟩
  · have hfetch : e.host.fetch i.cursor.name .forward (Int64.ofNat e.options.fetchSize) =
        (.error (Host.noSuchCursor i.cursor.name), e.host) := by
      unfold Host.fetch
      rw [hgone]
    rw [nextRow_failed ho hneeds hgoing hfetch]
  · -- a fetch moves a portal and opens none
    have hunqueued (hneeds : i.queue = [] ∨ i.handle = none) :
        (Serving.nextRow id e).2.host.portals.map (·.1) = e.host.portals.map (·.1) := by
      cases hgoing : i.done with
      | true => rw [hdone hneeds hgoing]
      | false => rw [hfetched hneeds hgoing, Host.portalNames_fetch]
    cases hqueue : i.queue with
    | nil => exact hunqueued (.inl hqueue)
    | cons row rest =>
      cases hhandle : i.handle with
      | none => exact hunqueued (.inr hhandle)
      | some handle => rw [(hqueued row rest handle hqueue hhandle).2]

/-! ### After the end of a transaction -/

/-- The cursors and iterators of an engine, at a later moment after the end of their transaction. -/
structure Expired (e₀ e : Engine) : Prop where
  cursor : ∀ id c, e₀.object? id = some (.cursor c) →
    ∃ d, e.object? id = some (.cursor d) ∧ d.name = c.name ∧ e.Refuses id c.name
  iterator : ∀ id i, e₀.object? id = some (.iterator i) →
    ∃ j, e.object? id = some (.iterator j) ∧ j.cursor.name = i.cursor.name ∧ e.Lingers id j

/-- At any moment of any call, a transaction ends. From then on, at every later moment, the cursors
that were there refuse, and the iterators linger. -/
theorem Reachable.expired {event : TransactionEvent} (hr : r.Reachable) (hmoves : r.Moves e₀)
    (hevent : event.drains = true) (hlater : (e₀.onTransaction event).2.Later e) :
    Expired e₀ e := by
  have hwatched := hmoves.watched hr.watched
  have hdrain : (e₀.onTransaction event).2 = e₀.drain.2 := by
    unfold Engine.onTransaction
    rw [if_pos hevent]
  have hdrained := evolves_onTransaction law_remains e₀ event
  rw [hdrain] at hlater hdrained
  have hevolves := hlater.evolves law_remains
  -- the cursor is closed by the drain, and stays so
  have hshut (id : ObjectId) (o : Object) (ho : e₀.object? id = some o) :
      ∃ p, e.object? id = some p ∧ o.Remains p ∧ p.Shut := by
    obtain ⟨o₁, ho₁, hremains₁⟩ := hdrained id o ho
    obtain ⟨p, hp, hremains⟩ := hevolves id o₁ ho₁
    exact ⟨p, hp, law_remains.trans hremains₁ hremains, hremains.shut (hwatched.shut_drain ho₁)⟩
  refine ⟨fun id c ho => ?_, fun id i ho => ?_⟩
  · obtain ⟨p, hp, hremains, hp'⟩ := hshut id _ ho
    cases hremains with
    | cursor hname => exact ⟨_, hp, hname, hname ▸ refuses_of_closed hp (hp' _ rfl)⟩
    | other hnone => cases hnone
  · obtain ⟨p, hp, hremains, hp'⟩ := hshut id _ ho
    cases hremains with
    | iterator hname => exact ⟨_, hp, hname, lingers_of_closed hp (hp' _ rfl)⟩
    | other hnone => cases hnone

/-- A script holds an iterator, and a cursor on the same portal. -/
def holding : Engine :=
  (Serving.findCursor "<unnamed portal 1>"
    (Serving.serve libraryCaller .openRows [.ofText "sel"] listing).2).2

/-- Its transaction has ended. -/
def committed : Engine := (holding.onTransaction .commit).2

theorem moves_holding : listing.Moves holding := by
  have : libraryCaller.Moving := inferInstanceAs (nestedCaller 9 _ 1).Moving
  have hopened := Serving.Moving.moves
    (x := Serving.serve libraryCaller .openRows [.ofText "sel"]) listing
  exact hopened.trans (Serving.Moving.moves (x := Serving.findCursor "<unnamed portal 1>") _)

/-- Some calls later. -/
def afterwards : Session :=
  ({ engine := committed } : Session).run [.hold, .call 0 [], .next 0 0 [], .abandon 0]

theorem expired_afterwards :
    (holding.object? ⟨0⟩).isSome ∧ (holding.object? ⟨1⟩).isSome ∧
      Expired holding afterwards.engine := by
  have hlater : (holding.onTransaction .commit).2.Later afterwards.engine :=
    Session.later_run { engine := committed } _
  exact ⟨rfl, rfl, Reachable.expired listing_reachable moves_holding rfl hlater⟩

/-- An iterator whose transaction has ended gives a row, which it has got from the host. -/
theorem nextRow_not_always_refused :
    ¬ ∀ (r e₀ e : Engine) (event : TransactionEvent) (id : ObjectId) (i : RowIterator),
      r.Reachable → r.Moves e₀ → event.drains = true → (e₀.onTransaction event).2.Later e →
      e₀.object? id = some (.iterator i) →
      ((∃ f, (Serving.nextRow id e).1 = .error f) ∨ (Serving.nextRow id e).1 = .ok .nil) ∧
        (Serving.nextRow id e).2.host = e.host := by
  intro hrefused
  have hiterator : holding.object? ⟨0⟩ = some (.iterator shelfIterator) := rfl
  obtain ⟨hanswer, -⟩ := hrefused listing holding committed .commit ⟨0⟩ shelfIterator
    listing_reachable moves_holding rfl .refl hiterator
  have hrow : (Serving.nextRow ⟨0⟩ committed).1 = .ok (.object .tuple ⟨2⟩) := rfl
  rcases hanswer with ⟨f, hfailed⟩ | hnil
  · cases hrow.symm.trans hfailed
  · cases hrow.symm.trans hnil

end Engine

end StoredRoutine
