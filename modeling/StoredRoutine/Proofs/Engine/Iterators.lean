import StoredRoutine.Proofs.Engine.Course
import StoredRoutine.Proofs.Host.Runs
import StoredRoutine.Proofs.Lifetime.Custody
import StoredRoutine.Proofs.Marshal.RoundTrip

/-!
# `StoredRoutine.Proofs.Engine.Iterators`: which rows of an iterator can be read

All rows that an iterator gives share one handle. The first row makes it, in the frame that is the
current one then, and it goes the way of all handles: to the frame around its own when that returns,
and its layout is lost when a frame that owns it is aborted
(`StoredRoutine.Proofs.Lifetime.Custody`). The iterator does not look at this. After such a frame it
goes on to give rows, and all columns of them read as nil, even of a row that is fetched only now.

`nextRow_read` says this for every iterator and every call of it. `Engine.Tracks` is the invariant:
the handle of an iterator agrees with the frames that have ended since it was made.
-/

set_option autoImplicit false

namespace StoredRoutine

open Script (AllOf ObjectId Value)

namespace Serving

/-- What scripts read of a column of a row: the datum of that column as a value, and nil if there is
no such column or no layout. -/
def columnOf (layout : Option RowLayout) (row : Row) (name : String) : Serving Value :=
  match layout with
  | none => pure .nil
  | some layout =>
    match layout.position? name with
    | none => pure .nil
    | some i => ofDatum (row[i]?).join ((layout.attributes[i]?).elim TypeId.record (·.typeId))

end Serving

namespace Engine

variable {e e' : Engine} {stack : List FrameId} {id o : ObjectId} {i : RowIterator}
  {handle : HandleId} {row : Row} {r : Arena.Reference}

/-! ### Tuples that are shown -/

/-- An object is a tuple of a row, with a layout or without one, and reads like it. -/
structure Shows (e : Engine) (o : ObjectId) (layout : Option RowLayout) (row : Row) : Prop where
  tuple : ∃ t tuple, e.object? o = some (.tuple t) ∧ e.tuple? t = some tuple ∧
    tuple.values = row ∧ e.layoutOf? tuple = layout
  reads : ∀ name, Serving.readField o (.ofText name) e = Serving.columnOf layout row name e

theorem text_ofText (name : String) : Arguments.text (.ofText name) = .ok name := by
  have hname : String.fromUTF8? name.toUTF8 = some name := ScriptValue.text?_ofText name
  have hbytes : Arguments.bytes (.ofText name) = .ok name.toUTF8 := rfl
  unfold Arguments.text
  rw [hbytes]
  simp only [bind, Except.bind, hname]
  rfl

/-- What a tuple shows is what its handle leads to. -/
theorem shows_of_tuple {t : TupleId} {tuple : Tuple} (ho : e.object? o = some (.tuple t))
    (ht : e.tuple? t = some tuple) : e.Shows o (e.arena.layout? tuple.handle) tuple.values where
  tuple := ⟨t, tuple, ho, ht, rfl, rfl⟩
  reads name := by
    have hname : Serving.ofOutcome (.ok name) e = (.ok name, e) := rfl
    have hread : Serving.readField o (.ofText name) e = Serving.readColumn tuple name e := by
      unfold Serving.readField
      rw [run_get_bind]
      simp only [ho, text_ofText]
      rw [run_bind, hname]
      simp only [ht]
    rw [hread]
    unfold Serving.readColumn
    rw [run_get_bind]
    rfl

/-! ### One call of an iterator -/

/-- The rows that an iterator gets when it fetches. -/
def batch (e : Engine) (i : RowIterator) : Outcome RowSet :=
  (e.host.fetch i.cursor.name .forward (Int64.ofNat e.options.fetchSize)).1

/-- The row that an iterator gives next: the first of those that it has, and if it has none, of
those that it fetches. -/
def upcoming? (e : Engine) (i : RowIterator) : Option Row :=
  match i.queue with
  | row :: _ => some row
  | [] => (e.batch i).toOption.bind fun batch => batch.rows.head?

/-- An iterator has given a row, as a tuple that shares its handle. -/
structure Gave (e : Engine) (id : ObjectId) (i : RowIterator) (handle : HandleId) (row : Row)
    (o : ObjectId) (e' : Engine) : Prop where
  iterator : ∃ queue, e'.object? id = some (.iterator { i with handle := some handle, queue })
  object : e'.object? o = some (.tuple ⟨e.tuples.size⟩)
  tuple : e'.tuple? ⟨e.tuples.size⟩ = some { handle, values := row, state := .readOnly }

theorem Gave.shows (h : e.Gave id i handle row o e') :
    e'.Shows o (e'.arena.layout? handle) row := shows_of_tuple h.object h.tuple

/-- The last steps of a call, once the row and the handle are there. -/
theorem gave_of_eq (e₁ : Engine) (hobjects : e₁.objects = e.objects)
    (htuples : e₁.tuples = e.tuples) (ho : e.object? id = some (.iterator i))
    {f : RowIterator → RowIterator} {queue : List Row}
    (hf : f i = { i with handle := some handle, queue })
    (h : (do
      Serving.modifyIterator id f
      Serving.showTuple (← Serving.tupleWith handle row .readOnly) : Serving Value) e₁ =
        (.ok (.object .tuple o), e')) :
    e.Gave id i handle row o e' ∧ e'.arena = e₁.arena.retain handle := by
  -- both objects are where they were made: the iterator further down, the tuple at the end
  cases h
  unfold object? at ho
  obtain ⟨hlt, -⟩ := Array.getElem?_eq_some_iff.mp ho
  refine ⟨⟨⟨queue, ?_⟩, ?_, ?_⟩, rfl⟩
  · show ((e₁.objects.modify id.index (.mapIterator f)).push (.tuple ⟨e₁.tuples.size⟩))[
      id.index]? = _
    rw [hobjects, Array.getElem?_push_lt (by simpa using hlt), ← Array.getElem?_eq_getElem,
      Array.getElem?_modify, if_pos rfl, ho, Option.map_some, Object.mapIterator, hf]
  · show ((e₁.objects.modify id.index (.mapIterator f)).push (.tuple ⟨e₁.tuples.size⟩))[
      (e₁.objects.modify id.index (.mapIterator f)).size]? = _
    rw [Array.getElem?_push_size, htuples]
  · show (e₁.tuples.push { handle, values := row, state := .readOnly })[e.tuples.size]? = _
    rw [htuples, Array.getElem?_push_size]

/-- An iterator that has a row and a handle gives the row. -/
theorem nextRow_queued (ho : e.object? id = some (.iterator i)) {rest : List Row}
    (hqueue : i.queue = row :: rest) (hhandle : i.handle = some handle) :
    Serving.nextRow id e = (do
      Serving.modifyIterator id fun i => { i with queue := rest }
      Serving.showTuple (← Serving.tupleWith handle row .readOnly) : Serving Value) e := by
  unfold Serving.nextRow
  rw [run_get_bind]
  obtain ⟨cursor, queue, own, done⟩ := i
  cases hqueue
  cases hhandle
  simp only [ho]

/-- An iterator without a row or without a handle fetches, unless it is done. -/
theorem nextRow_unqueued (ho : e.object? id = some (.iterator i))
    (hneeds : i.queue = [] ∨ i.handle = none) :
    Serving.nextRow id e = (do
      if i.done then return .nil
      let size := Int64.ofNat (← get).options.fetchSize
      let batch ← Serving.onHost fun h => h.fetch i.cursor.name .forward size
      match batch.rows with
      | [] =>
        Serving.finishIterator id i
        return .nil
      | row :: rest =>
        let handle ← Serving.iteratorHandle i batch.layout
        Serving.modifyIterator id fun i => { i with handle := some handle, queue := rest }
        Serving.showTuple (← Serving.tupleWith handle row .readOnly) : Serving Value) e := by
  unfold Serving.nextRow
  rw [run_get_bind]
  generalize e.object? id = found at ho ⊢
  subst ho
  obtain ⟨cursor, queue, own, done⟩ := i
  rcases hneeds with hqueue | hhandle
  · cases hqueue
    rfl
  · cases hhandle
    cases queue <;> rfl

/-- An iterator that gives a row without having one has fetched it. -/
theorem nextRow_fetched (ho : e.object? id = some (.iterator i))
    (hneeds : i.queue = [] ∨ i.handle = none)
    (h : Serving.nextRow id e = (.ok (.object .tuple o), e')) :
    ∃ batch row rest host, e.batch i = .ok batch ∧ batch.rows = row :: rest ∧
      (do
        let handle ← Serving.iteratorHandle i batch.layout
        Serving.modifyIterator id fun i => { i with handle := some handle, queue := rest }
        Serving.showTuple (← Serving.tupleWith handle row .readOnly) : Serving Value)
          { e with host } = (.ok (.object .tuple o), e') := by
  rw [nextRow_unqueued ho hneeds] at h
  cases hdone : i.done with
  | true =>
    rw [hdone] at h
    cases h
  | false =>
    simp only [hdone, Bool.false_eq_true, if_false] at h
    rw [run_get_bind] at h
    have hfetch : Serving.onHost (fun h => h.fetch i.cursor.name .forward
        (Int64.ofNat e.options.fetchSize)) e = (e.batch i, { e with
          host := (e.host.fetch i.cursor.name .forward (Int64.ofNat e.options.fetchSize)).2 }) :=
      rfl
    rw [run_bind, hfetch] at h
    cases hbatch : e.batch i with
    -- a fetch that fails gives no row
    | error f =>
      rw [hbatch] at h
      cases h
    | ok batch =>
      rw [hbatch] at h
      simp only at h
      cases hrows : batch.rows with
      | nil =>
        -- the end of an iterator is nil
        rw [hrows] at h
        simp only at h
        rw [run_bind] at h
        split at h <;> cases h
      | cons row rest =>
        rw [hrows] at h
        exact ⟨batch, row, rest, _, rfl, hrows, h⟩

/-- The first row of an iterator makes the handle. -/
theorem nextRow_first (ho : e.object? id = some (.iterator i)) (hnew : i.handle = none)
    (h : Serving.nextRow id e = (.ok (.object .tuple o), e')) :
    ∃ batch row rest, e.batch i = .ok batch ∧ batch.rows = row :: rest ∧
      e.Gave id i (e.arena.allocate batch.layout).1 row o e' ∧
      e'.arena = (e.arena.allocate batch.layout).2.retain (e.arena.allocate batch.layout).1 := by
  obtain ⟨batch, row, rest, host, hbatch, hrows, hgave⟩ := nextRow_fetched ho (.inr hnew) h
  unfold Serving.iteratorHandle at hgave
  simp only [hnew] at hgave
  rw [run_bind] at hgave
  exact ⟨batch, row, rest, hbatch, hrows, gave_of_eq
    { e with host, arena := (e.arena.allocate batch.layout).2 } rfl rfl ho rfl hgave⟩

/-- All further rows share the handle, whatever has become of it. -/
theorem nextRow_further (ho : e.object? id = some (.iterator i)) (hhandle : i.handle = some handle)
    (h : Serving.nextRow id e = (.ok (.object .tuple o), e')) :
    ∃ row, e.upcoming? i = some row ∧ e.Gave id i handle row o e' ∧
      e'.arena = e.arena.retain handle := by
  cases hqueue : i.queue with
  | cons row rest =>
    rw [nextRow_queued ho hqueue hhandle] at h
    have hsame : { i with queue := rest } = { i with handle := some handle, queue := rest } := by
      rw [← hhandle]
    have hrow : e.upcoming? i = some row := by
      unfold upcoming?
      rw [hqueue]
    exact ⟨row, hrow, gave_of_eq e rfl rfl ho hsame h⟩
  | nil =>
    obtain ⟨batch, row, rest, host, hbatch, hrows, hgave⟩ := nextRow_fetched ho (.inl hqueue) h
    unfold Serving.iteratorHandle at hgave
    simp only [hhandle, pure_bind] at hgave
    have hrow : e.upcoming? i = some row := by
      unfold upcoming?
      rw [hqueue, hbatch]
      simp only [Except.toOption, Option.bind_some, hrows, List.head?_cons]
    exact ⟨row, hrow, gave_of_eq { e with host } rfl rfl ho rfl hgave⟩

/-- At its end an iterator gives no rows. -/
theorem nextRow_ended (ho : e.object? id = some (.iterator i)) (hended : i.Ended) :
    Serving.nextRow id e = (.ok .nil, e) := by
  rw [nextRow_unqueued ho (.inr hended.2), hended.1]
  rfl

/-! ### The handle of an iterator -/

/-- The handle of an iterator that has given a row agrees with what became of the frames since,
unless the iterator is at its end. -/
def Tracks (e : Engine) (stack : List FrameId) (id : ObjectId) (r : Arena.Reference) : Prop :=
  ∃ i, e.object? id = some (.iterator i) ∧
    (i.Ended ∨ i.handle = some r.id ∧ ∃ x, e.arena.handle? r.id = some x ∧ r.Agrees stack x)

/-- The handle of an iterator is one of those that are referred to. -/
theorem mem_held_of_iterator (ho : e.object? id = some (.iterator i))
    (hhandle : i.handle = some handle) : handle ∈ e.held := by
  obtain ⟨rest, hperm⟩ := held_perm_of_object ho
  refine hperm.mem_iff.mpr (List.mem_append_left _ ?_)
  simp [Object.handles, hhandle]

/-- What does not end the current frame leaves the handle as it is. -/
theorem Tracks.follow (h : e.Tracks stack id r) (harena : e.arena.Follows e'.arena)
    (hretains : e.Retains e') : e'.Tracks stack id r := by
  obtain ⟨i, ho, hi⟩ := h
  obtain ⟨j, ho', hprecedes⟩ := hretains id i ho
  refine ⟨j, ho', ?_⟩
  rcases hi with hended | ⟨hhandle, x, hx, hagrees⟩
  · exact .inl (hprecedes.ended hended)
  · rcases hprecedes.handle _ hhandle with hhandle' | hended
    · obtain ⟨y, hy, hlayout, hframe⟩ := harena.kept hx
      exact .inr ⟨hhandle', y, hy, Arena.History.agrees_congr hagrees hlayout hframe⟩
    · exact .inl hended

theorem Tracks.enter (h : e.Tracks stack id r) :
    e.pushFrame.2.Tracks (e.pushFrame.1 :: stack) id r := by
  obtain ⟨i, ho, hi⟩ := h
  refine ⟨i, ho, hi.imp_right fun ⟨hhandle, x, hx, hagrees⟩ => ⟨hhandle, x, hx, ?_⟩⟩
  exact ⟨hagrees.suffix.trans (List.suffix_cons _ _), hagrees.shown, hagrees.lost⟩

/-- A frame that ends takes the layout of a handle or hands it on. -/
theorem Tracks.leave {frame : FrameId} (hs : e.Sound (frame :: stack))
    (h : e.Tracks (frame :: stack) id r) (exit : FrameExit) :
    (e.popFrame frame exit).2.Tracks stack id { r with ended := r.ended ++ [(frame, exit)] } := by
  -- the books of the arena say what becomes of handles, and that it stays sound
  obtain ⟨i, ho, hi⟩ := h
  obtain ⟨arena, hpop, hsound⟩ := hs.arena.popFrame exit
  obtain ⟨arena', -, hpop', -, -, -, hhandle, -⟩ := hs.arena.popFrame_spec exit
  obtain rfl : arena' = arena := Except.ok.inj (hpop'.symm.trans hpop)
  rw [popFrame_eq hpop]
  refine ⟨i, ho, hi.imp_right fun ⟨hheld, x, hx, hagrees⟩ => ⟨hheld, ?_⟩⟩
  -- the iterator refers to the handle, so it is still there
  obtain ⟨x', hx'⟩ := Option.isSome_iff_exists.mp (hsound.kept (mem_held_of_iterator ho hheld))
  refine ⟨x', hx', Arena.History.agrees_pop hagrees hs.arena.nodup exit ?_⟩
  rw [hhandle, hx, Option.bind_some] at hx'
  exact hx'

/-- The handle is followed all along a course. -/
theorem Course.tracks {start : Engine} {outer : List FrameId} {ended : List (FrameId × FrameExit)}
    (h : Course start outer e stack ended) (hs : start.Sound outer)
    {layout : RowLayout} (ht : start.Tracks outer id ⟨handle, layout, outer, []⟩) :
    e.Tracks stack id ⟨handle, layout, outer, ended⟩ := by
  induction h with
  | refl => exact ht
  | aside _ _ harena hobjects ih =>
    exact ih.follow (harena ▸ Arena.Follows.refl _) (.ofSame hobjects)
  | serve h hargs fuel c position s ih =>
    exact ih.follow (serve_spec (h.sound hs) hargs fuel c position s).2.arena
      (Serving.Moving.moves _).retains
  | value h v ih =>
    exact ih.follow ((Serving.keeps_toValue _ v).spec (h.sound hs)).2.1.arena
      (Serving.Moving.moves _).retains
  | publish h t ih =>
    exact ih.follow ((Serving.keeps_publishEvent t).spec (h.sound hs)).2.1.arena
      (Serving.Moving.moves _).retains
  | event h event ih =>
    exact ih.follow (restores_onTransaction (h.sound hs) event).arena
      (retains_onTransaction _ event)
  | enter _ ih => exact ih.enter
  | leave h exit ih => exact ih.leave (h.sound hs) exit

/-- A new handle belongs to the current frame and shows its layout. -/
theorem tracks_of_first {born : List FrameId} {layout : RowLayout} (hs : e.Sound born)
    (hgave : e.Gave id i (e.arena.allocate layout).1 row o e')
    (harena : e'.arena = (e.arena.allocate layout).2.retain (e.arena.allocate layout).1) :
    e'.Tracks born id ⟨(e.arena.allocate layout).1, layout, born, []⟩ := by
  obtain ⟨queue, ho⟩ := hgave.iterator
  refine ⟨_, ho, .inr ⟨rfl, ?_⟩⟩
  rw [harena, Arena.handle?_retain, if_pos rfl, Arena.handle?_allocate hs.arena.toCounted,
    if_pos rfl]
  refine ⟨_, rfl, List.suffix_refl _, fun _ => ⟨rfl, hs.arena.current_eq⟩, fun hlost => ?_⟩
  exact absurd hlost (Arena.not_lost_nil _)

/-- What there is of the layout of an iterator. -/
theorem Tracks.layout? (h : e.Tracks stack id r) (ho : e.object? id = some (.iterator i))
    (hhandle : i.handle = some r.id) :
    (¬Arena.Lost r.born r.ended → e.arena.layout? r.id = some r.layout) ∧
      (Arena.Lost r.born r.ended → e.arena.layout? r.id = none) := by
  obtain ⟨j, hj, hended | ⟨-, x, hx, hagrees⟩⟩ := h
  · cases ho.symm.trans hj
    cases hended.2.symm.trans hhandle
  · have hlayout : e.arena.layout? r.id = x.layout := by
      unfold Arena.layout?
      rw [hx]
      rfl
    rw [hlayout]
    exact ⟨fun hkept => (hagrees.shown hkept).1, fun hlost => (hagrees.lost hlost).1⟩

/-! ### Rows of an iterator -/

/-- The first row of an iterator can be read. All further ones, at any later moment of any run, are
read with the layout of the first batch, unless a frame that owned the handle was aborted after the
first call; then they have no layout, and all columns are nil. -/
theorem nextRow_read {r e₀ e₁ : Engine} {born : List FrameId}
    {before : List (FrameId × FrameExit)} {first : ObjectId} (hr : r.Reachable)
    (hbefore : Course r [] e₀ born before) (ho : e₀.object? id = some (.iterator i))
    (hnew : i.handle = none) (hfirst : Serving.nextRow id e₀ = (.ok (.object .tuple first), e₁)) :
    ∃ batch row rest, e₀.batch i = .ok batch ∧ batch.rows = row :: rest ∧
      e₁.Shows first (some batch.layout) row ∧
      ∀ {e e' : Engine} {stack : List FrameId} {ended : List (FrameId × FrameExit)}
        {next : ObjectId}, Course e₁ born e stack ended →
        Serving.nextRow id e = (.ok (.object .tuple next), e') →
        ∃ j row, e.object? id = some (.iterator j) ∧ e.upcoming? j = some row ∧
          (¬Arena.Lost born ended → e'.Shows next (some batch.layout) row) ∧
          (Arena.Lost born ended → e'.Shows next none row) := by
  have hs₀ := hbefore.sound hr.sound
  obtain ⟨batch, row, rest, hbatch, hrows, hgave, harena⟩ := nextRow_first ho hnew hfirst
  have htracks := tracks_of_first hs₀ hgave harena
  have hs₁ : e₁.Sound born := by
    have hkept := ((Serving.keeps_nextRow id).spec hs₀).1
    rwa [hfirst] at hkept
  refine ⟨batch, row, rest, hbatch, hrows, ?_, fun {e e' stack ended next} hcourse hnext => ?_⟩
  · obtain ⟨queue, hiterator⟩ := hgave.iterator
    have hshown := (htracks.layout? hiterator rfl).1 (Arena.not_lost_nil born)
    rw [← hshown]
    exact hgave.shows
  · -- the iterator is not at its end, so it still has the handle
    have hlater := hcourse.tracks hs₁ htracks
    have ⟨j, hj, hstate⟩ := hlater
    rcases hstate with hended | ⟨hhandle, -⟩
    · cases (nextRow_ended hj hended).symm.trans hnext
    · obtain ⟨row, hrow, hgave', harena'⟩ := nextRow_further hj hhandle hnext
      have hmoves := (Serving.Moving.moves (x := Serving.nextRow id) e).retains
      rw [hnext] at hmoves
      have hafter := hlater.follow (harena' ▸ Arena.follows_retain _ _) hmoves
      obtain ⟨queue, hiterator⟩ := hgave'.iterator
      obtain ⟨hkept, hlost⟩ := hafter.layout? hiterator rfl
      refine ⟨j, row, hj, hrow, fun h => ?_, fun h => ?_⟩
      · rw [← hkept h]
        exact hgave'.shows
      · rw [← hlost h]
        exact hgave'.shows

/-! ### An iterator that is asked inside of a frame first -/

/-- A host with a table of two rows, and a statement that reads it. -/
def shelf : Host :=
  Host.new.performAll [.defineTable "items" [{ name := "id", typeId := Scalar.int4.id }],
    .insertRow "items" [some (.int4 1)], .insertRow "items" [some (.int4 2)],
    .defineStatement "sel" { kind := .select, action := .selectAll "items" }]

/-- The layout of the table. -/
def shelfLayout : RowLayout :=
  { typeId := 16384, attributes := [{ name := "id", typeId := Scalar.int4.id }] }

/-- A new engine on this host. -/
def listing : Engine := { bare {} Host.new with host := shelf }

/-- A script has an iterator over the rows, and a frame has started. -/
def asking : Engine :=
  (Serving.serve libraryCaller .openRows [.ofText "sel"] listing).2.pushFrame.2

/-- The iterator. -/
def shelfIterator : RowIterator :=
  { cursor := { name := "<unnamed portal 1>", cleanup := some ⟨0⟩ } }

/-- The script has asked for the first row. -/
def answered : Engine := (Serving.serve libraryCaller (.nextRow ⟨0⟩) [] asking).2

/-- The frame has ended. -/
def left (exit : FrameExit) : Engine := (answered.popFrame ⟨⟨0, 0⟩⟩ exit).2

theorem listing_reachable : listing.Reachable := by
  have hstart : start {} Host.new = (.ok (bare {} Host.new), Host.new) := rfl
  have hnew : (bare {} Host.new).Reachable := .start ⟨rfl, rfl⟩ hstart
  exact hnew.host ⟨rfl, rfl⟩

theorem course_asking : Course listing [] asking [⟨⟨0, 0⟩⟩] [] := by
  have hargs : AllOf listing.Admits [.ofText "sel"] :=
    List.forall_mem_singleton.mpr (innate_admits _ _ rfl)
  exact (Course.refl.serve hargs 9 { focus := .give [] } 1 .openRows).enter

theorem course_left (exit : FrameExit) :
    Course answered [⟨⟨0, 0⟩⟩] (left exit) [] [(⟨⟨0, 0⟩⟩, exit)] := Course.refl.leave exit

/-- After a frame that returned the second row is read like the first one. -/
theorem nextRow_read_returned :
    (Serving.nextRow ⟨0⟩ (left .normal)).2.Shows ⟨2⟩ (some shelfLayout) [some (.int4 2)] := by
  have hiterator : asking.object? ⟨0⟩ = some (.iterator shelfIterator) := rfl
  have hfirst : Serving.nextRow ⟨0⟩ asking = (.ok (.object .tuple ⟨1⟩), answered) := rfl
  have hnext : Serving.nextRow ⟨0⟩ (left .normal) =
      (.ok (.object .tuple ⟨2⟩), (Serving.nextRow ⟨0⟩ (left .normal)).2) := rfl
  have hfetched : asking.batch shelfIterator =
      .ok { layout := shelfLayout, rows := [[some (.int4 1)], [some (.int4 2)]] } := rfl
  have hgiven : (left .normal).object? ⟨0⟩ = some (.iterator
      { shelfIterator with handle := some ⟨⟨0, 0⟩⟩, queue := [[some (.int4 2)]] }) := rfl
  obtain ⟨batch, -, -, hbatch, -, -, hlater⟩ :=
    nextRow_read listing_reachable course_asking hiterator rfl hfirst
  obtain rfl := Except.ok.inj (hfetched.symm.trans hbatch)
  obtain ⟨j, row, hj, hrow, hkept, -⟩ := hlater (course_left .normal) hnext
  cases hgiven.symm.trans hj
  cases hrow
  refine hkept ?_
  show ¬Arena.Lost _ ([] ++ [(_, FrameExit.normal)])
  rw [Arena.lost_concat]
  simp [Arena.not_lost_nil]

/-- After a frame that was aborted the iterator gives the second row without a layout. -/
theorem nextRow_not_always_read :
    ¬ ∀ (r e e' : Engine) (stack : List FrameId) (ended : List (FrameId × FrameExit))
      (id o : ObjectId) (i : RowIterator) (row : Row), r.Reachable → Course r [] e stack ended →
      e.object? id = some (.iterator i) → e.upcoming? i = some row →
      Serving.nextRow id e = (.ok (.object .tuple o), e') →
      ∃ layout, e'.Shows o (some layout) row := by
  intro hread
  have hargs : AllOf asking.Admits [] := fun _ hv => absurd hv List.not_mem_nil
  have hanswered : Course listing [] answered [⟨⟨0, 0⟩⟩] [] :=
    course_asking.serve hargs 9 { focus := .give [] } 1 (.nextRow ⟨0⟩)
  have hgiven : (left .aborted).object? ⟨0⟩ = some (.iterator
      { shelfIterator with handle := some ⟨⟨0, 0⟩⟩, queue := [[some (.int4 2)]] }) := rfl
  have hnext : Serving.nextRow ⟨0⟩ (left .aborted) =
      (.ok (.object .tuple ⟨2⟩), (Serving.nextRow ⟨0⟩ (left .aborted)).2) := rfl
  obtain ⟨layout, hshows⟩ := hread _ _ _ _ _ _ _ _ _ listing_reachable
    (hanswered.leave .aborted) hgiven rfl hnext
  obtain ⟨t, tuple, ho, ht, -, hlayout⟩ := hshows.tuple
  cases ho
  cases ht
  cases hlayout

end Engine

end StoredRoutine
