import StoredRoutine.Proofs.Engine.Objects

/-!
# `StoredRoutine.Proofs.Engine.Cursors`: statements, plans and iterators

The services on statements, plans and cursors keep the invariant, and answer with values that are
admitted.

An iterator gets a handle with its first row and gives it up at its end. It changes the reference
in one step and the arena in another, so `keeps_firstRow` and `keeps_finishIterator` take these
steps together. At the end the handle is still there: the tuples that the iterator made share it.
-/

set_option autoImplicit false

namespace StoredRoutine.Serving

open Script (ObjectId TableId Value)

variable {e : Engine} {stack : List FrameId}

/-! ### Cursors -/

theorem keeps_openCursor (id : ObjectId) : Keeps stack e (openCursor id) Any := by
  unfold openCursor
  refine keeps_get ?_
  split
  · split
    · exact keeps_throw rfl
    · exact keeps_pure trivial
  · exact keeps_throw rfl

theorem keeps_fetchRows (id : ObjectId) (direction : FetchDirection) (count : Int64) :
    Keeps stack e (fetchRows id direction count) Engine.Admits := by
  refine (keeps_openCursor id).bind fun c e₁ _ _ => ?_
  refine (keeps_onHost (Host.gentle_fetch c.name direction count)).bind fun rows e₂ _ _ => ?_
  split
  · exact keeps_pure (Engine.innate_admits e₂ _ rfl)
  · exact keeps_newResult rows

theorem keeps_moveCursor (id : ObjectId) (direction : FetchDirection) (count : Int64) :
    Keeps stack e (moveCursor id direction count) Any :=
  (keeps_openCursor id).bind fun c _ _ _ =>
    (keeps_onHost (Host.gentle_moveCursor c.name direction count)).any

/-- A cursor that is marked as closed names no other entry. -/
theorem harmless_mapCursor {f : Cursor → Cursor}
    (hf : ∀ c, (f c).cleanup.toList ⊆ c.cleanup.toList) (o : Object) :
    Engine.Harmless (Object.mapCursor f) o := by
  cases o with
  | cursor c => exact ⟨rfl, rfl, hf c⟩
  | iterator i => exact ⟨rfl, rfl, hf i.cursor⟩
  | _ => exact ⟨rfl, rfl, List.Subset.refl _⟩

theorem keeps_closePortal (id : ObjectId) {c : Cursor}
    (hc : ∀ cleanup ∈ c.cleanup, Engine.NoExecution e.cleanups cleanup) :
    Keeps stack e (closePortal id c) Any := by
  unfold closePortal
  split
  · exact keeps_pure trivial
  · refine Keeps.bind (R := Any) (keeps_modify fun hs => ?_) fun _ e' _ _ =>
      (keeps_onHost (Host.gentle_closeCursor c.name)).any
    have hmarked := hs.modifyObject id
      (f := Object.mapCursor fun c => { c with closed := true, cleanup := none })
      fun o _ => harmless_mapCursor (fun _ => List.nil_subset _) o
    cases hcleanup : c.cleanup with
    | none => exact ⟨hmarked, Engine.Follows.ofSame rfl rfl rfl rfl rfl⟩
    | some cleanup =>
      refine ⟨⟨hmarked.arena, hmarked.shared, hmarked.heap, hmarked.functions, hmarked.host, ?_⟩,
        Engine.Follows.ofSame rfl rfl rfl rfl rfl⟩
      have hdropped := hmarked.registered.dropCursor (hc cleanup hcleanup).2
      rw [← CleanupRegistry.unregister_eq hmarked.registered.entries] at hdropped
      exact hdropped

/-- The entry that the cursor of an object names is not that of an execution. -/
theorem noExecution_of_object (hs : e.Sound stack) {id : ObjectId} {o : Object}
    (ho : e.object? id = some o) :
    ∀ cleanup ∈ o.cleanups, Engine.NoExecution e.cleanups cleanup :=
  hs.registered.cursors o (Array.mem_of_getElem? ho)

theorem keeps_closeCursor (id : ObjectId) : Keeps stack e (closeCursor id) Any := by
  unfold closeCursor
  refine keeps_ofSound fun hs => keeps_get ?_
  split
  next c ho =>
    exact keeps_closePortal id fun cleanup hc =>
      noExecution_of_object hs ho cleanup (Option.mem_toList.mpr hc)
  · exact keeps_throw rfl

/-! ### Iterators -/

theorem keeps_newIterator (portal : String) : Keeps stack e (newIterator portal) Engine.Admits :=
  (keeps_attachCursor portal fun _ => ⟨rfl, rfl, rfl⟩).bind fun _ _ _ _ =>
    keeps_pure (Engine.admits_of_isFunction rfl)

/-- At the end of an iterator its handle loses a reference, but not the last one. -/
theorem keeps_finishIterator {id : ObjectId} {i : RowIterator}
    (ho : e.object? id = some (.iterator i)) : Keeps stack e (finishIterator id i) Any := by
  refine keeps_ofSound fun hs => ?_
  let finish : Object → Object := .mapIterator fun i => { i with done := true, handle := none }
  have hclose (e' : Engine) (hsame : e'.cleanups = e.cleanups) :
      Keeps stack e' (tryCatch (closePortal id i.cursor) fun _ => pure ()) Any := by
    refine (keeps_closePortal id fun cleanup hc => ?_).tryCatch fun _ _ _ => keeps_pure trivial
    rw [hsame]
    exact noExecution_of_object hs ho cleanup (Option.mem_toList.mpr hc)
  cases hhandle : i.handle with
  | none =>
    -- there were no rows, so there is no reference to give up
    have hsame : ∀ o, e.object? id = some o → Engine.Harmless finish o := by
      intro o ho'
      cases ho.symm.trans ho'
      simp [finish, Object.mapIterator, Engine.Harmless, Object.handles, Object.passing,
        Object.cleanups, hhandle]
    refine keeps_steps (e.modifyObject id finish) ?_ (fun hs => ⟨hs.modifyObject id hsame,
      Engine.Follows.ofSame rfl rfl rfl rfl rfl⟩) (hclose _ rfl)
    unfold finishIterator
    rw [hhandle]
    rfl
  | some handle =>
    have hheld : Object.handles (.iterator i) = [handle] := by simp [Object.handles, hhandle]
    refine keeps_steps { e with
        arena := e.arena.release handle
        objects := e.objects.modify id.index finish } ?_ (fun hs => ⟨?_, ?_⟩) (hclose _ rfl)
    · unfold finishIterator
      rw [hhandle]
      rfl
    · refine hs.exchangeObject (f := finish) ho (fun rest hrest => ?_)
        (fun x hx => absurd hx List.not_mem_nil) (List.Subset.refl _)
      rw [hheld] at hrest
      exact (hs.arena.perm hrest).release
    · -- a tuple of the iterator still refers to the handle
      obtain ⟨rest, hrest⟩ := Engine.held_perm_of_object ho
      rw [hheld] at hrest
      have hin : handle ∈ e.tupleHandles ++ rest := by
        refine List.mem_append_left rest (hs.shared _ (Array.mem_of_getElem? ho) handle ?_)
        simp [Object.passing, hhandle]
      exact Engine.Follows.ofArena ((hs.arena.perm hrest).follows_release hin) rfl rfl rfl rfl

/-- A further row of an iterator shares the handle. -/
theorem keeps_furtherRow {id : ObjectId} {i : RowIterator} {handle : HandleId}
    (ho : e.object? id = some (.iterator i)) (hhandle : i.handle = some handle)
    {f : RowIterator → RowIterator} (hf : (f i).handle = some handle)
    (hcursor : (f i).cursor = i.cursor) (row : Row) :
    Keeps stack e (do
      modifyIterator id f
      showTuple (← tupleWith handle row .readOnly)) Engine.Admits := by
  refine keeps_ofSound fun hs => ?_
  have hin : handle ∈ e.tupleHandles := by
    refine hs.shared _ (Array.mem_of_getElem? ho) handle ?_
    simp [Object.passing, hhandle]
  refine Keeps.bind (keeps_modifyObject id fun o ho' => ?_) fun _ e₁ _ heq => ?_
  · cases ho.symm.trans ho'
    simp [Object.mapIterator, Engine.Harmless, Object.handles, Object.passing, Object.cleanups,
      hhandle, hf, hcursor]
  · have hin₁ : handle ∈ e₁.held := by
      rw [heq]
      exact List.mem_append_left _ hin
    exact (keeps_tupleWith hin₁ row .readOnly).bind fun t _ _ _ => keeps_showTuple t

/-- The first row of an iterator makes the handle, for the iterator and for the tuple. -/
theorem keeps_firstRow {id : ObjectId} {i : RowIterator}
    (ho : e.object? id = some (.iterator i)) (hhandle : i.handle = none) (layout : RowLayout)
    (row : Row) (rest : List Row) :
    Keeps stack e (do
      let handle ← allocate layout
      modifyIterator id fun i => { i with handle := some handle, queue := rest }
      showTuple (← tupleWith handle row .readOnly)) Engine.Admits := by
  let handle := (e.arena.allocate layout).1
  let begun : Object → Object := .mapIterator fun i =>
    { i with handle := some handle, queue := rest }
  let e' : Engine := { e with
    arena := (e.arena.allocate layout).2.retain handle
    tuples := e.tuples.push { handle, values := row, state := .readOnly }
    objects := e.objects.modify id.index begun }
  -- the tuple takes the reference of the new handle, and the iterator one more
  refine keeps_steps e' (y := showTuple ⟨e.tuples.size⟩) rfl (fun hs => ⟨?_, ?_⟩)
    (keeps_showTuple _)
  · have htuple : Engine.Sound { e with
        arena := (e.arena.allocate layout).2
        tuples := e.tuples.push { handle, values := row, state := .readOnly } } stack :=
      hs.pushTuple (hs.arena.allocate layout)
    have hmade : handle ∈ e.tupleHandles ++ [handle] := List.mem_append_right _
      (List.mem_singleton_self _)
    rw [← Engine.tupleHandles_push e { handle, values := row, state := .readOnly }] at hmade
    refine htuple.exchangeObject (f := begun) ho (fun further hfurther => ?_) (fun x hx => ?_)
      (List.Subset.refl _)
    · have hnone : Object.handles (.iterator i) = [] := by simp [Object.handles, hhandle]
      rw [hnone] at hfurther
      have harena := htuple.arena.perm hfurther
      exact harena.retain (hfurther.mem_iff.mp (List.mem_append_left _ hmade))
    · cases List.mem_singleton.mp hx
      exact hmade
  · exact Engine.Follows.ofArena
      ((hs.arena.follows_allocate layout).trans (Arena.follows_retain _ _)) rfl rfl rfl rfl

theorem keeps_nextRow (id : ObjectId) : Keeps stack e (nextRow id) Engine.Admits := by
  unfold nextRow
  refine keeps_get ?_
  split
  next i ho =>
    split
    next row rest handle _ hhandle =>
      exact keeps_furtherRow ho hhandle (f := fun i => { i with queue := rest }) hhandle rfl row
    · split
      · exact keeps_pure (Engine.innate_admits e _ rfl)
      · -- the next batch; a fetch leaves the iterator as it was
        refine keeps_get ?_
        refine (keeps_onHost (Host.gentle_fetch _ _ _)).bind fun batch e₁ _ heq => ?_
        have ho₁ : e₁.object? id = some (.iterator i) := by
          obtain ⟨host, rfl⟩ := heq
          exact ho
        split
        · exact (keeps_finishIterator ho₁).bind fun _ e₂ _ _ =>
            keeps_pure (Engine.innate_admits e₂ .nil rfl)
        next row rest _ =>
          unfold iteratorHandle
          cases hhandle : i.handle with
          | some handle =>
            simp only [pure_bind]
            exact keeps_furtherRow ho₁ hhandle
              (f := fun i => { i with handle := some handle, queue := rest }) rfl rfl row
          | none => exact keeps_firstRow ho₁ hhandle _ row rest
  · exact keeps_throw rfl

/-! ### Statements and plans -/

theorem keeps_execute (sql : String) (params : Row) (readOnly : Bool) (limit : Nat) :
    Keeps stack e (execute sql params readOnly limit) Engine.Admits :=
  (keeps_onHost (Host.gentle_execute sql params readOnly limit)).bind fun r _ _ _ =>
    keeps_resultOf r

theorem keeps_openPortal (sql : String) (params : Row) (name : Option String) (readOnly : Bool) :
    Keeps stack e (openPortal sql params name readOnly) Any :=
  (keeps_onHost (Host.gentle_openCursor sql params name readOnly)).any

theorem keeps_findCursor (name : String) : Keeps stack e (findCursor name) Engine.Admits := by
  unfold findCursor
  refine keeps_get ?_
  split
  · exact keeps_newCursor name
  · exact keeps_pure (Engine.innate_admits e _ rfl)

theorem keeps_paramTypes (types : TableId) : Keeps stack e (paramTypes types) Any := by
  refine Keeps.bind (R := Any) (keeps_modifyGet fun hs => ⟨hs.withHeap (hs.heap.length types),
    Engine.Follows.ofSame rfl rfl rfl rfl rfl, trivial⟩) fun length e₁ _ _ => ?_
  refine keeps_get (Keeps.any (keeps_mapM (S := Any) (fun _ _ _ _ _ => trivial)
    fun i _ e₂ _ => ?_))
  refine (keeps_ofOutcome (R := Any) (Arguments.catchable_text _) fun _ _ => trivial).bind
    fun name e₃ _ _ => ?_
  split
  · exact keeps_pure trivial
  · exact keeps_throw rfl

theorem keeps_newPlan (sql : String) (types : Option TableId) :
    Keeps stack e (newPlan sql types) Engine.Admits := by
  cases types with
  | none => exact keeps_newObject .plan rfl rfl rfl
  | some types =>
    exact (keeps_paramTypes types).bind fun _ _ _ _ => keeps_newObject .plan rfl rfl rfl

theorem keeps_planOf (id : ObjectId) : Keeps stack e (planOf id) Any := by
  unfold planOf
  refine keeps_get ?_
  split
  · exact keeps_pure trivial
  · exact keeps_throw rfl

theorem keeps_bindParams (p : Plan) (args : Option TableId) :
    Keeps stack e (bindParams p args) Any := by
  unfold bindParams
  split
  · exact keeps_pure trivial
  · split
    · exact keeps_throw rfl
    · exact Keeps.any (keeps_mapM (S := Any) (fun _ _ _ _ _ => trivial) fun _ _ _ _ =>
        keeps_get (keeps_toDatum _ _ _))

theorem keeps_savePlan (id : ObjectId) : Keeps stack e (savePlan id) Any := by
  refine (keeps_modifyObject id fun o _ => ?_).any
  cases o <;> exact ⟨rfl, rfl, List.Subset.refl _⟩

/-! ### Reports -/

/-- The fields of a report are texts. -/
theorem text_of_reportFields {r : Report} {f : String × Value} (hf : f ∈ Engine.reportFields r) :
    ∃ text, f.2 = Value.ofText text := by
  unfold Engine.reportFields at hf
  cases r.detail <;> cases r.hint <;> cases r.context <;> cases r.code <;>
    simp at hf <;> grind

theorem Engine.admits_reportFields (e : Engine) (r : Report) :
    ∀ f ∈ Engine.reportFields r, e.Admits f.2 := by
  intro f hf
  obtain ⟨text, heq⟩ := text_of_reportFields hf
  rw [heq]
  exact Engine.innate_admits e _ rfl

theorem keeps_reportTable (r : Report) : Keeps stack e (reportTable r) fun e' v =>
    e'.Admits v ∧ e'.host = e.host ∧ e'.arena = e.arena := by
  refine keeps_modifyGet fun hs => ⟨?_, Engine.Follows.ofSame rfl rfl rfl rfl rfl,
    Engine.admits_table _ _, rfl, rfl⟩
  have hmade := hs.heap.tableOf (Engine.innate_admits e) (Engine.admits_reportFields e r)
  exact hs.withHeap (hmade.modifyTable _ (Script.Table.holds_of_values_eq (hmade.table _) rfl))

end StoredRoutine.Serving
