import StoredRoutine.Proofs.Engine.Later

/-!
# `StoredRoutine.Proofs.Engine.Watched`: open cursors are in the registry

A cursor is registered when it is made, and its entry leaves the registry only when the cursor is
closed or the transaction ends. `Engine.Watched` says that each open cursor has its entry. It holds
of every engine that a host can have (`Reachable.watched`), and of every moment in between
(`Moves.watched`).

So the end of a transaction finds all open cursors in the registry, and closes them
(`Watched.drain`).
-/

set_option autoImplicit false

namespace StoredRoutine

open Script (ObjectId ThreadId Value)

/-- What services make of an object, its cursor stays what it is. -/
theorem Object.Change.cursor?_eq {o p : Object} (h : o.Change p) : p.cursor? = o.cursor? := by
  cases h <;> rfl

/-- Another cursor in the place of that of an object. -/
theorem Object.cursor?_mapCursor (f : Cursor → Cursor) (o : Object) :
    (o.mapCursor f).cursor? = o.cursor?.map f := by
  cases o <;> rfl

theorem Object.closed_of_shut {o : Object} {c : Cursor}
    (hc : (o.mapCursor .shut).cursor? = some c) : c.closed = true := by
  rw [cursor?_mapCursor] at hc
  obtain ⟨d, -, rfl⟩ := Option.map_eq_some_iff.mp hc
  rfl

/-- An object without an open cursor. -/
def Object.Shut (o : Object) : Prop := ∀ c, o.cursor? = some c → c.closed = true

/-- An object whose cursor counts as closed. -/
def Object.expire : Object → Object := mapCursor fun c => { c with closed := true }

theorem Object.shut_expire (o : Object) : o.expire.Shut := by
  intro c hc
  unfold expire at hc
  rw [cursor?_mapCursor] at hc
  obtain ⟨d, -, rfl⟩ := Option.map_eq_some_iff.mp hc
  rfl

theorem Object.expire_expire (o : Object) : o.expire.expire = o.expire := by
  cases o <;> rfl

/-- Whether a cleanup closes the cursor of an object. -/
def CleanupAction.closes (id : ObjectId) : CleanupAction → Bool
  | .closeCursor other => decide (other = id)
  | .dropExecution _ => false

namespace Engine

variable {e e' : Engine} {stack : List FrameId}

/-- Each open cursor has its entry in the registry, and no two entries have one name. -/
structure Watched (e : Engine) : Prop where
  names : (e.cleanups.entries.map (·.1)).Nodup
  given : ∀ x ∈ e.cleanups.entries, x.1.number < e.cleanups.next
  watched : ∀ id o c, e.object? id = some o → o.cursor? = some c → c.closed = false →
    ∃ cleanup, c.cleanup = some cleanup ∧ (cleanup, .closeCursor id) ∈ e.cleanups.entries

/-! ### One move -/

theorem Watched.ofSame (hw : e.Watched) (hobjects : e'.objects = e.objects)
    (hcleanups : e'.cleanups = e.cleanups) : e'.Watched where
  names := hcleanups ▸ hw.names
  given := hcleanups ▸ hw.given
  watched id o c ho := by
    unfold object? at ho
    rw [hobjects] at ho
    rw [hcleanups]
    exact hw.watched id o c ho

/-- An entry that is added keeps all others. -/
theorem Watched.register (hw : e.Watched) (action : CleanupAction) :
    ({ e with cleanups := (e.cleanups.register action).2 } : Engine).Watched where
  names := by
    refine List.nodup_cons.mpr ⟨fun hin => ?_, hw.names⟩
    obtain ⟨x, hx, heq⟩ := List.mem_map.mp hin
    have hlt := hw.given x hx
    rw [heq] at hlt
    exact Nat.lt_irrefl _ hlt
  given x hx := by
    rcases List.mem_cons.mp hx with rfl | hx
    · exact Nat.lt_succ_self _
    · exact Nat.lt_succ_of_lt (hw.given x hx)
  watched id o c ho hc hopen := by
    obtain ⟨cleanup, hcleanup, hin⟩ := hw.watched id o c ho hc hopen
    exact ⟨cleanup, hcleanup, List.mem_cons_of_mem _ hin⟩

/-- An entry that goes leaves those of open cursors, if it is not one of them. -/
theorem Watched.unregister (hw : e.Watched) {cleanup : CleanupId} {action : CleanupAction}
    (hentry : (cleanup, action) ∈ e.cleanups.entries)
    (hother : ∀ id o c, e.object? id = some o → o.cursor? = some c → c.closed = false →
      action ≠ .closeCursor id) :
    ({ e with cleanups := (e.cleanups.unregister cleanup).2 } : Engine).Watched := by
  have hwithout := CleanupRegistry.unregister_eq hw.names cleanup
  refine ⟨?_, fun x hx => ?_, fun id o c ho hc hopen => ?_⟩
  · show ((e.cleanups.unregister cleanup).2.entries.map (·.1)).Nodup
    rw [hwithout]
    exact hw.names.sublist (List.filter_sublist.map _)
  · replace hx : x ∈ (e.cleanups.unregister cleanup).2.entries := hx
    rw [hwithout, CleanupRegistry.mem_without] at hx
    exact hw.given x hx.1
  · obtain ⟨own, hown, hin⟩ := hw.watched id o c ho hc hopen
    refine ⟨own, hown, ?_⟩
    show (own, _) ∈ (e.cleanups.unregister cleanup).2.entries
    rw [hwithout, CleanupRegistry.mem_without]
    refine ⟨hin, fun heq => hother id o c ho hc hopen ?_⟩
    -- entries of one name are the same
    exact congrArg Prod.snd (List.inj_on_of_nodup_map hw.names hentry hin heq.symm)

/-- A new object, whose cursor has just been registered if it has one. -/
theorem Watched.push (hw : e.Watched) {o : Object}
    (ho : ∀ c, o.cursor? = some c →
      ∃ cleanup, c.cleanup = some cleanup ∧
        (cleanup, .closeCursor ⟨e.objects.size⟩) ∈ e.cleanups.entries) :
    ({ e with objects := e.objects.push o } : Engine).Watched where
  names := hw.names
  given := hw.given
  watched id p c hp hc hopen := by
    replace hp : (e.objects.push o)[id.index]? = some p := hp
    rw [Array.getElem?_push] at hp
    split at hp
    next hid =>
      cases hp
      obtain rfl : id = ⟨e.objects.size⟩ := by rw [← hid]
      exact ho c hc
    · exact hw.watched id p c hp hc hopen

/-- A change of an object that opens no cursor. -/
theorem Watched.modify (hw : e.Watched) (id : ObjectId) {f : Object → Object}
    (hf : ∀ o c, e.object? id = some o → (f o).cursor? = some c → c.closed = false →
      o.cursor? = some c) :
    (e.modifyObject id f).Watched where
  names := hw.names
  given := hw.given
  watched id' p c hp hc hopen := by
    replace hp : (e.objects.modify id.index f)[id'.index]? = some p := hp
    rw [Array.getElem?_modify] at hp
    split at hp
    next hid =>
      obtain rfl : id = id' := congrArg ObjectId.mk hid
      obtain ⟨o, ho, rfl⟩ := Option.map_eq_some_iff.mp hp
      exact hw.watched id o c ho (hf o c ho hc hopen) hopen
    · exact hw.watched id' p c hp hc hopen

theorem Move.watched (h : e.Move e') (hw : e.Watched) : e'.Watched := by
  cases h with
  | still hobjects hcleanups => exact hw.ofSame hobjects hcleanups
  | made o ho hobjects hcleanups =>
    refine Watched.ofSame (hw.push (o := o) fun c hc => ?_) hobjects hcleanups
    rw [ho] at hc
    cases hc
  | attached o name ho hobjects hcleanups =>
    refine Watched.ofSame ((hw.register (.closeCursor ⟨e.objects.size⟩)).push (o := o)
      fun c hc => ?_) hobjects hcleanups
    rw [ho] at hc
    cases hc
    exact ⟨_, rfl, List.mem_cons_self⟩
  | changed id o f ho hf hobjects hcleanups =>
    refine Watched.ofSame (hw.modify id (f := f) fun p c hp hc _ => ?_) hobjects hcleanups
    cases ho.symm.trans hp
    exact hf.cursor?_eq.symm.trans hc
  | closed id o c ho hc hopen hobjects hcleanups =>
    obtain ⟨cleanup, hcleanup, hentry⟩ := hw.watched id o c ho hc hopen
    rw [hcleanup] at hcleanups
    -- the cursor is closed by the time its entry has gone
    have hshut := hw.modify id (f := .mapCursor .shut) fun p d _ hd hopen' => by
      rw [Object.closed_of_shut hd] at hopen'
      cases hopen'
    refine Watched.ofSame (hshut.unregister hentry
      fun id' p d hp hd hopen' heq => ?_) hobjects hcleanups
    cases heq
    replace hp : (e.objects.modify id.index (.mapCursor .shut))[id.index]? = some p := hp
    rw [Array.getElem?_modify, if_pos rfl] at hp
    obtain ⟨q, -, rfl⟩ := Option.map_eq_some_iff.mp hp
    rw [Object.closed_of_shut hd] at hopen'
    cases hopen'

/-- Whatever scripts do, open cursors are watched. -/
theorem Moves.watched (h : e.Moves e') (hw : e.Watched) : e'.Watched := by
  induction h with
  | refl => exact hw
  | tail _ hmove ih => exact hmove.watched ih

/-! ### The end of a transaction -/

theorem object?_clean (e : Engine) (action : CleanupAction) (id : ObjectId) :
    (e.clean action).object? id =
      if action.closes id then (e.object? id).map Object.expire else e.object? id := by
  cases action with
  | dropExecution other => rfl
  | closeCursor other =>
    show (e.objects.modify other.index Object.expire)[id.index]? = _
    rw [Array.getElem?_modify]
    by_cases hid : other = id
    · subst hid
      have hcloses : (CleanupAction.closeCursor other).closes other = true := decide_eq_true rfl
      rw [if_pos rfl, if_pos hcloses]
      rfl
    · have hindex : other.index ≠ id.index := fun heq => hid (congrArg ObjectId.mk heq)
      have hcloses : (CleanupAction.closeCursor other).closes id ≠ true := by
        simpa [CleanupAction.closes] using hid
      rw [if_neg hindex, if_neg hcloses]
      rfl

/-- The entries close the cursors that they name, and no other ones. -/
theorem object?_foldl_clean (entries : List (CleanupId × CleanupAction)) (e : Engine)
    (id : ObjectId) :
    (entries.foldl (fun e entry => e.clean entry.2) e).object? id =
      if entries.any fun x => x.2.closes id then (e.object? id).map Object.expire
      else e.object? id := by
  induction entries generalizing e with
  | nil => rfl
  | cons entry rest ih =>
    rw [List.foldl_cons, ih, object?_clean, List.any_cons]
    cases entry.2.closes id with
    | false => rfl
    | true =>
      rw [if_pos rfl, Bool.true_or, if_pos rfl, Option.map_map]
      have hsame : Object.expire ∘ Object.expire = Object.expire := funext Object.expire_expire
      rw [hsame, ite_self]

/-- After the end of the transaction no cursor is open. -/
theorem Watched.shut_drain (hw : e.Watched) {id : ObjectId} {o : Object}
    (ho : e.drain.2.object? id = some o) : o.Shut := by
  have hdrained : e.drain.2.object? id =
      if e.cleanups.entries.any fun x => x.2.closes id then (e.object? id).map Object.expire
      else e.object? id := object?_foldl_clean e.cleanups.entries _ id
  rw [hdrained] at ho
  split at ho
  · obtain ⟨p, -, rfl⟩ := Option.map_eq_some_iff.mp ho
    exact p.shut_expire
  next hnone =>
    -- an open cursor would have its entry
    intro c hc
    by_contra hopen
    obtain ⟨cleanup, -, hentry⟩ := hw.watched id o c ho hc (by simpa using hopen)
    exact hnone (List.any_eq_true.mpr ⟨_, hentry, decide_eq_true rfl⟩)

theorem cleanups_drain (e : Engine) : e.drain.2.cleanups = ⟨[], e.cleanups.next⟩ := by
  have hsame (entries : List (CleanupId × CleanupAction)) (e : Engine) :
      (entries.foldl (fun e entry => e.clean entry.2) e).cleanups = e.cleanups := by
    induction entries generalizing e with
    | nil => rfl
    | cons entry rest ih =>
      rw [List.foldl_cons, ih]
      cases entry.2 <;> rfl
  exact hsame e.cleanups.entries _

theorem Watched.onTransaction (hw : e.Watched) (event : TransactionEvent) :
    (e.onTransaction event).2.Watched := by
  unfold Engine.onTransaction
  split
  · refine ⟨?_, fun x hx => ?_, fun id o c ho hc hopen => ?_⟩
    · rw [cleanups_drain]
      exact List.nodup_nil
    · rw [cleanups_drain] at hx
      exact absurd hx List.not_mem_nil
    · rw [hw.shut_drain ho c hc] at hopen
      cases hopen
  · exact hw

/-! ### Executions -/

theorem Watched.opened (hw : e.Watched) : e.opened.2.Watched :=
  Watched.ofSame (hw.register (.dropExecution ⟨e.started + 1⟩)) rfl rfl

/-- The entry of an execution is not that of a cursor. -/
theorem Watched.endExecution (hw : e.Watched) (hs : e.Sound stack) (id : ExecutionId) :
    (e.endExecution id).Watched := by
  unfold Engine.endExecution
  cases hx : e.execution? id with
  | none => exact hw
  | some x =>
    have hentry := (hs.registered.matched x.cleanup id).mpr
      ⟨x, (execution?_eq_some hs).mp hx, rfl⟩
    refine Watched.ofSame (hw.unregister hentry fun _ _ _ _ _ _ heq => ?_) rfl rfl
    cases heq

/-! ### Calls -/

variable {α β : Type}

/-- The frame of a call does not come near cursors. -/
theorem Watched.inFrame (hw : e.Watched) {work : Engine → (Outcome α × β) × Engine}
    (hwork : e.entered.Watched → (work e.entered).2.Watched) : (e.inFrame work).2.Watched := by
  obtain ⟨arena, poisoned, heq⟩ := inFrame_engine work e
  rw [heq]
  exact Watched.ofSame (hwork (Watched.ofSame hw rfl rfl)) rfl rfl

/-- A call watches open cursors if its work does. -/
theorem Watched.invoke (hw : e.Watched) (hs : e.Sound stack) (kind : CallKind) (id : TypeId)
    (state : β) {work : CompiledRoutine → Engine → (Outcome α × β) × Engine}
    (hwork : ∀ (r : CompiledRoutine) (e' : Engine) (stack' : List FrameId), e'.Sound stack' →
      Serving.Callable e' r → e'.Watched → (work r e').2.Watched) :
    (e.invoke kind id state work).2.Watched := by
  have hroutine := (Serving.keeps_routineFor kind id).spec hs
  have hmoved := Serving.Moving.moves (x := Serving.routineFor kind id) e
  unfold Serving.MovesFrom at hmoved
  unfold Engine.invoke
  generalize Serving.routineFor kind id e = found at hroutine hmoved ⊢
  obtain ⟨f | r, e'⟩ := found
  · exact hmoved.watched hw
  · obtain ⟨hs', -, hr⟩ := hroutine
    exact (hmoved.watched hw).inFrame fun hentered => hwork r e'.entered _ hs'.entered hr hentered

/-- The work of a call that does nothing but move objects. -/
theorem Watched.plainWork (hw : e.Watched) (x : Serving α) [hx : Serving.Moving x] :
    (plainWork x e).2.Watched := Moves.watched (hx.moves e) hw

theorem Watched.resumeThread (hw : e.Watched) (thread : ThreadId) (values : List Value) :
    (e.resumeThread thread values).2.Watched :=
  (moves_run maxTurns _ _).watched (Watched.ofSame hw rfl rfl)

/-- However a coroutine stops, the execution goes or the row is converted. -/
theorem Watched.answerRequest (hw : e.Watched) (hs : e.Sound stack) (r : CompiledRoutine)
    (id : ExecutionId) (ending : Script.Ending) : (answerRequest r id ending e).2.Watched := by
  unfold Engine.answerRequest
  split
  · exact hw.endExecution hs id
  · exact hw.endExecution hs id
  · exact hw.endExecution hs id
  next values =>
    simp only
    split
    · exact hw.endExecution hs id
    · have hconverted := (Serving.keeps_toDatum (values.headD .nil) r.resultType (-1)).spec hs
      have hmoved := Serving.Moving.moves
        (x := Serving.toDatum (values.headD .nil) r.resultType (-1)) e
      unfold Serving.MovesFrom at hmoved
      unfold Serving.resultDatum
      generalize Serving.toDatum _ _ _ e = converted at hconverted hmoved ⊢
      obtain ⟨f | d, e'⟩ := converted
      · exact (hmoved.watched hw).endExecution hconverted.1 id
      · exact hmoved.watched hw

theorem Watched.request (hw : e.Watched) (hs : e.Sound stack) {r : CompiledRoutine}
    (hr : Serving.Callable e r) (args : Row) (slot : SetCall) :
    (request args slot r e).2.Watched := by
  have hgiven : (Serving.arguments r args e).2.Watched :=
    Moves.watched (Serving.Moving.moves e) hw
  refine request_induction hw hgiven fun id ending stopped h => ?_
  have hstopped : stopped.Watched := by
    cases h with
    | first hvalues =>
      rw [hvalues] at hgiven
      exact hgiven.opened.resumeThread _ _
    | again hx hvalues =>
      rw [hvalues] at hgiven
      exact hgiven.resumeThread _ _
  exact hstopped.answerRequest (h.ran hs hr).1 r id ending

/-- An engine without cursors. -/
theorem watched_bare (options : Options) (host : Host) : (bare options host).Watched where
  names := List.nodup_nil
  given x hx := absurd hx List.not_mem_nil
  watched id o c ho := by
    replace ho : (#[] : Array Object)[id.index]? = some o := ho
    cases ho

/-- Every engine that a host can have watches its open cursors. -/
theorem Reachable.watched (he : e.Reachable) : e.Watched := by
  induction he with
  | @start options host host' e hw hstart =>
    have hmoved := Serving.Moving.moves (x := host.modules.forM Serving.evaluateModule)
      (bare options host)
    unfold Serving.MovesFrom at hmoved
    unfold Engine.start at hstart
    generalize host.modules.forM Serving.evaluateModule (bare options host) = done
      at hmoved hstart
    -- an engine that does not start is no engine, so the modules have gone well
    obtain ⟨f | _, e'⟩ := done
    · split at hstart <;> cases hstart
    · split at hstart
      · cases hstart
      · cases hstart
        exact hmoved.watched (watched_bare options host)
  | host _ _ ih => exact Watched.ofSame ih rfl rfl
  | call he id args ih =>
    exact ih.invoke he.sound .function id () fun r _ _ _ _ hw =>
      hw.plainWork (Serving.callForValue r args)
  | next he id slot args ih =>
    exact ih.invoke he.sound .setFunction id slot fun r _ _ hs hr hw => hw.request hs hr args slot
  | abandon he slot ih =>
    cases slot with
    | suspended id => exact ih.endExecution he.sound id
    | _ => exact ih
  | fire he id t ih =>
    exact ih.invoke he.sound .trigger id () fun r _ _ _ _ hw =>
      hw.plainWork (Serving.callTrigger t r)
  | @validate e _ id ih =>
    have hmoved : Serving.Moving (do
        Serving.checkUsable
        let _ ← Serving.lookup Serving.compile id : Serving Unit) := inferInstance
    exact Moves.watched (hmoved.moves e) ih
  | invalidate _ _ ih => exact Watched.ofSame ih rfl rfl
  | onTransaction _ event ih => exact ih.onTransaction event

end Engine

end StoredRoutine
