import StoredRoutine.Proofs.Engine.Hides
import StoredRoutine.Proofs.Engine.Reachable

/-!
# `StoredRoutine.Proofs.Engine.Guarded`: every engine that a host can have hides the guard

A new engine hides the guard of its globals (`Engine.bare_hides`). Routines and modules are
functions of sources, whose only variable from outside is the table of globals. The arguments of a
call, the description of a trigger event and the coroutine of a set come from the engine. So a call
from the host starts with values that are not the guard, whatever the host does
(`Engine.Reachable.hides`).
-/

set_option autoImplicit false

namespace StoredRoutine

open Script (AllOf Control Ending Heap TableId ThreadId Value)

variable {guard : Option TableId}

namespace Serving

variable {α : Type} {e : Engine} {f : Value} {args : List Value}

/-! ### Routines -/

theorem hides_load (name source : String) :
    Hides guard e (load name source) (Value.Shown guard) := by
  unfold load
  dsimp only
  split
  · exact hides_throw _
  · split
    · exact hides_throw _
    · exact hides_modifyGet fun he => ⟨he.withHeap (he.heap.newMain _ _), innate_shown guard _ rfl⟩

theorem hides_loadAndRun (name source : String) :
    Hides guard e (load name source >>= fun f => runUnprotected Engine.callFunction f [])
      (AllOf (Value.Shown guard)) :=
  (hides_load name source).bind fun _ _ hf =>
    hides_runUnprotected Engine.callFunction_hides hf AllOf.nil

theorem hides_compile (d : RoutineDefinition) :
    Hides guard e (compile d) (Value.Shown guard) := by
  refine hides_get ((hides_loadAndRun _ _).attempt.bind fun outcome e₁ houtcome => ?_)
  cases outcome with
  | error f => exact hides_throw _
  | ok results =>
    cases results with
    | nil => exact hides_throw _
    | cons f rest =>
      simp only
      split
      · exact hides_pure (houtcome _ rfl f List.mem_cons_self)
      · exact hides_throw _

theorem hides_lookup (id : TypeId) :
    Hides guard e (lookup compile id) fun r => r.function.Shown guard := by
  unfold lookup
  refine hides_ofHides fun he => hides_get ?_
  split
  · exact hides_throw _
  next d _ =>
    split
    next r hr =>
      -- the function of a routine that is known is one that the engine keeps
      exact hides_pure (he.functions _ (List.mem_cons_of_mem _ (function_of_current hr)))
    · refine hides_bind fun _ e₁ => (hides_compile d).bind fun f e₂ hf => ?_
      refine Hides.bind (R := fun _ => True) (hides_modify fun he₂ => ?_) fun _ e₃ _ =>
        hides_pure hf
      refine ⟨he₂.trusted, he₂.heap, fun v hv => ?_, he₂.relations, he₂.reports⟩
      rcases List.mem_cons.mp hv with rfl | hv
      · exact he₂.functions _ List.mem_cons_self
      · rcases function_of_enter hv with rfl | hv
        · exact hf
        · exact he₂.functions _ (List.mem_cons_of_mem _ hv)

theorem hides_routineFor (kind : CallKind) (id : TypeId) :
    Hides guard e (routineFor kind id) fun r => r.function.Shown guard :=
  hides_bind fun _ _ => (hides_lookup id).bind fun _ _ hr => hides_bind fun _ _ => hides_pure hr

/-! ### Calls -/

theorem hides_arguments (r : CompiledRoutine) (args : Row) :
    Hides guard e (arguments r args) (AllOf (Value.Shown guard)) := by
  unfold arguments
  split
  · exact hides_throw_bind _ _
  · exact hides_mapM fun a _ _ => hides_ofDatum a.1 a.2

theorem hides_runRaising (hf : f.Shown guard) (hargs : AllOf (Value.Shown guard) args) :
    Hides guard e (runRaising f args) (AllOf (Value.Shown guard)) := by
  refine (hides_runProtected Engine.callFunction_hides hf hargs).bind fun returned e₁ hr => ?_
  cases returned with
  | ok results => exact hides_pure hr
  | error raised => exact hides_get (hides_throw _)

theorem hides_callForValue {r : CompiledRoutine} (hr : r.function.Shown guard) (args : Row) :
    Hides guard e (callForValue r args) fun _ => True :=
  (hides_arguments r args).bind fun _ _ hvalues =>
    (hides_runRaising hr hvalues).bind fun _ _ _ => hides_aside

/-! ### Triggers -/

theorem hides_relationTable (r : Relation) :
    Hides guard e (relationTable r) (Value.Shown guard) := by
  unfold relationTable
  refine hides_ofHides fun he => hides_get ?_
  split
  next id hid =>
    obtain ⟨front, back, heq, -⟩ := List.lookup_eq_some_iff.mp hid
    refine hides_pure (he.relations (r.id, id) ?_)
    rw [heq]
    exact List.mem_append_right _ List.mem_cons_self
  · refine hides_modifyGet fun he => ?_
    have own := innate_shown guard
    dsimp only
    obtain ⟨hattributes, hid⟩ := he.heap.tableOf own (positions_all own r)
    generalize e.heap.tableOf _ = made at hattributes hid ⊢
    obtain ⟨attributes, heap⟩ := made
    obtain ⟨hrelation, hrelationId⟩ := hattributes.tableOf own (relationFields_all own r hid)
    exact ⟨⟨he.trusted, hrelation, he.functions,
      List.forall_mem_cons.mpr ⟨hrelationId, he.relations⟩, he.reports⟩, hrelationId⟩

theorem hides_rowField (name : String) (row : Option RowValue) (state : TupleState) :
    Hides guard e (rowField name row state) fun made => ∀ f ∈ made.1, f.2.Shown guard := by
  cases row with
  | none => exact hides_pure fun f hf => absurd hf List.not_mem_nil
  | some row =>
    exact hides_bind fun t _ => (hides_tableless (x := showTuple t)).bind
      fun v _ hv => hides_pure (List.forall_mem_singleton.mpr hv)

theorem hides_publishEvent (t : TriggerEvent) : Hides guard e (publishEvent t) fun _ => True := by
  refine (hides_relationTable t.relation).bind fun relation e₁ hrelation => ?_
  refine (hides_rowField _ _ _).bind fun (rowFields, tuple) e₂ hrow => ?_
  refine (hides_rowField _ _ _).bind fun (oldFields, _) e₃ hold => ?_
  have own := innate_shown guard
  refine hides_modifyGet fun he => ⟨he.withHeap ?_, trivial⟩
  obtain ⟨hheap, hid⟩ := he.heap.tableOf own (eventFields_all own t hrelation hrow hold)
  exact hheap.setGlobal own _ hid

theorem hides_runTrigger (t : TriggerEvent) {r : CompiledRoutine} (hr : r.function.Shown guard) :
    Hides guard e (runTrigger t r) fun _ => True := by
  refine (hides_publishEvent t).bind fun made e₁ _ => ?_
  have hargs : AllOf (Value.Shown guard) (t.args.map Value.ofText) := by
    intro v hv
    obtain ⟨text, -, rfl⟩ := List.mem_map.mp hv
    exact innate_shown guard _ rfl
  exact (hides_runRaising hr hargs).bind fun _ _ _ => hides_aside

theorem hides_callTrigger (t : TriggerEvent) {r : CompiledRoutine} (hr : r.function.Shown guard) :
    Hides guard e (callTrigger t r) fun _ => True := by
  refine (hides_runTrigger t hr).attempt.bind fun result e₁ _ => ?_
  -- the global with the event is taken back in any case
  refine Hides.bind (R := fun _ => True) (hides_modify fun he => he.withHeap ?_)
    fun _ _ _ => hides_aside
  exact he.heap.setGlobal (innate_shown guard) _ (innate_shown guard _ rfl)

/-! ### Modules -/

theorem hides_evaluateModule (m : InitModule) :
    Hides guard e (evaluateModule m) fun _ => True := by
  have hload : Hides guard e (loadModule m) (Value.Shown guard) := by
    -- a module may be an expression, and is tried as one first
    refine (hides_load _ _).attempt.bind fun outcome e₁ houtcome => ?_
    cases outcome with
    | ok f => exact hides_pure (houtcome f rfl)
    | error _ => exact hides_load _ _
  have hrun : Hides guard e (loadModule m >>= fun f => runUnprotected Engine.callFunction f [])
      (AllOf (Value.Shown guard)) :=
    hload.bind fun _ _ hf => hides_runUnprotected Engine.callFunction_hides hf AllOf.nil
  refine hrun.attempt.bind fun outcome e₁ houtcome => ?_
  cases outcome with
  | error f => exact hides_throw _
  | ok results =>
    dsimp only
    split
    · have hvalue := AllOf.headD (innate_shown guard) (houtcome results rfl)
      exact hides_modify fun he => he.withHeap
        (he.heap.setGlobal (innate_shown guard) _ hvalue)
    · exact hides_pure trivial

end Serving

namespace Engine

variable {α β : Type} {e : Engine}

/-! ### Calls from the host -/

/-- The frame of a call does not matter to scripts. -/
theorem inFrame_hides {work : Engine → (Outcome α × β) × Engine} (he : e.Hides guard)
    (hwork : ∀ e' : Engine, e'.Hides guard → (work e').2.Hides guard) :
    (e.inFrame work).2.Hides guard := by
  obtain ⟨arena, poisoned, heq⟩ := inFrame_engine work e
  rw [heq]
  have hentered : e.entered.Hides guard := he.ofSame ⟨rfl, rfl, rfl, rfl, rfl, rfl⟩
  exact (hwork _ hentered).ofSame ⟨rfl, rfl, rfl, rfl, rfl, rfl⟩

/-- A call works with a routine of the engine. -/
theorem invoke_hides (kind : CallKind) (id : TypeId) (state : β)
    {work : CompiledRoutine → Engine → (Outcome α × β) × Engine} (he : e.Hides guard)
    (hwork : ∀ (r : CompiledRoutine) (e' : Engine), r.function.Shown guard →
      e'.Hides guard → (work r e').2.Hides guard) :
    (e.invoke kind id state work).2.Hides guard := by
  have hroutine := Serving.hides_routineFor kind id he
  unfold invoke
  generalize Serving.routineFor kind id e = found at hroutine ⊢
  obtain ⟨r, e'⟩ := found
  cases r with
  | error f => exact hroutine.1
  | ok r => exact inFrame_hides hroutine.1 fun e'' he'' => hwork r e'' (hroutine.2 r rfl) he''

theorem call_hides (he : e.Hides guard) (id : TypeId) (args : Row) :
    (e.call id args).2.Hides guard :=
  invoke_hides .function id () he fun _ _ hr he' => (Serving.hides_callForValue hr args he').1

theorem fire_hides (he : e.Hides guard) (id : TypeId) (t : TriggerEvent) :
    (e.fire id t).2.Hides guard :=
  invoke_hides .trigger id () he fun _ _ hr he' => (Serving.hides_callTrigger t hr he').1

theorem validate_hides (he : e.Hides guard) (id : TypeId) : (e.validate id).2.Hides guard := by
  have hlookup : Serving.Hides guard e (do
      Serving.checkUsable
      let _ ← Serving.lookup Serving.compile id) fun _ => True :=
    Serving.hides_bind fun _ _ => (Serving.hides_lookup id).bind fun _ _ _ =>
      Serving.hides_pure trivial
  exact (hlookup he).1

theorem invalidate_hides (he : e.Hides guard) (id : TypeId) :
    (e.invalidate id).2.Hides guard := by
  refine ⟨he.trusted, he.heap, fun v hv => ?_, he.relations, he.reports⟩
  rcases List.mem_cons.mp hv with rfl | hv
  · exact he.functions _ List.mem_cons_self
  · exact he.functions _ (List.mem_cons_of_mem _ (Serving.function_of_filter hv))

/-! ### Sets -/

theorem endExecution_hides (he : e.Hides guard) (id : ExecutionId) :
    (e.endExecution id).Hides guard := by
  unfold endExecution
  split
  · exact he
  · exact he.ofSame ⟨rfl, rfl, rfl, rfl, rfl, rfl⟩

theorem resumeCall_hides (he : e.Hides guard) (r : CompiledRoutine) (id : ExecutionId)
    (thread : ThreadId) {values : List Value} (hvalues : AllOf (Value.Shown guard) values) :
    (e.resumeCall r id thread values).2.Hides guard := by
  have hactive := he.withHeap (he.heap.setThread thread (s := .active) trivial)
  have hcontrol := holds_controlOf (innate_shown guard) he.heap.toHolds thread hvalues
  have hran := (run_hides maxTurns hactive hcontrol).1
  unfold resumeCall resumeThread
  dsimp only
  generalize run maxTurns _ _ = stopped at hran ⊢
  obtain ⟨ending, e'⟩ := stopped
  unfold answerRequest
  split
  · exact endExecution_hides hran id
  · exact endExecution_hides hran id
  · exact endExecution_hides hran id
  next row _ =>
    dsimp only
    split
    · exact endExecution_hides hran id
    · have hdatum := Serving.same_of_aside (Serving.resultDatum r (row.headD .nil)) e'
      generalize Serving.resultDatum r (row.headD .nil) e' = converted at hdatum ⊢
      obtain ⟨outcome, e''⟩ := converted
      cases outcome with
      | ok d => exact hran.ofSame hdatum
      | error f => exact endExecution_hides (hran.ofSame hdatum) id

theorem request_hides (args : Row) (slot : SetCall) {r : CompiledRoutine}
    (hr : r.function.Shown guard) (he : e.Hides guard) :
    (request args slot r e).2.Hides guard := by
  have hargs := Serving.hides_arguments r args he
  refine request_induction he hargs.1 fun id ending stopped h => ?_
  cases h with
  | @first values e' hvalues =>
    rw [hvalues] at hargs
    obtain ⟨he', hgiven⟩ := hargs
    have hthread := he'.heap.newThread (he'.functions _ List.mem_cons_self)
    -- the coroutine of a set starts with the body of all sets, which gets the routine
    have hopened : e'.opened.2.Hides guard :=
      ⟨he'.trusted, hthread, he'.functions, he'.relations, he'.reports⟩
    exact resumeCall_hides hopened r _ _ (AllOf.cons hr (hgiven values rfl))
  | again hx hvalues =>
    rw [hvalues] at hargs
    exact resumeCall_hides hargs.1 r _ _ (hargs.2 _ rfl)

theorem next_hides (he : e.Hides guard) (id : TypeId) (slot : SetCall) (args : Row) :
    (e.next id slot args).2.Hides guard :=
  invoke_hides .setFunction id slot he fun _ _ hr he' => request_hides args slot hr he'

theorem abandon_hides (he : e.Hides guard) (slot : SetCall) : (e.abandon slot).2.Hides guard := by
  cases slot with
  | suspended id => exact endExecution_hides he id
  | _ => exact he

/-! ### Transactions -/

theorem clean_hides (he : e.Hides guard) (action : CleanupAction) :
    (e.clean action).Hides guard := by
  cases action <;> exact he.ofSame ⟨rfl, rfl, rfl, rfl, rfl, rfl⟩

theorem onTransaction_hides (he : e.Hides guard) (event : TransactionEvent) :
    (e.onTransaction event).2.Hides guard := by
  have hclean (entries : List (CleanupId × CleanupAction)) {e : Engine} (he : e.Hides guard) :
      (entries.foldl (fun e entry => e.clean entry.2) e).Hides guard := by
    induction entries generalizing e with
    | nil => exact he
    | cons entry rest ih => exact ih (clean_hides he entry.2)
  unfold onTransaction
  split
  · exact hclean _ (he.ofSame ⟨rfl, rfl, rfl, rfl, rfl, rfl⟩)
  · exact he

/-! ### Engines -/

/-- A new engine has a guard if scripts are trusted. -/
theorem bare_hides (options : Options) (host : Host) :
    ∃ guard, (bare options host).Hides guard := by
  obtain ⟨guard, htrusted, hconforms⟩ := bare_conforms options host
  have htables : ∀ id, guard ≠ some id → (Value.table id).Shown guard := by
    rintro id hid other hother ⟨⟩
    exact hid hother
  obtain ⟨hheap, hreports, hbody⟩ := hconforms (Value.Shown guard) (innate_shown guard) htables
  exact ⟨guard, htrusted, hheap, AllOf.single hbody,
    fun _ hr => absurd hr List.not_mem_nil, hreports⟩

theorem start_hides {options : Options} {host host' : Host}
    (hstart : start options host = (.ok e, host')) : ∃ guard, e.Hides guard := by
  obtain ⟨guard, hbare⟩ := bare_hides options host
  refine ⟨guard, ?_⟩
  unfold start at hstart
  split at hstart
  · cases hstart
  · have hmodules := Serving.hides_forM (l := host.modules)
      (fun m _ => Serving.hides_evaluateModule m) hbare
    generalize host.modules.forM Serving.evaluateModule (bare options host) = done
      at hstart hmodules
    obtain ⟨outcome, e'⟩ := done
    cases outcome with
    | error f => cases hstart
    | ok _ =>
      cases hstart
      exact hmodules.1

/-- No value in an engine that a host can have is the guard of its globals. -/
theorem Reachable.hides (he : e.Reachable) : ∃ guard, e.Hides guard := by
  induction he with
  | start _ hstart => exact start_hides hstart
  | host _ _ ih => exact ih.imp fun _ h => h.ofSame ⟨rfl, rfl, rfl, rfl, rfl, rfl⟩
  | call _ id args ih => exact ih.imp fun _ h => call_hides h id args
  | next _ id slot args ih => exact ih.imp fun _ h => next_hides h id slot args
  | abandon _ slot ih => exact ih.imp fun _ h => abandon_hides h slot
  | fire _ id t ih => exact ih.imp fun _ h => fire_hides h id t
  | validate _ id ih => exact ih.imp fun _ h => validate_hides h id
  | invalidate _ id ih => exact ih.imp fun _ h => invalidate_hides h id
  | onTransaction _ event ih => exact ih.imp fun _ h => onTransaction_hides h event

end Engine

end StoredRoutine
