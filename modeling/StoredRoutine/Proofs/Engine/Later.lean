import StoredRoutine.Proofs.Engine.Course
import StoredRoutine.Proofs.Engine.Sessions
import Mathlib.Data.List.Induction

/-!
# `StoredRoutine.Proofs.Engine.Later`: what an engine may become

A moment of an engine is later than another one if only three things have happened in between:
services have moved objects, something has happened to other parts of the engine, and transactions
have ended. All that a host can do with an engine leads to later moments (`Session.later_run`), and
so does what happens inside of calls (`Course.later`).

Since nothing of this takes an object away, a relation that obeys `Object.Law` leads from the
objects of an engine to those of any later one (`Later.evolves`).
-/

set_option autoImplicit false

namespace StoredRoutine

open Script (ObjectId ThreadId Value)

/-! ### What calls are made of -/

namespace Serving

variable {α β : Type}

instance (name source : String) : Moving (load name source) := by
  unfold load
  dsimp only
  split
  · infer_instance
  · split
    · infer_instance
    · exact moving_modifyGet fun _ => Engine.moves_still rfl rfl

instance : Caller.Moving Engine.callFunction := ⟨fun _ _ e => Engine.moves_run _ _ e⟩

instance (d : RoutineDefinition) : Moving (compile d) := by
  unfold compile
  refine .bind fun e => .bind fun results => ?_
  split
  · infer_instance
  · split
    · infer_instance
    · infer_instance

instance {f : α → Serving Unit} (l : List α) [hf : ∀ a, Moving (f a)] : Moving (l.forM f) := by
  induction l with
  | nil => exact inferInstanceAs (Moving (pure ()))
  | cons a rest ih => exact inferInstanceAs (Moving (f a >>= fun _ => rest.forM f))

instance (d : RoutineDefinition) : Moving (checkDefinition d) := by
  unfold checkDefinition
  infer_instance

instance (id : TypeId) : Moving (lookup compile id) := by
  unfold lookup
  refine .bind fun e => ?_
  split
  · infer_instance
  · split
    · infer_instance
    · refine .bind fun _ => .bind fun _ => @Moving.bind _ _ _ _ ?_ inferInstance
      exact moving_modify fun _ => Engine.moves_still rfl rfl

instance : Moving checkUsable := by
  unfold checkUsable
  infer_instance

instance (kind : CallKind) (id : TypeId) : Moving (routineFor kind id) := by
  unfold routineFor
  infer_instance

instance (r : CompiledRoutine) (args : Row) : Moving (arguments r args) := by
  unfold arguments
  infer_instance

instance (f : Value) (args : List Value) : Moving (runRaising f args) := by
  unfold runRaising
  refine .bind fun returned => ?_
  split
  · infer_instance
  · infer_instance

instance (r : CompiledRoutine) (args : Row) : Moving (callForValue r args) := by
  unfold callForValue resultDatum
  infer_instance

instance (v : Value) (layout : RowLayout) : Moving (toRow v layout) := by
  unfold toRow
  infer_instance

instance (t : TriggerEvent) (table : Script.TableId) (start : Option TupleId) :
    Moving (rowLeft t table start) := by
  unfold rowLeft
  split
  · infer_instance
  · refine .bind fun e => ?_
    dsimp only
    split
    · infer_instance
    · infer_instance
    · split
      · split
        · infer_instance
        · infer_instance
      · infer_instance
    · infer_instance

instance (t : TriggerEvent) (r : CompiledRoutine) : Moving (runTrigger t r) := by
  unfold runTrigger
  exact .bind fun (table, start) => .bind fun _ => inferInstance

instance (t : TriggerEvent) (r : CompiledRoutine) : Moving (callTrigger t r) := by
  unfold callTrigger
  refine .bind fun result => @Moving.bind _ _ _ _ ?_ inferInstance
  exact moving_modify fun _ => Engine.moves_still rfl rfl

instance (m : InitModule) : Moving (loadModule m) := by
  unfold loadModule
  refine .bind fun loaded => ?_
  split
  · infer_instance
  · infer_instance

instance (m : InitModule) : Moving (evaluateModule m) := by
  unfold evaluateModule
  refine .bind fun results => ?_
  split
  · infer_instance
  · dsimp only
    split
    · exact moving_modify fun _ => Engine.moves_still rfl rfl
    · infer_instance

end Serving

/-! ### Later moments -/

namespace Engine

variable {e e' e'' start : Engine} {R : Object → Object → Prop} {α β : Type}

/-- What an engine may become. -/
inductive Later (e : Engine) : Engine → Prop where
  | refl : Later e e
  | move {e' e'' : Engine} (h : Later e e') (hmove : e'.Move e'') : Later e e''
  /-- Something happens, but not to objects. -/
  | aside {e' e'' : Engine} (h : Later e e') (hobjects : e''.objects = e'.objects) : Later e e''
  | event {e' : Engine} (h : Later e e') (event : TransactionEvent) :
    Later e (e'.onTransaction event).2

theorem Later.moves (h : e.Later e') (hmoves : e'.Moves e'') : e.Later e'' := by
  induction hmoves with
  | refl => exact h
  | tail _ hmove ih => exact ih.move hmove

/-- A law of objects holds from each moment to all later ones. -/
theorem Later.evolves (hR : Object.Law R) (h : e.Later e') : e.Evolves R e' := by
  induction h with
  | refl => exact .ofSame hR rfl
  | move _ hmove ih => exact ih.trans hR (hmove.evolves hR)
  | aside _ hobjects ih => exact ih.trans hR (.ofSame hR hobjects)
  | event _ event ih => exact ih.trans hR (evolves_onTransaction hR _ event)

/-- What a computation does. -/
theorem Later.served (h : e.Later e') (x : Serving α) [hx : Serving.Moving x] :
    e.Later (x e').2 := h.moves (hx.moves e')

theorem objects_popFrame (e : Engine) (frame : FrameId) (exit : FrameExit) :
    (e.popFrame frame exit).2.objects = e.objects := by
  unfold popFrame
  split <;> rfl

/-! ### Calls -/

/-- The frame of a call has nothing to do with objects. -/
theorem Later.inFrame (h : e.Later e') {work : Engine → (Outcome α × β) × Engine}
    (hwork : e.Later e'.entered → e.Later (work e'.entered).2) :
    e.Later (e'.inFrame work).2 := by
  obtain ⟨arena, poisoned, heq⟩ := inFrame_engine work e'
  rw [heq]
  exact (hwork (h.aside rfl)).aside rfl

/-- A call leads to a later moment if its work does. -/
theorem Later.invoke (h : e.Later e') (kind : CallKind) (id : TypeId) (state : β)
    {work : CompiledRoutine → Engine → (Outcome α × β) × Engine}
    (hwork : ∀ (r : CompiledRoutine) (e'' : Engine), e.Later e'' → e.Later (work r e'').2) :
    e.Later (e'.invoke kind id state work).2 := by
  have hfound := h.served (Serving.routineFor kind id)
  unfold Engine.invoke
  generalize Serving.routineFor kind id e' = found at hfound ⊢
  obtain ⟨f | r, e''⟩ := found
  · exact hfound
  · exact hfound.inFrame fun hentered => hwork r e''.entered hentered

theorem objects_endExecution (e : Engine) (id : ExecutionId) :
    (e.endExecution id).objects = e.objects := by
  unfold endExecution
  cases e.execution? id <;> rfl

theorem Later.answerRequest (h : e.Later e') (r : CompiledRoutine) (id : ExecutionId)
    (ending : Script.Ending) : e.Later (answerRequest r id ending e').2 := by
  have hended (e'' : Engine) (h : e.Later e'') : e.Later (e''.endExecution id) :=
    h.aside (objects_endExecution e'' id)
  unfold Engine.answerRequest
  split
  · exact hended e' h
  · exact hended e' h
  · exact hended e' h
  next values =>
    simp only
    split
    · exact hended e' h
    · have hconverted := h.served (Serving.toDatum (values.headD .nil) r.resultType (-1))
      unfold Serving.resultDatum
      generalize Serving.toDatum _ _ _ e' = converted at hconverted ⊢
      obtain ⟨f | d, e''⟩ := converted
      · exact hended e'' hconverted
      · exact hconverted

theorem Later.resumeCall (h : e.Later e') (r : CompiledRoutine) (id : ExecutionId)
    (thread : ThreadId) (values : List Value) : e.Later (e'.resumeCall r id thread values).2 := by
  have hactive : e.Later { e' with heap := e'.heap.setThread thread .active } := h.aside rfl
  exact (hactive.moves (moves_run maxTurns _ _)).answerRequest r id _

theorem Later.request (h : e.Later e') (args : Row) (slot : SetCall) (r : CompiledRoutine) :
    e.Later (request args slot r e').2 := by
  have hgiven := h.served (Serving.arguments r args)
  refine request_induction h hgiven fun id ending stopped hresumes => ?_
  cases hresumes with
  | first hvalues =>
    rw [hvalues] at hgiven
    have hopened : e.Later (Engine.opened _).2 := hgiven.aside rfl
    exact hopened.resumeCall r _ _ _
  | again hx hvalues =>
    rw [hvalues] at hgiven
    exact hgiven.resumeCall r _ _ _

end Engine

/-! ### Sessions and courses -/

namespace Session

/-- Whatever a host does. -/
theorem later_step {e : Engine} {s : Session} (h : e.Later s.engine) (step : Step) :
    e.Later (s.step step).engine := by
  cases step with
  | hold => exact h
  | next i id args =>
    unfold Session.step
    simp only
    split
    · exact h
    next c _ =>
      exact h.invoke .setFunction id c.slot fun r e' h' => h'.request args c.slot r
  | abandon i =>
    unfold Session.step
    simp only
    split
    · exact h
    next c _ =>
      -- Only a suspended slot holds an execution that is taken off the table.
      show e.Later (s.engine.abandon c.slot).2
      cases c.slot with
      | suspended id => exact h.aside (Engine.objects_endExecution _ id)
      | _ => exact h
  | onTransaction event => exact h.event event
  | call id args =>
    exact h.invoke .function id () fun r e' h' => h'.served (Serving.callForValue r args)
  | fire id t =>
    exact h.invoke .trigger id () fun r e' h' => h'.served (Serving.callTrigger t r)
  | validate id =>
    exact h.served (do
      Serving.checkUsable
      let _ ← Serving.lookup Serving.compile id)
  | invalidate id => exact h.aside rfl
  | host host hw => exact h.aside rfl

/-- At the end of a session the engine is at a later moment. -/
theorem later_run (s : Session) (steps : List Step) : s.engine.Later (s.run steps).engine := by
  induction steps using List.reverseRecOn with
  | nil => exact .refl
  | append_singleton steps step ih =>
    unfold run at ih ⊢
    rw [List.foldl_append]
    exact later_step ih step

end Session

namespace Engine

/-- What happens on a course. -/
theorem Course.later {start e : Engine} {outer stack : List FrameId}
    {ended : List (FrameId × FrameExit)} (h : Course start outer e stack ended) :
    start.Later e := by
  induction h with
  | refl => exact .refl
  | aside _ _ _ hobjects ih => exact ih.aside hobjects
  | serve _ _ fuel c position s ih => exact ih.served (Serving.serve _ s _)
  | value _ v ih => exact ih.served (Serving.toValue v)
  | publish _ t ih => exact ih.served (Serving.publishEvent t)
  | event _ event ih => exact ih.event event
  | enter _ ih => exact ih.aside rfl
  | leave _ exit ih => exact ih.aside (objects_popFrame _ _ exit)

end Engine

end StoredRoutine
