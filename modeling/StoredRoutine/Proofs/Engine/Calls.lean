import StoredRoutine.Engine.Invoke
import StoredRoutine.Proofs.Engine.Resumptions
import StoredRoutine.Proofs.Engine.Run

/-!
# `StoredRoutine.Proofs.Engine.Calls`: calls from the host keep the invariant

A call from the host compiles its routine if it has to, and works in a frame of its own. The frame
ends whatever the work does, and what failed fatally has poisoned the engine before. So a call for
a value, a request for the next row of a set and a trigger all keep the invariant.
-/

set_option autoImplicit false

namespace StoredRoutine

open Script (AllOf Control Ending ThreadId Value)

namespace Engine

variable {e : Engine} {stack : List FrameId}

/-- What a raised value stands for is admitted if the value is. -/
theorem admits_failureOf {h : Script.Heap} {raised : Value} (hr : e.Admits raised) :
    e.Admits (.failure (failureOf h raised)) := by
  intro g heq hfatal
  cases heq
  exact hr _ (eq_failure_of_isFatal hfatal) hfatal

/-- The engine calls functions outside of all others. -/
theorem callFunction_keeps : Caller.Keeps callFunction := fun _ _ _ _ hs hf hargs =>
  run_keeps maxTurns hs ⟨⟨fun _ hx => absurd hx List.not_mem_nil,
    fun _ hr => absurd hr List.not_mem_nil⟩, ⟨hf, hargs⟩⟩

end Engine

namespace Serving

variable {α β : Type} {e : Engine} {stack : List FrameId}

/-! ### Routines -/

theorem keeps_load (name source : String) : Keeps stack e (load name source) Engine.Admits := by
  unfold load
  dsimp only
  split
  · exact keeps_throw rfl
  · split
    · exact keeps_throw rfl
    · exact keeps_modifyGet fun hs => ⟨hs.withHeap (hs.heap.newMain (e.admits_table _) _ _),
        Engine.Follows.ofSame rfl rfl rfl rfl rfl, Engine.innate_admits _ _ rfl⟩

/-- A source that is run once. -/
theorem keeps_loadAndRun (name source : String) :
    Keeps stack e (load name source >>= fun f => runUnprotected Engine.callFunction f [])
      Results :=
  (keeps_load name source).bind fun _ _ _ hf =>
    keeps_runUnprotected Engine.callFunction_keeps hf fun _ hv => absurd hv List.not_mem_nil

theorem keeps_compile (d : RoutineDefinition) : Keeps stack e (compile d) Engine.Admits := by
  refine keeps_get ((keeps_loadAndRun _ _).attempt.bind fun outcome e₁ _ houtcome => ?_)
  cases outcome with
  | error f =>
    refine keeps_raise ?_
    cases f with
    | runtime r => exact Engine.admits_failure rfl
    | _ => exact houtcome
  | ok results =>
    cases results with
    | nil => exact keeps_throw rfl
    | cons f rest =>
      simp only
      split
      · exact keeps_pure (houtcome f List.mem_cons_self)
      · exact keeps_throw rfl

theorem keeps_forM {f : α → Serving Unit} {l : List α} (hf : ∀ a e', Keeps stack e' (f a) Any) :
    Keeps stack e (l.forM f) Any := by
  induction l generalizing e with
  | nil => exact keeps_pure trivial
  | cons a rest ih => exact (hf a e).bind fun _ _ _ _ => ih

theorem keeps_checkDefinition (d : RoutineDefinition) :
    Keeps stack e (checkDefinition d) Any := by
  have hdescribe (type : TypeId) (e : Engine) : Keeps stack e
      (converting fun b => Resolving.descriptor b.catalog type) Any :=
    keeps_converting fun _ hcat => Resolving.catchable_descriptor hcat type
  refine Keeps.bind (keeps_forM fun type e₁ => ?_) fun _ e₂ _ _ => ?_
  · exact (hdescribe type e₁).bind fun t _ _ _ => keeps_given t.catchable_checkArgument
  · refine (hdescribe d.resultType e₂).bind fun result e₃ _ _ => ?_
    refine (keeps_given result.catchable_checkResult).bind fun _ e₄ _ _ => ?_
    split
    · exact keeps_throw rfl
    · exact keeps_pure trivial

/-! ### The cache of routines -/

section Cache

variable {c : RoutineCache} {id : TypeId} {v : Value}

/-- The functions of the routines in a cache. -/
abbrev functionsOf (c : RoutineCache) : List Value := c.entries.map (·.2.function)

theorem function_of_current {stamp : RowStamp} {r : CompiledRoutine}
    (hr : c.current? id stamp = some r) : r.function ∈ functionsOf c := by
  obtain ⟨hfound, -⟩ := Option.filter_eq_some_iff.mp hr
  obtain ⟨_, _, hentries, -⟩ := List.lookup_eq_some_iff.mp hfound
  refine List.mem_map.mpr ⟨(id, r), ?_, rfl⟩
  rw [hentries]
  simp

theorem function_of_filter {p : TypeId × CompiledRoutine → Bool}
    (hv : v ∈ (c.entries.filter p).map (·.2.function)) : v ∈ functionsOf c := by
  obtain ⟨x, hx, rfl⟩ := List.mem_map.mp hv
  exact List.mem_map.mpr ⟨x, (List.mem_filter.mp hx).1, rfl⟩

/-- A routine that is entered adds its function, and no other one. -/
theorem function_of_enter {r : CompiledRoutine} (hv : v ∈ functionsOf (c.enter id r)) :
    v = r.function ∨ v ∈ functionsOf c := by
  rcases List.mem_cons.mp hv with heq | hv
  · exact .inl heq
  · exact .inr (function_of_filter hv)

end Cache

/-- A routine with a function that is admitted. -/
abbrev Callable (e : Engine) (r : CompiledRoutine) : Prop := e.Admits r.function

theorem keeps_lookup {compile : RoutineDefinition → Serving Value}
    (hcompile : ∀ d e', Keeps stack e' (compile d) Engine.Admits) (id : TypeId) :
    Keeps stack e (lookup compile id) Callable := by
  unfold lookup
  refine keeps_ofSound fun hs => keeps_get ?_
  split
  · exact keeps_throw rfl
  next d _ =>
    split
    next r hr =>
      -- the routine is one of those that the engine keeps
      exact keeps_pure (hs.functions _ (List.mem_cons_of_mem _ (function_of_current hr)))
    · refine (keeps_checkDefinition d).bind fun _ e₁ _ _ => ?_
      refine (hcompile d e₁).bind fun f e₂ _ hf => ?_
      refine Keeps.bind (R := Any) (keeps_modify fun hs₂ => ⟨⟨hs₂.arena, hs₂.shared, hs₂.heap, ?_,
        hs₂.host, hs₂.registered⟩, Engine.Follows.ofSame rfl rfl rfl rfl rfl⟩)
        fun _ e₃ h₃ _ => keeps_pure (h₃.admits hf)
      intro v hv
      rcases List.mem_cons.mp hv with rfl | hv
      · exact hs₂.functions _ List.mem_cons_self
      · rcases function_of_enter hv with rfl | hv
        · exact hf
        · exact hs₂.functions _ (List.mem_cons_of_mem _ hv)

theorem keeps_checkUsable : Keeps stack e checkUsable Any := by
  refine keeps_get ?_
  split
  next hp => exact keeps_raise fun _ _ _ => hp
  · exact keeps_pure trivial

theorem catchable_accepts (r : CompiledRoutine) (kind : CallKind) :
    Outcome.Catchable (r.accepts kind) := by
  unfold CompiledRoutine.accepts
  split
  · exact catchable_error rfl
  · split
    · exact catchable_error rfl
    · split
      · exact catchable_error rfl
      · exact catchable_ok _

theorem keeps_routineBy {look : TypeId → Serving CompiledRoutine} {id : TypeId}
    (hlook : ∀ e', Keeps stack e' (look id) Callable) (kind : CallKind) :
    Keeps stack e (routineBy look kind id) Callable :=
  keeps_checkUsable.bind fun _ e₁ _ _ => (hlook e₁).bind fun r _ _ hr =>
    (keeps_given (catchable_accepts r kind)).bind fun _ _ h _ => keeps_pure (h.admits hr)

theorem keeps_routineFor (kind : CallKind) (id : TypeId) :
    Keeps stack e (routineFor kind id) Callable :=
  keeps_routineBy (fun _ => keeps_lookup (fun d _ => keeps_compile d) id) kind

/-! ### Calls for a value -/

theorem keeps_arguments (r : CompiledRoutine) (args : Row) :
    Keeps stack e (arguments r args) Results := by
  unfold arguments
  split
  · exact keeps_throw_bind rfl _
  · exact keeps_mapM (fun _ _ _ h hv => h.admits hv) fun a _ _ _ => keeps_ofDatum a.1 a.2

theorem keeps_runRaising {f : Value} {args : List Value} (hf : e.Admits f)
    (hargs : AllOf e.Admits args) : Keeps stack e (runRaising f args) Results := by
  refine (keeps_runProtected Engine.callFunction_keeps hf hargs).bind fun returned e₁ _ hr => ?_
  cases returned with
  | ok results => exact keeps_pure hr
  | error raised => exact keeps_get (keeps_raise (Engine.admits_failureOf hr))

theorem keeps_callForValue {r : CompiledRoutine} (hr : Callable e r) (args : Row) :
    Keeps stack e (callForValue r args) Any :=
  (keeps_arguments r args).bind fun _ _ h₁ hvalues =>
    (keeps_runRaising (h₁.admits hr) hvalues).bind fun _ _ _ _ => keeps_toDatum _ _ _

end Serving

/-! ### Frames of calls -/

namespace Engine

open Serving (Answers Any Callable Keeps)

variable {α β : Type} {e e' : Engine} {stack : List FrameId}
  {P : β → List (ExecutionId × Execution) → Nat → Prop}

/-- What the work of a call leaves of the engine in which it starts. `P` says what has become of
the state of the call and of the executions. -/
structure Worked (e : Engine) (stack : List FrameId)
    (P : β → List (ExecutionId × Execution) → Nat → Prop) (done : (Outcome α × β) × Engine) :
    Prop where
  sound : done.2.Sound stack
  restores : e.Restores done.2
  answers : Answers Any done.2 done.1.1
  state : P done.1.2 done.2.executions done.2.started

/-- Executions are left alone. -/
def Undisturbed (e : Engine) : β → List (ExecutionId × Execution) → Nat → Prop :=
  fun _ executions started => executions = e.executions ∧ started = e.started

theorem worked_plainWork {x : Serving α} (hx : Keeps stack e' x Any) (hs : e'.Sound stack)
    (hsame : e.Undisturbed () e'.executions e'.started) :
    e'.Worked stack e.Undisturbed (plainWork x e') :=
  have hdone := hx hs
  ⟨hdone.1, hdone.2.1.toRestores, hdone.2.2, hdone.2.1.executions.trans hsame.1,
    hdone.2.1.started.trans hsame.2⟩

theorem Worked.after {done : (Outcome α × β) × Engine} (hrestores : e.Restores e')
    (hdone : e'.Worked stack P done) : e.Worked stack P done :=
  ⟨hdone.sound, hrestores.trans hdone.restores, hdone.answers, hdone.state⟩

/-- What is said of the state may be less. -/
theorem Worked.mono {Q : β → List (ExecutionId × Execution) → Nat → Prop}
    {done : (Outcome α × β) × Engine} (hdone : e.Worked stack P done)
    (h : P done.1.2 done.2.executions done.2.started →
      Q done.1.2 done.2.executions done.2.started) : e.Worked stack Q done :=
  ⟨hdone.sound, hdone.restores, hdone.answers, h hdone.state⟩

/-- The engine in which the work of a call starts, in a frame of its own. -/
def entered (e : Engine) : Engine :=
  ({ e with arena := e.arena.pushFrame.2 } : Engine).startClock

theorem Sound.entered (hs : e.Sound stack) : e.entered.Sound (e.arena.pushFrame.1 :: stack) :=
  ⟨hs.arena.pushFrame, hs.shared, hs.heap, hs.functions, hs.host, hs.registered⟩

/-- The frame of a call leaves its mark on the arena and on the clock, and may poison the engine. -/
theorem inFrame_engine (work : Engine → (Outcome α × β) × Engine) (e : Engine) :
    ∃ arena poisoned,
      (e.inFrame work).2 = { (work e.entered).2.stopClock with arena, poisoned } := by
  have hpopped (e' : Engine) (frame : FrameId) (exit : FrameExit) :
      ∃ arena, (e'.popFrame frame exit).2 = { e' with arena } := by
    unfold popFrame
    cases e'.arena.popFrame frame exit <;> exact ⟨_, rfl⟩
  unfold inFrame
  dsimp only
  rw [show e.pushFrame.2.startClock = e.entered from rfl]
  generalize work e.entered = done
  obtain ⟨arena, heq⟩ := hpopped done.2.stopClock e.pushFrame.1 (exitOf done.1.1)
  rw [heq]
  split
  · exact ⟨arena, _, rfl⟩
  · cases done.1.1 <;> exact ⟨arena, _, rfl⟩

/-- A call whose work is done and whose frame can be ended. -/
theorem inFrame_eq {work : Engine → (Outcome α × β) × Engine} {result : Outcome α} {state : β}
    {arena : Arena}
    (hwork : work e.entered = ((result, state), e'))
    (hpop : e'.arena.popFrame e.arena.pushFrame.1 (exitOf result) = .ok arena) :
    e.inFrame work =
      if e'.poisoned then
        ((.error (poisonedFailure result), state), { e'.stopClock with arena })
      else
        match result with
        | .ok a => ((.ok a, state), { e'.stopClock with arena })
        | .error f => ((.error f, state), { e'.stopClock with arena, poisoned := f.isFatal }) := by
  unfold inFrame pushFrame
  simp only
  rw [show work ({ e with arena := e.arena.pushFrame.2 } : Engine).startClock = _ from hwork]
  simp only
  rw [popFrame_eq (e := e'.stopClock) hpop]
  rfl

/-- The frame of a call comes and goes. -/
theorem inFrame_worked {work : Engine → (Outcome α × β) × Engine} (hs : e.Sound stack)
    (hdone : e.entered.Worked (e.arena.pushFrame.1 :: stack) P (work e.entered)) :
    e.Worked stack P (e.inFrame work) := by
  generalize heq : work _ = done at hdone
  obtain ⟨⟨result, state⟩, e'⟩ := done
  obtain ⟨hs', hrestores, hanswer, hstate⟩ := hdone
  obtain ⟨arena, hpop, hsound, harena, -⟩ :=
    hs.arena.follows_frame hrestores.arena hs'.arena (exitOf result)
  have hended : ({ e'.stopClock with arena } : Engine).Sound stack :=
    ⟨hsound, hs'.shared, hs'.heap, hs'.functions, hs'.host, hs'.registered⟩
  have hall : e.Restores { e'.stopClock with arena } :=
    ⟨harena, hrestores.host, hrestores.poisoned, hrestores.balanced, hrestores.faulted⟩
  rw [inFrame_eq heq hpop]
  split
  next hp => exact ⟨hended, hall, fun _ _ _ => hp, hstate⟩
  next hp =>
    cases result with
    | ok a => exact ⟨hended, hall, trivial, hstate⟩
    | error f =>
      -- a fatal failure has poisoned the engine before
      have husable : e'.poisoned = false := by simpa using hp
      have hf : f.isFatal = e'.poisoned := (Admits.catchable hanswer husable).trans husable.symm
      simp only [hf]
      exact ⟨hended, hall, hanswer, hstate⟩

/-- The answer of a call is that of its work, unless the engine is poisoned by then. -/
theorem inFrame_answer {work : Engine → (Outcome α × β) × Engine} (hs : e.Sound stack)
    (hdone : e.entered.Worked (e.arena.pushFrame.1 :: stack) P (work e.entered)) :
    (e.inFrame work).1.2 = (work e.entered).1.2 ∧
      (e.inFrame work).2.executions = (work e.entered).2.executions ∧
      (e.inFrame work).2.cleanups = (work e.entered).2.cleanups ∧
      ((e.inFrame work).2.poisoned = false → (e.inFrame work).1.1 = (work e.entered).1.1) := by
  generalize heq : work _ = done at hdone
  obtain ⟨⟨result, state⟩, e'⟩ := done
  obtain ⟨arena, hpop, -⟩ :=
    hs.arena.follows_frame hdone.restores.arena hdone.sound.arena (exitOf result)
  rw [inFrame_eq heq hpop]
  split
  next hp =>
    refine ⟨rfl, rfl, rfl, fun husable => ?_⟩
    cases hp.symm.trans husable
  next =>
    cases result with
    | ok a => exact ⟨rfl, rfl, rfl, fun _ => rfl⟩
    | error f => exact ⟨rfl, rfl, rfl, fun _ => rfl⟩

/-- A frame ends without a trace if the engine is usable then. -/
theorem inFrame_usable {work : Engine → (Outcome α × β) × Engine} (hs : e.Sound stack)
    (hdone : e.entered.Worked (e.arena.pushFrame.1 :: stack) P (work e.entered))
    (husable : (work e.entered).2.poisoned = false) :
    ∃ arena, e.inFrame work =
      ((work e.entered).1, { (work e.entered).2.stopClock with arena }) := by
  generalize hwork : work e.entered = done at hdone husable ⊢
  obtain ⟨⟨result, state⟩, e'⟩ := done
  obtain ⟨arena, hpop, -⟩ :=
    hs.arena.follows_frame hdone.restores.arena hdone.sound.arena (exitOf result)
  have hp : e'.poisoned = false := husable
  refine ⟨arena, ?_⟩
  rw [inFrame_eq hwork hpop, hp, if_neg Bool.false_ne_true]
  cases result with
  | ok a => rfl
  | error f =>
    -- a fatal failure would have poisoned the engine
    have hf : f.isFatal = e'.poisoned := (Admits.catchable hdone.answers hp).trans hp.symm
    dsimp only
    rw [hf]
    rfl

theorem invoke_worked (kind : CallKind) (id : TypeId) (state : β)
    {work : CompiledRoutine → Engine → (Outcome α × β) × Engine} (hs : e.Sound stack)
    (hstate : P state e.executions e.started)
    (hwork : ∀ (r : CompiledRoutine) (e' : Engine) (stack' : List FrameId), e'.Sound stack' →
      Callable e' r → e.Undisturbed () e'.executions e'.started → e'.Worked stack' P (work r e')) :
    e.Worked stack P (e.invoke kind id state work) := by
  have hroutine := (Serving.keeps_routineFor kind id).spec hs
  unfold invoke
  generalize Serving.routineFor kind id e = found at hroutine ⊢
  obtain ⟨r, e'⟩ := found
  obtain ⟨hs', hfollows, hanswer⟩ := hroutine
  cases r with
  | error f =>
    refine ⟨hs', hfollows.toRestores, hanswer, ?_⟩
    show P state e'.executions e'.started
    rw [hfollows.executions, hfollows.started]
    exact hstate
  | ok r =>
    refine (inFrame_worked hs' ?_).after hfollows.toRestores
    exact hwork r e'.entered _ hs'.entered hanswer ⟨hfollows.executions, hfollows.started⟩

/-- A call for a value. -/
theorem call_worked (hs : e.Sound stack) (id : TypeId) (args : Row) :
    e.Worked stack e.Undisturbed
      (e.invoke .function id () fun r => plainWork (Serving.callForValue r args)) :=
  invoke_worked .function id () hs ⟨rfl, rfl⟩ fun _ _ _ hs' hr hsame =>
    worked_plainWork (Serving.keeps_callForValue hr args) hs' hsame

theorem call_sound (hs : e.Sound stack) (id : TypeId) (args : Row) :
    (e.call id args).2.Sound stack :=
  (call_worked hs id args).sound

theorem validate_spec (hs : e.Sound stack) (id : TypeId) :
    (e.validate id).2.Sound stack ∧ e.Follows (e.validate id).2 ∧
      Answers Any (e.validate id).2 (e.validate id).1 :=
  Serving.keeps_checkUsable.bind (S := Any) (k := fun _ => do
    let _ ← Serving.lookup Serving.compile id) (fun _ _ _ _ =>
      (Serving.keeps_lookup (fun d _ => Serving.keeps_compile d) id).bind fun _ _ _ _ =>
        Serving.keeps_pure trivial) hs

theorem invalidate_sound (hs : e.Sound stack) (id : TypeId) : (e.invalidate id).2.Sound stack := by
  refine ⟨hs.arena, hs.shared, hs.heap, fun v hv => ?_, hs.host, hs.registered⟩
  rcases List.mem_cons.mp hv with rfl | hv
  · exact hs.functions _ List.mem_cons_self
  · exact hs.functions _ (List.mem_cons_of_mem _ (Serving.function_of_filter hv))

end Engine

end StoredRoutine
