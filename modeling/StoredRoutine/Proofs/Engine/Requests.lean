import StoredRoutine.Engine.SetCall
import StoredRoutine.Proofs.Engine.Calls

/-!
# `StoredRoutine.Proofs.Engine.Requests`: one request for a row of a set

A request resumes a coroutine, and the way in which the coroutine stops decides what becomes of the
call (`Engine.answerRequest`). A call that goes on keeps its execution. A call that ends or fails
loses it, in the table and in the registry (`endExecution_spec`).

`Engine.Advances` lists what a request or the abandonment of a call can do to a slot and to the
executions. Nothing else happens, whatever the coroutine does (`next_worked`). This does not depend
on what runs the coroutine, as long as it keeps the invariant (`Resumer.Keeps`,
`nextBy_worked`).
-/

set_option autoImplicit false

namespace StoredRoutine

open Script (AllOf Ending Heap Innate ThreadId Value)

open Serving (Answers Any Callable Keeps)

/-- A coroutine that stops hands over nothing fatal, unless the engine is poisoned. -/
def Stop.Admitted (e : Engine) : Stop → Prop
  | .row v => v.Catchable
  | .ended => True
  | .raised f => e.Admits (.failure f)

/-- What a coroutine leaves of the engine when it stops. -/
structure Engine.Stopped {W : Type} (e : Engine) (stack : List FrameId)
    (stopped : Stop × Engine × W) : Prop where
  sound : stopped.2.1.Sound stack
  follows : e.Follows stopped.2.1
  stop : stopped.1.Admitted stopped.2.1

/-- Coroutines keep the invariant. -/
structure Resumer.Keeps {W : Type} (m : Resumer W) : Prop where
  start : ∀ {e : Engine} {stack : List FrameId} {r : CompiledRoutine} (args : Row)
    (values : List Value) (thread : ThreadId) (w : W), e.Sound stack → Callable e r →
    AllOf e.Admits values → e.Stopped stack (m.start r args values thread e w)
  resume : ∀ {e : Engine} {stack : List FrameId} (args : Row) (values : List Value)
    (thread : ThreadId) (w : W), e.Sound stack → AllOf e.Admits values →
    e.Stopped stack (m.resume args values thread e w)

namespace Engine

variable {W : Type} {e e' e₁ : Engine} {stack : List FrameId} {r : CompiledRoutine} {args : Row}
  {values : List Value}

/-! ### Executions -/

/-- The execution of a name is the only one of that name. -/
theorem execution?_eq_some (hs : e.Sound stack) {id : ExecutionId} {x : Execution} :
    e.execution? id = some x ↔ (id, x) ∈ e.executions := by
  unfold execution?
  constructor
  · intro hx
    obtain ⟨front, back, heq, -⟩ := List.lookup_eq_some_iff.mp hx
    rw [heq]
    exact List.mem_append_right _ List.mem_cons_self
  · intro hx
    cases hy : e.executions.lookup id with
    | none =>
      have hne := List.lookup_eq_none_iff.mp hy _ hx
      simp at hne
    | some y =>
      obtain ⟨front, back, heq, -⟩ := List.lookup_eq_some_iff.mp hy
      have hin : (id, y) ∈ e.executions := by
        rw [heq]
        exact List.mem_append_right _ List.mem_cons_self
      rw [hs.registered.execution_eq hx hin]

theorem execution?_eq_none {id : ExecutionId} (h : e.execution? id = none) :
    (e.executions.filter fun x => decide (x.1 ≠ id)) = e.executions := by
  refine List.filter_eq_self.mpr fun x hx => decide_eq_true fun heq => ?_
  have hne := List.lookup_eq_none_iff.mp h x hx
  rw [heq] at hne
  simp at hne

/-- An execution that ends leaves the table and the registry. -/
theorem endExecution_spec (hs : e.Sound stack) (id : ExecutionId) :
    (e.endExecution id).Sound stack ∧ e.Restores (e.endExecution id) ∧
      (e.endExecution id).executions = (e.executions.filter fun x => decide (x.1 ≠ id)) ∧
      (e.endExecution id).started = e.started := by
  unfold endExecution
  cases hx : e.execution? id with
  | none => exact ⟨hs, Restores.refl e, (execution?_eq_none hx).symm, rfl⟩
  | some x =>
    have hentry := (hs.registered.matched x.cleanup id).mpr
      ⟨x, (execution?_eq_some hs).mp hx, rfl⟩
    have hdropped := hs.registered.dropExecution hentry
    rw [← CleanupRegistry.unregister_eq hs.registered.entries] at hdropped
    exact ⟨⟨hs.arena, hs.shared, hs.heap, hs.functions, hs.host, hdropped⟩,
      Restores.ofSame rfl rfl rfl, rfl, rfl⟩

theorem addExecution_sound (hs : e.Sound stack) (thread : ThreadId) :
    (e.addExecution thread).2.Sound stack :=
  ⟨hs.arena, hs.shared, hs.heap, hs.functions, hs.host, hs.registered.addExecution thread⟩

theorem opened_id (e : Engine) : e.opened.1.1 = ⟨e.started + 1⟩ := rfl

theorem opened_executions (e : Engine) :
    ∃ x, e.opened.2.executions = (⟨e.started + 1⟩, x) :: e.executions := ⟨_, rfl⟩

/-- The coroutine of an execution runs the function of the engine. -/
theorem opened_sound (hs : e.Sound stack) : e.opened.2.Sound stack :=
  addExecution_sound (hs.withHeap (hs.heap.newThread (hs.functions _ List.mem_cons_self))) _

theorem restores_opened (e : Engine) : e.Restores e.opened.2 :=
  Restores.ofSame rfl rfl rfl

/-! ### Resumptions -/

/-- A coroutine goes on with values of the heap and those that it is given. -/
theorem holds_controlOf {Q : Value → Prop} (own : Innate Q) (hh : e.heap.Holds Q)
    (thread : ThreadId) (hvalues : AllOf Q values) : (e.controlOf thread values).Holds Q := by
  have hthread := hh.thread thread
  have hnone : ∀ r ∈ ([] : List Script.Resumption), ∀ x ∈ r.callers, x.Holds Q :=
    fun _ hr => absurd hr List.not_mem_nil
  unfold controlOf
  simp only
  split
  next callers heq =>
    rw [heq] at hthread
    exact ⟨⟨hthread, hnone⟩, hvalues⟩
  next body heq =>
    rw [heq] at hthread
    exact ⟨⟨fun _ hx => absurd hx List.not_mem_nil, hnone⟩, hthread, hvalues⟩
  · exact ⟨⟨fun _ hx => absurd hx List.not_mem_nil, hnone⟩, own _ rfl⟩

theorem resumeThread_ran (hs : e.Sound stack) (thread : ThreadId)
    (hvalues : AllOf e.Admits values) : e.Ran stack (e.resumeThread thread values) := by
  have hactive := hs.withHeap (hs.heap.setThread thread (s := .active) trivial)
  have hran := run_keeps maxTurns hactive (holds_controlOf (innate_admits e) hs.heap thread hvalues)
  have hfollows : e.Follows { e with heap := e.heap.setThread thread .active } :=
    Follows.ofSame rfl rfl rfl rfl rfl
  unfold resumeThread
  exact hran.after hfollows

/-- After a resumption the call waits again, or is finished and has lost its execution. -/
def Answered (e : Engine) (id : ExecutionId) :
    SetCall → List (ExecutionId × Execution) → Nat → Prop :=
  fun slot executions started => started = e.started ∧
    (slot = .suspended id ∧ executions = e.executions ∨
      slot.isFinished = true ∧ executions = e.executions.filter fun x => decide (x.1 ≠ id))

theorem keeps_rowOf (r : CompiledRoutine) {v : Outcome ScriptValue} (hv : v.Catchable) :
    Keeps stack e (Serving.rowOf r v) Any :=
  (Serving.keeps_given hv).bind fun v _ _ _ =>
    Serving.keeps_converting fun _ hcat => Marshal.catchable_toRelational hcat v _ _

/-- However a coroutine stops, what comes of it keeps the invariant. -/
theorem answerStop_worked (hs : e.Sound stack) (r : CompiledRoutine) (id : ExecutionId)
    {stop : Stop} (hstop : stop.Admitted e) :
    e.Worked stack (e.Answered id) (answerStop r id stop e) := by
  -- all ends of a call but one take the execution with them
  have hend : ∀ {e' : Engine} {o : Outcome SetAnswer} {slot : SetCall}, e'.Sound stack →
      e.Follows e' → Answers Any e' o → slot.isFinished = true →
      e.Worked stack (e.Answered id) ((o, slot), e'.endExecution id) :=
    fun {e' o slot} hs' hfollows ho hslot => by
      obtain ⟨hsound, hrestores, hexecutions, hstarted⟩ := endExecution_spec hs' id
      refine ⟨hsound, hfollows.toRestores.trans hrestores, ?_, hstarted.trans hfollows.started,
        .inr ⟨hslot, ?_⟩⟩
      · cases o with
        | ok a => exact trivial
        | error f => exact hrestores.admits ho
      · rw [hexecutions, hfollows.executions]
  cases stop with
  | raised f => exact hend hs (.refl e) hstop rfl
  | ended => exact hend hs (.refl e) trivial rfl
  | row v =>
    have hconverted := (keeps_rowOf r hstop).spec hs
    unfold answerStop
    dsimp only
    generalize Serving.rowOf r v e = converted at hconverted ⊢
    obtain ⟨outcome, e'⟩ := converted
    obtain ⟨hs', hfollows, hanswer⟩ := hconverted
    cases outcome with
    | ok d => exact ⟨hs', hfollows.toRestores, trivial, hfollows.started,
        .inl ⟨rfl, hfollows.executions⟩⟩
    | error f => exact hend hs' hfollows (show e'.Admits (.failure f) from hanswer) rfl

/-- What a coroutine leaves is answered. -/
theorem Stopped.answered {stopped : Stop × Engine × W} (h : e.Stopped stack stopped)
    (r : CompiledRoutine) (id : ExecutionId) :
    e.Worked stack (fun state => e.Answered id state.1) (answerBy r id stopped) := by
  obtain ⟨hs, hfollows, hstop⟩ := h
  obtain ⟨hsound, hrestores, hanswers, hanswered⟩ :=
    (answerStop_worked hs r id hstop).after hfollows.toRestores
  unfold Answered at hanswered
  rw [hfollows.executions, hfollows.started] at hanswered
  exact ⟨hsound, hrestores, hanswers, hanswered⟩

/-- An ending of the machine hands over nothing that was not admitted. -/
theorem admitted_stopOf {ending : Ending} (hending : ending.Holds e.Admits) :
    (e.stopOf ending).Admitted e := by
  unfold stopOf
  split
  · exact admits_failureOf hending
  next rest =>
    exact admits_failureOf (Serving.admits_headD fun v hv =>
      hending v (List.mem_cons_of_mem _ hv))
  · exact trivial
  next values =>
    dsimp only
    split
    · exact trivial
    · exact e.catchable_readValue _ _

theorem machineRun_stopped (hs : e.Sound stack) (thread : ThreadId)
    (hvalues : AllOf e.Admits values) : e.Stopped stack (machineRun thread values e) := by
  obtain ⟨hs', hfollows, hending⟩ := resumeThread_ran hs thread hvalues
  exact ⟨hs', hfollows, admitted_stopOf hending⟩

/-- Whatever its coroutines do, the machine keeps the invariant. -/
theorem machine_keeps : machine.Keeps where
  start _ _ thread _ hs hr hvalues :=
    machineRun_stopped hs thread (List.forall_mem_cons.mpr ⟨hr, hvalues⟩)
  resume _ _ thread _ hs hvalues := machineRun_stopped hs thread hvalues

/-! ### Requests

The equations say what a request does, with the coroutine taken for what it is: something that runs
until it stops. -/

theorem request_finished {slot : SetCall} (hslot : slot.isFinished = true) :
    request args slot r e = ((.error alreadyFinished, slot), e) := by
  cases slot with
  | done => rfl
  | failed => rfl
  | _ => cases hslot

/-- The execution of the slot has gone away with the transaction. -/
theorem request_terminated {id : ExecutionId} (hx : e.execution? id = none) :
    request args (.suspended id) r e = ((.error terminated, .failed), e) := by
  unfold request
  simp only [hx]

/-- The arguments of the first request cannot be converted. -/
theorem request_ready_error {f : Failure} (hvalues : Serving.arguments r args e = (.error f, e₁)) :
    request args .ready r e = ((.error f, .ready), e₁) := by
  unfold request
  simp only [hvalues]

/-- The first request starts the coroutine. -/
theorem request_ready (hvalues : Serving.arguments r args e = (.ok values, e₁)) :
    request args .ready r e =
      answerRequest r e₁.opened.1.1
        (e₁.opened.2.resumeThread e₁.opened.1.2 (r.function :: values)).1
        (e₁.opened.2.resumeThread e₁.opened.1.2 (r.function :: values)).2 := by
  unfold request
  simp only [hvalues, resumeCall]

/-- The arguments of a further request cannot be converted. -/
theorem request_suspended_error {id : ExecutionId} {x : Execution} {f : Failure}
    (hx : e.execution? id = some x) (hvalues : Serving.arguments r args e = (.error f, e₁)) :
    request args (.suspended id) r e = ((.error f, .suspended id), e₁) := by
  unfold request
  simp only [hx, hvalues]

/-- A further request resumes the coroutine. -/
theorem request_suspended {id : ExecutionId} {x : Execution} (hx : e.execution? id = some x)
    (hvalues : Serving.arguments r args e = (.ok values, e₁)) :
    request args (.suspended id) r e =
      answerRequest r id (e₁.resumeThread x.thread values).1
        (e₁.resumeThread x.thread values).2 := by
  unfold request
  simp only [hx, hvalues, resumeCall]

/-- A request of the slot resumes the coroutine of an execution, which stops in the engine `e'`. -/
inductive Resumes (r : CompiledRoutine) (args : Row) (e : Engine) :
    SetCall → ExecutionId → Ending → Engine → Prop where
  | first {values : List Value} {e₁ : Engine}
    (hvalues : Serving.arguments r args e = (.ok values, e₁)) :
    Resumes r args e .ready e₁.opened.1.1
      (e₁.opened.2.resumeThread e₁.opened.1.2 (r.function :: values)).1
      (e₁.opened.2.resumeThread e₁.opened.1.2 (r.function :: values)).2
  | again {id : ExecutionId} {x : Execution} {values : List Value} {e₁ : Engine}
    (hx : e.execution? id = some x) (hvalues : Serving.arguments r args e = (.ok values, e₁)) :
    Resumes r args e (.suspended id) id (e₁.resumeThread x.thread values).1
      (e₁.resumeThread x.thread values).2

/-- Such a request is answered by the way in which the coroutine has stopped. -/
theorem Resumes.request_eq {slot : SetCall} {id : ExecutionId} {ending : Ending}
    (h : Resumes r args e slot id ending e') :
    request args slot r e = answerRequest r id ending e' := by
  cases h with
  | first hvalues => exact request_ready hvalues
  | again hx hvalues => exact request_suspended hx hvalues

/-- The coroutine has run in a sound engine, which has its execution still. -/
theorem Resumes.ran {slot : SetCall} {id : ExecutionId} {ending : Ending} (hs : e.Sound stack)
    (hr : Callable e r) (h : Resumes r args e slot id ending e') :
    e'.Sound stack ∧ ending.Holds e'.Admits ∧ ∃ x, (id, x) ∈ e'.executions := by
  have hconverted := (Serving.keeps_arguments r args).spec hs
  cases h with
  | first hvalues =>
    rw [hvalues] at hconverted
    obtain ⟨hs₁, h₁, hadmitted⟩ := hconverted
    have hgiven := List.forall_mem_cons.mpr ⟨h₁.admits hr, hadmitted⟩
    obtain ⟨hsound, hfollows, hending⟩ := resumeThread_ran (opened_sound hs₁) _ fun v hv =>
      (restores_opened _).admits (hgiven v hv)
    obtain ⟨x, hx⟩ := opened_executions _
    refine ⟨hsound, hending, x, ?_⟩
    rw [hfollows.executions, hx]
    exact List.mem_cons_self
  | again hx hvalues =>
    rw [hvalues] at hconverted
    obtain ⟨hs₁, h₁, hadmitted⟩ := hconverted
    obtain ⟨hsound, hfollows, hending⟩ := resumeThread_ran hs₁ _ hadmitted
    have hin := (execution?_eq_some hs).mp hx
    rw [← h₁.executions, ← hfollows.executions] at hin
    exact ⟨hsound, hending, _, hin⟩

/-- What is so of an engine is so after a request if the conversion of arguments keeps it, and
everything that comes of a coroutine. -/
theorem request_induction {P : Engine → Prop} {slot : SetCall} (hkept : P e)
    (hgiven : P (Serving.arguments r args e).2)
    (hresumed : ∀ id ending e', Resumes r args e slot id ending e' →
      P (answerRequest r id ending e').2) : P (request args slot r e).2 := by
  generalize hvalues : Serving.arguments r args e = converted at hgiven
  obtain ⟨f | values, e₁⟩ := converted
  · cases slot with
    | done => exact hkept
    | failed => exact hkept
    | ready =>
      rw [request_ready_error hvalues]
      exact hgiven
    | suspended id =>
      -- the conversion comes first, but an execution that is gone is reported before it
      cases hx : e.execution? id with
      | none =>
        rw [request_terminated hx]
        exact hkept
      | some x =>
        rw [request_suspended_error hx hvalues]
        exact hgiven
  · cases slot with
    | done => exact hkept
    | failed => exact hkept
    | ready =>
      rw [request_ready hvalues]
      exact hresumed _ _ _ (.first hvalues)
    | suspended id =>
      cases hx : e.execution? id with
      | none =>
        rw [request_terminated hx]
        exact hkept
      | some x =>
        rw [request_suspended hx hvalues]
        exact hresumed _ _ _ (.again hx hvalues)

/-! ### What becomes of a slot -/

/-- What a request, or the abandonment of a call, can do to a slot, to the executions and to the
number of calls that were started. -/
inductive Advances : SetCall → List (ExecutionId × Execution) → Nat →
    SetCall → List (ExecutionId × Execution) → Nat → Prop where
  /-- The request is refused. -/
  | unmoved (slot : SetCall) (executions : List (ExecutionId × Execution)) (started : Nat) :
    Advances slot executions started slot executions started
  /-- The coroutine waits after its first row. -/
  | begun (x : Execution) (executions : List (ExecutionId × Execution)) (started : Nat) :
    Advances .ready executions started (.suspended ⟨started + 1⟩)
      ((⟨started + 1⟩, x) :: executions) (started + 1)
  /-- The coroutine has not come to a row. -/
  | missed {slot : SetCall} (hslot : slot.isFinished = true)
    (executions : List (ExecutionId × Execution)) (started : Nat) :
    Advances .ready executions started slot executions (started + 1)
  /-- A call that has not been started is abandoned. -/
  | dropped (executions : List (ExecutionId × Execution)) (started : Nat) :
    Advances .ready executions started .done executions started
  /-- A call that waited is over. -/
  | ended (id : ExecutionId) {slot : SetCall} (hslot : slot.isFinished = true)
    (executions : List (ExecutionId × Execution)) (started : Nat) :
    Advances (.suspended id) executions started slot
      (executions.filter fun x => decide (x.1 ≠ id)) started

/-- The new execution is the only one of its name, so the others stay when it goes. -/
theorem filter_opened (hs : e.Sound stack) :
    (e.opened.2.executions.filter fun x => decide (x.1 ≠ ⟨e.started + 1⟩)) = e.executions := by
  obtain ⟨x, hx⟩ := opened_executions e
  rw [hx, List.filter_cons_of_neg (by simp), List.filter_eq_self]
  refine fun y hy => decide_eq_true fun heq => ?_
  have hle := hs.registered.numbered y hy
  rw [heq] at hle
  exact Nat.lt_irrefl _ hle

/-- A call that has been resumed for the first time. -/
theorem Answered.begun (hs : e.Sound stack) {slot : SetCall}
    {executions : List (ExecutionId × Execution)} {started : Nat}
    (h : e.opened.2.Answered e.opened.1.1 slot executions started) :
    Advances .ready e.executions e.started slot executions started := by
  obtain ⟨hstarted, ⟨hslot, hexecutions⟩ | ⟨hslot, hexecutions⟩⟩ := h
  · obtain ⟨x, hx⟩ := opened_executions e
    rw [hslot, hexecutions, hstarted, hx]
    exact .begun x _ _
  · rw [hexecutions, hstarted, opened_id, filter_opened hs]
    exact .missed hslot _ _

/-- A call that has been resumed again. -/
theorem Answered.resumed {id : ExecutionId} {slot : SetCall}
    {executions : List (ExecutionId × Execution)} {started : Nat}
    (h : e.Answered id slot executions started) :
    Advances (.suspended id) e.executions e.started slot executions started := by
  obtain ⟨hstarted, ⟨hslot, hexecutions⟩ | ⟨hslot, hexecutions⟩⟩ := h
  · rw [hslot, hexecutions, hstarted]
    exact .unmoved _ _ _
  · rw [hexecutions, hstarted]
    exact .ended id hslot _ _

/-- What a request can do to its slot and to the executions. -/
abbrev AdvancesBy (slot : SetCall) (e : Engine) :
    SetCall × W → List (ExecutionId × Execution) → Nat → Prop :=
  fun state => Advances slot e.executions e.started state.1

/-- A request that is refused, before or after the conversion of its arguments, leaves the slot and
the executions alone. -/
theorem Follows.worked_refused {e' : Engine} {f : Failure} {slot : SetCall} {w : W}
    (h : e.Follows e') (hs : e'.Sound stack) (hf : e'.Admits (.failure f)) :
    e.Worked stack (AdvancesBy slot e) (((.error f : Outcome SetAnswer), slot, w), e') := by
  refine ⟨hs, h.toRestores, hf, ?_⟩
  show Advances slot e.executions e.started slot e'.executions e'.started
  rw [h.executions, h.started]
  exact .unmoved slot _ _

theorem requestBy_worked {m : Resumer W} (hm : m.Keeps) (hs : e.Sound stack) (args : Row)
    (slot : SetCall) (w : W) (hr : Callable e r) :
    e.Worked stack (AdvancesBy slot e) (requestBy m args (slot, w) r e) := by
  have hconverted := (Serving.keeps_arguments r args).spec hs
  unfold requestBy
  cases slot with
  | done => exact (Follows.refl e).worked_refused hs (admits_failure rfl)
  | failed => exact (Follows.refl e).worked_refused hs (admits_failure rfl)
  | ready =>
    dsimp only
    generalize Serving.arguments r args e = converted at hconverted ⊢
    obtain ⟨outcome, e₁⟩ := converted
    obtain ⟨hs₁, h₁, hadmitted⟩ := hconverted
    cases outcome with
    | error f => exact h₁.worked_refused hs₁ hadmitted
    | ok values =>
      have hopened := h₁.toRestores.trans (restores_opened e₁)
      have hstopped := hm.start args values e₁.opened.1.2 w (opened_sound hs₁) (hopened.admits hr)
        fun v hv => (restores_opened e₁).admits (hadmitted v hv)
      obtain ⟨hsound, hrestores, hanswers, hanswered⟩ :=
        (hstopped.answered r e₁.opened.1.1).after hopened
      have hadvances := hanswered.begun hs₁
      rw [h₁.executions, h₁.started] at hadvances
      exact ⟨hsound, hrestores, hanswers, hadvances⟩
  | suspended id =>
    dsimp only
    cases hx : e.execution? id with
    | none =>
      -- to take away what is not there changes nothing
      refine ⟨hs, .refl e, admits_failure rfl, ?_⟩
      have hadvances : Advances (.suspended id) e.executions e.started .failed _ e.started :=
        .ended id rfl e.executions e.started
      rw [execution?_eq_none hx] at hadvances
      exact hadvances
    | some x =>
      dsimp only
      generalize Serving.arguments r args e = converted at hconverted ⊢
      obtain ⟨outcome, e₁⟩ := converted
      obtain ⟨hs₁, h₁, hadmitted⟩ := hconverted
      cases outcome with
      | error f => exact h₁.worked_refused hs₁ hadmitted
      | ok values =>
        have hstopped := hm.resume args values x.thread w hs₁ hadmitted
        obtain ⟨hsound, hrestores, hanswers, hanswered⟩ :=
          (hstopped.answered r id).after h₁.toRestores
        have hadvances := hanswered.resumed
        rw [h₁.executions, h₁.started] at hadvances
        exact ⟨hsound, hrestores, hanswers, hadvances⟩

/-- The state of the resumer may be forgotten. -/
theorem Worked.forget {α : Type} {P : SetCall → List (ExecutionId × Execution) → Nat → Prop}
    {done : (Outcome α × SetCall × W) × Engine}
    (h : e.Worked stack (fun state => P state.1) done) : e.Worked stack P (Engine.forget done) :=
  ⟨h.sound, h.restores, h.answers, h.state⟩

theorem request_worked (hs : e.Sound stack) (args : Row) (slot : SetCall) (hr : Callable e r) :
    e.Worked stack (Advances slot e.executions e.started) (request args slot r e) := by
  rw [request_eq_requestBy]
  exact (requestBy_worked machine_keeps hs args slot () hr).forget

/-! ### What a request answers -/

/-- Neither the table nor the registry knows the execution any more. -/
def Forgot (e : Engine) (id : ExecutionId) : Prop :=
  (∀ x, (id, x) ∉ e.executions) ∧ ∀ c, (c, .dropExecution id) ∉ e.cleanups.entries

theorem endExecution_forgot (hs : e.Sound stack) (id : ExecutionId) :
    (e.endExecution id).Forgot id := by
  obtain ⟨hsound, -, hexecutions, -⟩ := endExecution_spec hs id
  have hnone : ∀ x, (id, x) ∉ (e.endExecution id).executions := by
    intro x hx
    rw [hexecutions] at hx
    exact of_decide_eq_true (List.mem_filter.mp hx).2 rfl
  refine ⟨hnone, fun c hc => ?_⟩
  obtain ⟨x, hx, -⟩ := (hsound.registered.matched c id).mp hc
  exact hnone x hx

/-- What a request of a slot answers, and what becomes of the slot and of the execution, for every
way in which the coroutine can stop. -/
structure RequestLaw (r : CompiledRoutine) (args : Row) (e : Engine) (slot : SetCall) : Prop where
  /-- The first value is not nil, and it can be converted: it is a row. -/
  row : ∀ (id : ExecutionId) (values : List Value) (e' e'' : Engine) (d : Option Datum),
    Resumes r args e slot id (.yielded values) e' → (values.headD .nil).isNil = false →
    Serving.resultDatum r (values.headD .nil) e' = (.ok d, e'') →
    request args slot r e = ((.ok (.row d), .suspended id), e'') ∧ ∃ x, (id, x) ∈ e''.executions
  /-- The first value is not nil, and it cannot be converted. -/
  unconvertible : ∀ (id : ExecutionId) (values : List Value) (e' e'' : Engine) (f : Failure),
    Resumes r args e slot id (.yielded values) e' → (values.headD .nil).isNil = false →
    Serving.resultDatum r (values.headD .nil) e' = (.error f, e'') →
    (request args slot r e).1 = (.error f, .failed) ∧ (request args slot r e).2.Forgot id
  /-- The first value is nil. -/
  null : ∀ (id : ExecutionId) (values : List Value) (e' : Engine),
    Resumes r args e slot id (.yielded values) e' → (values.headD .nil).isNil = true →
    (request args slot r e).1 = (.ok .endOfSet, .done) ∧ (request args slot r e).2.Forgot id
  /-- The coroutine has returned, but not false. -/
  returned : ∀ (id : ExecutionId) (values : List Value) (e' : Engine),
    Resumes r args e slot id (.finished values) e' → values.head? ≠ some (.bool false) →
    (request args slot r e).1 = (.ok .endOfSet, .done) ∧ (request args slot r e).2.Forgot id
  /-- The function of the routine has raised something: the coroutine returns false and what was
  raised. -/
  raised : ∀ (id : ExecutionId) (rest : List Value) (e' : Engine),
    Resumes r args e slot id (.finished (.bool false :: rest)) e' →
    (request args slot r e).1 = (.error (failureOf e'.heap (rest.headD .nil)), .failed) ∧
      (request args slot r e).2.Forgot id
  /-- The coroutine itself has raised something. -/
  broken : ∀ (id : ExecutionId) (v : Value) (e' : Engine),
    Resumes r args e slot id (.failed v) e' →
    (request args slot r e).1 = (.error (failureOf e'.heap v), .failed) ∧
      (request args slot r e).2.Forgot id
  /-- The execution has gone with its transaction. -/
  expired : ∀ id : ExecutionId, slot = .suspended id → (∀ x, (id, x) ∉ e.executions) →
    request args slot r e =
      ((.error (.protocol "set-returning call was terminated at transaction end"), .failed), e)
  /-- There are no requests after the end. -/
  finished : slot = .done ∨ slot = .failed →
    request args slot r e =
      ((.error (.protocol "set-returning call has already finished"), slot), e)

theorem requestLaw (hs : e.Sound stack) (hr : Callable e r) (args : Row) (slot : SetCall) :
    RequestLaw r args e slot where
  row id values e' e'' d h hvalue hd := by
    obtain ⟨hs', -, x, hx⟩ := h.ran hs hr
    -- the conversion of the row may look types up; the executions stay as they are
    have hconverted := (Serving.keeps_toDatum (values.headD .nil) r.resultType (-1)).spec hs'
    rw [show Serving.toDatum _ _ _ e' = _ from hd] at hconverted
    rw [h.request_eq]
    unfold answerRequest
    simp only [hvalue, hd]
    refine ⟨rfl, x, ?_⟩
    rw [hconverted.2.1.executions]
    exact hx
  unconvertible id values e' e'' f h hvalue hf := by
    obtain ⟨hs', -, -⟩ := h.ran hs hr
    have hconverted := (Serving.keeps_toDatum (values.headD .nil) r.resultType (-1)).spec hs'
    rw [show Serving.toDatum _ _ _ e' = _ from hf] at hconverted
    rw [h.request_eq]
    unfold answerRequest
    simp only [hvalue, hf]
    exact ⟨rfl, endExecution_forgot hconverted.1 id⟩
  null id values e' h hvalue := by
    rw [h.request_eq]
    unfold answerRequest
    simp only [hvalue]
    exact ⟨rfl, endExecution_forgot (h.ran hs hr).1 id⟩
  returned id values e' h hfirst := by
    rw [h.request_eq]
    unfold answerRequest
    split
    next heq => cases heq
    next rest heq =>
      cases heq
      exact absurd rfl hfirst
    · exact ⟨rfl, endExecution_forgot (h.ran hs hr).1 id⟩
    next heq => cases heq
  raised id rest e' h := by
    rw [h.request_eq]
    exact ⟨rfl, endExecution_forgot (h.ran hs hr).1 id⟩
  broken id v e' h := by
    rw [h.request_eq]
    exact ⟨rfl, endExecution_forgot (h.ran hs hr).1 id⟩
  expired id hslot hnone := by
    subst hslot
    refine request_terminated ?_
    cases hx : e.execution? id with
    | none => rfl
    | some x => exact absurd ((execution?_eq_some hs).mp hx) (hnone x)
  finished hslot := by
    rcases hslot with rfl | rfl
    · exact request_finished rfl
    · exact request_finished rfl

/-! ### Requests through the engine -/

/-- A request finds its routine, and is served in this engine. -/
def Opens (e : Engine) (id : TypeId) (r : CompiledRoutine) (e₁ : Engine) : Prop :=
  ∃ found, Serving.routineFor .setFunction id e = (.ok r, found) ∧ e₁ = found.entered

theorem Opens.sound (hs : e.Sound stack) {id : TypeId} (h : e.Opens id r e₁) :
    ∃ frame, e₁.Sound (frame :: stack) ∧ Callable e₁ r := by
  obtain ⟨found, hfound, rfl⟩ := h
  have hroutine := (Serving.keeps_routineFor .setFunction id).spec hs
  rw [hfound] at hroutine
  exact ⟨_, hroutine.1.entered, hroutine.2.2⟩

/-- The engine answers what the request does, unless it is poisoned by then. -/
theorem Opens.next_answer (hs : e.Sound stack) {id : TypeId} (h : e.Opens id r e₁)
    (slot : SetCall) (args : Row) :
    (e.next id slot args).1.2 = (request args slot r e₁).1.2 ∧
      (e.next id slot args).2.executions = (request args slot r e₁).2.executions ∧
      (e.next id slot args).2.cleanups = (request args slot r e₁).2.cleanups ∧
      ((e.next id slot args).2.poisoned = false →
        (e.next id slot args).1.1 = (request args slot r e₁).1.1) := by
  obtain ⟨found, hfound, rfl⟩ := h
  have hroutine := (Serving.keeps_routineFor .setFunction id).spec hs
  unfold next invoke
  rw [hfound] at hroutine ⊢
  have hs' : found.Sound stack := hroutine.1
  exact inFrame_answer hs' (request_worked hs'.entered args slot hroutine.2.2)

/-- A request through the engine, whatever looks routines up and runs coroutines. -/
theorem nextBy_worked {look : TypeId → Serving CompiledRoutine} {id : TypeId} {m : Resumer W}
    (hlook : ∀ e', Keeps stack e' (look id) Callable) (hm : m.Keeps) (hs : e.Sound stack)
    (slot : SetCall) (w : W) (args : Row) :
    e.Worked stack (AdvancesBy slot e) (nextBy look m e id (slot, w) args) := by
  have hroutine := (Serving.keeps_routineBy hlook .setFunction).spec hs
  unfold nextBy
  generalize Serving.routineBy look .setFunction id e = found at hroutine ⊢
  obtain ⟨outcome, e'⟩ := found
  obtain ⟨hs', hfollows, hanswer⟩ := hroutine
  unfold AdvancesBy
  rw [← hfollows.executions, ← hfollows.started]
  cases outcome with
  | error f => exact ⟨hs', hfollows.toRestores, hanswer, .unmoved slot _ _⟩
  | ok r =>
    have hwork := requestBy_worked hm hs'.entered args slot w hanswer
    exact (inFrame_worked hs' hwork).after hfollows.toRestores

theorem next_worked (hs : e.Sound stack) (id : TypeId) (slot : SetCall) (args : Row) :
    e.Worked stack (Advances slot e.executions e.started) (e.next id slot args) := by
  have hlook (e' : Engine) : Keeps stack e' (Serving.lookup Serving.compile id) Callable :=
    Serving.keeps_lookup (fun d _ => Serving.keeps_compile d) id
  rw [next_eq_nextBy]
  exact (nextBy_worked hlook machine_keeps hs slot () args).forget

/-- The host drops a call. -/
theorem abandon_spec (hs : e.Sound stack) (slot : SetCall) :
    (e.abandon slot).2.Sound stack ∧ e.Restores (e.abandon slot).2 ∧
      Advances slot e.executions e.started (e.abandon slot).1 (e.abandon slot).2.executions
        (e.abandon slot).2.started := by
  cases slot with
  | ready => exact ⟨hs, Restores.refl e, .dropped _ _⟩
  | suspended id =>
    obtain ⟨hsound, hrestores, hexecutions, hstarted⟩ := endExecution_spec hs id
    refine ⟨hsound, hrestores, ?_⟩
    show Advances _ _ _ .done (e.endExecution id).executions (e.endExecution id).started
    rw [hexecutions, hstarted]
    exact .ended id rfl _ _
  | done => exact ⟨hs, Restores.refl e, .unmoved _ _ _⟩
  | failed => exact ⟨hs, Restores.refl e, .unmoved _ _ _⟩

end Engine

end StoredRoutine
