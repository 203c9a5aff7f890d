import StoredRoutine.Engine.SetCall
import StoredRoutine.Proofs.Catalog.Resolution

/-!
# `StoredRoutine.Proofs.Engine.Resumptions`: requests with coroutines of any kind

A request converts its arguments, resumes a coroutine, and looks at the way in which it stops. The
rest is the bookkeeping of the engine: the table of executions, the registry, the slot, the frame.
`Engine.nextBy` is a request in which the machine that runs coroutines is exchanged for a `Resumer`,
and the lookup of routines for another one. Nothing else is different: with the machine and the
lookup of the engine it is the request of the engine (`Engine.next_eq_nextBy`).

A resumer is given a state of its own along with the engine. For the machine there is nothing in it,
since the coroutines are in the heap of the engine.
-/

set_option autoImplicit false

namespace StoredRoutine

open Script (Ending ThreadId Value)

/-- The way in which a coroutine stops, as far as a request looks at it. -/
inductive Stop where
  /-- It has yielded something that is not nil, which can be read or not. -/
  | row (v : Outcome ScriptValue)
  /-- It has yielded nil, or returned. -/
  | ended
  | raised (f : Failure)

/-- What runs coroutines, with a state of its own. It may look at the arguments of a request as the
host has given them, and as they were converted. -/
structure Resumer (W : Type) where
  /-- Runs a coroutine for the first time. -/
  start : CompiledRoutine → Row → List Value → ThreadId → Engine → W → Stop × Engine × W
  /-- Goes on with a coroutine. -/
  resume : Row → List Value → ThreadId → Engine → W → Stop × Engine × W

namespace Serving

/-- What a coroutine has yielded as a row of its routine. -/
def rowOf (r : CompiledRoutine) (v : Outcome ScriptValue) : Serving (Option Datum) := do
  let v ← ofOutcome v
  converting fun b => Marshal.toRelational b v r.resultType (-1)

/-- The compiled form of a routine that can be called in a way, with any lookup. -/
def routineBy (look : TypeId → Serving CompiledRoutine) (kind : CallKind) (id : TypeId) :
    Serving CompiledRoutine := do
  checkUsable
  let r ← look id
  ofOutcome (r.accepts kind)
  return r

end Serving

namespace Engine

variable {W α β γ : Type} {e : Engine}

/-- What becomes of a call when its coroutine stops. -/
def answerStop (r : CompiledRoutine) (x : ExecutionId) (stop : Stop) (e : Engine) :
    (Outcome SetAnswer × SetCall) × Engine :=
  match stop with
  | .raised f => ((.error f, .failed), e.endExecution x)
  | .ended => ((.ok .endOfSet, .done), e.endExecution x)
  | .row v =>
    match Serving.rowOf r v e with
    | (.ok d, e) => ((.ok (.row d), .suspended x), e)
    | (.error f, e) => ((.error f, .failed), e.endExecution x)

/-- The same, with the state of the resumer. -/
def answerBy (r : CompiledRoutine) (x : ExecutionId) (stopped : Stop × Engine × W) :
    (Outcome SetAnswer × SetCall × W) × Engine :=
  let answered := answerStop r x stopped.1 stopped.2.1
  ((answered.1.1, answered.1.2, stopped.2.2), answered.2)

/-- Serves a request of a slot. -/
def requestBy (m : Resumer W) (args : Row) (call : SetCall × W) (r : CompiledRoutine)
    (e : Engine) : (Outcome SetAnswer × SetCall × W) × Engine :=
  match call.1 with
  | .done => ((.error alreadyFinished, call), e)
  | .failed => ((.error alreadyFinished, call), e)
  | .ready =>
    match Serving.arguments r args e with
    | (.error f, e) => ((.error f, call), e)
    | (.ok values, e) =>
      let made := e.opened
      answerBy r made.1.1 (m.start r args values made.1.2 made.2 call.2)
  | .suspended x =>
    match e.execution? x with
    | none => ((.error terminated, .failed, call.2), e)
    | some execution =>
      match Serving.arguments r args e with
      | (.error f, e) => ((.error f, call), e)
      | (.ok values, e) => answerBy r x (m.resume args values execution.thread e call.2)

/-- Asks for the next row of a set. -/
def nextBy (look : TypeId → Serving CompiledRoutine) (m : Resumer W) (e : Engine) (id : TypeId)
    (call : SetCall × W) (args : Row) : (Outcome SetAnswer × SetCall × W) × Engine :=
  match Serving.routineBy look .setFunction id e with
  | (.error f, e) => ((.error f, call), e)
  | (.ok r, e) => e.inFrame (requestBy m args call r)

/-! ### The machine -/

/-- The end of a run of the machine. -/
def stopOf (e : Engine) : Ending → Stop
  | .failed raised => .raised (failureOf e.heap raised)
  | .finished (.bool false :: rest) => .raised (failureOf e.heap (rest.headD .nil))
  | .finished _ => .ended
  | .yielded values =>
    let first := values.headD .nil
    if first.isNil then .ended else .row (e.ofValue first)

theorem answerRequest_eq_answerStop (r : CompiledRoutine) (x : ExecutionId) (ending : Ending)
    (e : Engine) : answerRequest r x ending e = answerStop r x (e.stopOf ending) e := by
  cases ending with
  | failed raised => rfl
  | finished values =>
    cases values with
    | nil => rfl
    | cons v rest =>
      cases v with
      | bool b => cases b <;> rfl
      | _ => rfl
  | yielded values =>
    unfold answerRequest stopOf
    dsimp only
    cases (values.headD .nil).isNil <;> rfl

/-- A run of the machine that resumes a coroutine. -/
def machineRun (thread : ThreadId) (values : List Value) (e : Engine) : Stop × Engine × Unit :=
  let stopped := e.resumeThread thread values
  (stopped.2.stopOf stopped.1, stopped.2, ())

/-- The machine. A coroutine starts with the function of its routine in front of the arguments. -/
def machine : Resumer Unit where
  start r _ values thread e _ := machineRun thread (r.function :: values) e
  resume _ values thread e _ := machineRun thread values e

/-- Without the state of the resumer. -/
def forget (done : (Outcome α × SetCall × W) × Engine) : (Outcome α × SetCall) × Engine :=
  ((done.1.1, done.1.2.1), done.2)

theorem request_eq_requestBy (args : Row) (slot : SetCall) (r : CompiledRoutine) (e : Engine) :
    request args slot r e = forget (requestBy machine args (slot, ()) r e) := by
  have hresumed (e : Engine) (x : ExecutionId) (thread : ThreadId) (values : List Value) :
      e.resumeCall r x thread values = forget (answerBy r x (machineRun thread values e)) := by
    unfold resumeCall
    exact answerRequest_eq_answerStop _ _ _ _
  unfold request requestBy
  cases slot with
  | done => rfl
  | failed => rfl
  | ready =>
    dsimp only
    generalize Serving.arguments r args e = converted
    obtain ⟨f | values, e₁⟩ := converted
    · rfl
    · exact hresumed _ _ _ _
  | suspended x =>
    dsimp only
    cases e.execution? x with
    | none => rfl
    | some execution =>
      dsimp only
      generalize Serving.arguments r args e = converted
      obtain ⟨f | values, e₁⟩ := converted
      · rfl
      · exact hresumed _ _ _ _

/-- A frame does not look at what a call is about beside the engine. -/
theorem inFrame_map (g : β → γ) (work : Engine → (Outcome α × β) × Engine) (e : Engine) :
    e.inFrame (fun e => (((work e).1.1, g (work e).1.2), (work e).2)) =
      (((e.inFrame work).1.1, g (e.inFrame work).1.2), (e.inFrame work).2) := by
  unfold inFrame
  dsimp only
  generalize work _ = done
  obtain ⟨⟨result, state⟩, e'⟩ := done
  dsimp only
  split
  · rfl
  · cases result <;> rfl

/-- A request of the engine is one with the machine, and with the lookup of the engine. -/
theorem next_eq_nextBy (e : Engine) (id : TypeId) (slot : SetCall) (args : Row) :
    e.next id slot args =
      forget (nextBy (Serving.lookup Serving.compile) machine e id (slot, ()) args) := by
  unfold next invoke nextBy
  rw [show Serving.routineFor .setFunction id e =
    Serving.routineBy (Serving.lookup Serving.compile) .setFunction id e from rfl]
  generalize Serving.routineBy _ _ _ e = found
  obtain ⟨f | r, e₁⟩ := found
  · rfl
  · have hsame : request args slot r = fun e => forget (requestBy machine args (slot, ()) r e) :=
      funext fun e => request_eq_requestBy args slot r e
    dsimp only
    rw [hsame]
    exact inFrame_map Prod.fst _ e₁

end Engine

end StoredRoutine
