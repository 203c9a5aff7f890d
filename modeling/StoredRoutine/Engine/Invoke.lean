import StoredRoutine.Engine.Compile

/-!
# `StoredRoutine.Engine.Invoke`: one call from the host

Every call from the host looks its routine up, checks that the routine is of the kind that is
called, and runs in a frame of its own, which is aborted if the call fails. A call that fails
fatally poisons the engine, and a poisoned engine answers nothing any more.
-/

set_option autoImplicit false

namespace StoredRoutine

open Script (Value)

/-- How a routine is called. -/
inductive CallKind where
  /-- For one value. -/
  | function
  /-- For the rows of a set, one at a time. -/
  | setFunction
  | trigger
  deriving Repr, DecidableEq

/-- Refuses to call a routine in a way that does not fit it. -/
def CompiledRoutine.accepts (r : CompiledRoutine) (kind : CallKind) : Outcome Unit :=
  if r.isTrigger != (kind == .trigger) then
    .error (.protocol "trigger functions can only be called as triggers")
  else if kind = .function ∧ r.returnsSet then
    .error (.protocol "set-valued function called in context that cannot accept a set")
  else if kind = .setFunction ∧ !r.returnsSet then
    .error (.protocol s!"function {r.name} does not return a set")
  else .ok ()

namespace Engine

/-- The failure of an engine that refuses all calls. -/
def unusable : Failure := .fatal "engine is unusable after a double fault"

/-- How a frame ends with a result. -/
def exitOf {α : Type} : Outcome α → FrameExit
  | .ok _ => .normal
  | .error _ => .aborted

/-- What a call answers in an engine that is poisoned by now. -/
def poisonedFailure {α : Type} : Outcome α → Failure
  | .error f => if f.isFatal then f else unusable
  | .ok _ => unusable

end Engine

namespace Serving

/-- Refuses all work of a poisoned engine. -/
def checkUsable : Serving Unit := do
  if (← get).poisoned then throw Engine.unusable

/-- The compiled form of a routine that can be called in a way. -/
def routineFor (kind : CallKind) (id : TypeId) : Serving CompiledRoutine := do
  checkUsable
  let r ← lookup compile id
  ofOutcome (r.accepts kind)
  return r

/-- The arguments of a call as values of the script. -/
def arguments (r : CompiledRoutine) (args : Row) : Serving (List Value) := do
  if args.length ≠ r.argTypes.length then
    throw (.invalidArgument
      s!"function {r.name} takes {r.argTypes.length} arguments, {args.length} given")
  (args.zip r.argTypes).mapM fun a => ofDatum a.1 a.2

/-- A value of the script as a result of a routine. -/
def resultDatum (r : CompiledRoutine) (v : Value) : Serving (Option Datum) :=
  toDatum v r.resultType (-1)

/-- Runs a function; what it raises is the failure that it stands for. -/
def runRaising (f : Value) (args : List Value) : Serving (List Value) := do
  match ← runProtected Engine.callFunction f args with
  | .ok results => return results
  | .error raised => throw (Engine.failureOf (← get).heap raised)

/-- Calls a routine for one value. -/
def callForValue (r : CompiledRoutine) (args : Row) : Serving (Option Datum) := do
  let values ← arguments r args
  let results ← runRaising r.function values
  resultDatum r (results.headD .nil)

end Serving

namespace Engine

variable {α β : Type}

/-- Starts the clock of a call, if there is a time limit. -/
def startClock (e : Engine) : Engine :=
  { e with clock := { e.clock with left := e.options.timeout.map stepsWithin } }

/-- Stops the clock. -/
def stopClock (e : Engine) : Engine := { e with clock := { e.clock with left := none } }

/-- Does the work of a call in a frame of its own. -/
def inFrame (work : Engine → (Outcome α × β) × Engine) (e : Engine) : (Outcome α × β) × Engine :=
  let (frame, e) := e.pushFrame
  let ((result, state), e) := work e.startClock
  let (popped, e) := e.stopClock.popFrame frame (exitOf result)
  if e.poisoned then ((.error (poisonedFailure result), state), e)
  else
    match result with
    | .ok a => ((popped.map fun _ => a, state), e)
    | .error f => ((.error f, state), { e with poisoned := f.isFatal })

/-- One call of a routine. `state` is what the call is about beside the engine; `work` changes it.
-/
def invoke (kind : CallKind) (id : TypeId) (state : β)
    (work : CompiledRoutine → Engine → (Outcome α × β) × Engine) (e : Engine) :
    (Outcome α × β) × Engine :=
  match Serving.routineFor kind id e with
  | (.error f, e) => ((.error f, state), e)
  | (.ok r, e) => e.inFrame (work r)

/-- Work that changes nothing beside the engine. -/
def plainWork (work : Serving α) (e : Engine) : (Outcome α × Unit) × Engine :=
  let (result, e) := work e
  ((result, ()), e)

/-- Calls a routine for one value. -/
def call (e : Engine) (id : TypeId) (args : Row) : Outcome (Option Datum) × Engine :=
  let ((result, ()), e) := e.invoke .function id () fun r => plainWork (Serving.callForValue r args)
  (result, e)

/-- Compiles a routine without calling it. -/
def validate (e : Engine) (id : TypeId) : Outcome Unit × Engine :=
  (do
    Serving.checkUsable
    let _ ← Serving.lookup Serving.compile id : Serving Unit) e

/-- Drops the compiled form of a routine. The flag says whether there was one. -/
def invalidate (e : Engine) (id : TypeId) : Bool × Engine :=
  let (found, routines) := e.routines.invalidate id
  (found, { e with routines })

end Engine

end StoredRoutine
