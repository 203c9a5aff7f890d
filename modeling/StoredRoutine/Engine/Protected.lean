import StoredRoutine.Engine.Raised
import StoredRoutine.Script.Machine.Basic

/-!
# `StoredRoutine.Engine.Protected`: running functions, and running them under a savepoint

The engine runs functions on behalf of the host and of services. `call` runs a function to its end.
What an unprotected function raises leaves as a failure: as itself if it is one, and as the text of
the raised value otherwise, followed by a trace of the calls. A protected function is called by
`pcall`, so that what it raises can be told from what goes wrong around it.

A protected call starts a frame and a savepoint, and runs a function. If it returns, the savepoint
is released and what it did stays. If it raises, the savepoint is rolled back, the frame is
aborted, and the script goes on with what was raised. A failure that is fatal is not caught, and a
rollback that fails poisons the engine.
-/

set_option autoImplicit false

namespace StoredRoutine

open Script (Ending Value)

/-- Runs a function to its end. -/
abbrev Caller : Type := Value → List Value → Engine → Ending × Engine

namespace Serving

/-- Does something and answers its outcome instead of failing. -/
def attempt {α : Type} (x : Serving α) : Serving (Outcome α) := fun e =>
  let (result, e) := x e
  (.ok result, e)

/-- Runs a function. What it raises is answered, as a value. -/
def runFunction (call : Caller) (f : Value) (args : List Value) :
    Serving (Except Value (List Value)) :=
  fun e =>
    match call f args e with
    | (.finished values, e) => (.ok (.ok values), e)
    | (.yielded values, e) => (.ok (.ok values), e)
    | (.failed raised, e) => (.ok (.error raised), e)

/-- The line in front of a trace of calls. -/
def traceMark : String := "\nstack traceback:"

/-- The failure with a text and a trace. -/
def traced (text : String) : Failure := .runtime { message := text ++ traceMark }

/-- How often the text of a raised value may raise another one. -/
def maxRaised : Nat := 200

/-- The failure that something raised leaves as. If its text cannot be made, what was raised
meanwhile takes its place. -/
def raisedFailure (call : Caller) : Nat → Value → Serving Failure
  | _, .failure f => pure f
  | 0, _ => pure (traced "C stack overflow")
  | left + 1, raised => do
    match ← runFunction call (.builtin .toText) [raised] with
    | .ok results => return traced (((results.headD .nil).stringForm?).elim "" Text.display)
    | .error other => raisedFailure call left other

/-- Runs a function. What it raises is a failure. -/
def runUnprotected (call : Caller) (f : Value) (args : List Value) : Serving (List Value) := do
  match ← runFunction call f args with
  | .ok results => return results
  | .error raised => throw (← raisedFailure call maxRaised raised)

/-- Runs a function in a protected call. What it raises is answered, as a value. -/
def runProtected (call : Caller) (f : Value) (args : List Value) :
    Serving (Except Value (List Value)) := do
  match ← attempt (runUnprotected call (.builtin .pcall) (f :: args)) with
  | .error failure => return .error (.failure failure)
  | .ok results =>
    if (results.headD .nil).isTrue then return .ok results.tail
    else return .error (results.tail.headD .nil)

end Serving

end StoredRoutine

namespace StoredRoutine

open Script (Value)

namespace Engine

/-- Starts a frame. -/
def pushFrame (e : Engine) : FrameId × Engine :=
  let (frame, arena) := e.arena.pushFrame
  (frame, { e with arena })

/-- Ends a frame; an engine whose current frame is another one stays as it is. -/
def popFrame (e : Engine) (frame : FrameId) (exit : FrameExit) : Outcome Unit × Engine :=
  match e.arena.popFrame frame exit with
  | .ok arena => (.ok (), { e with arena })
  | .error f => (.error f, e)

end Engine

namespace Serving

/-- Starts a frame. -/
def pushFrame : Serving FrameId := modifyGet Engine.pushFrame

/-- Ends a frame. -/
def popFrame (frame : FrameId) (exit : FrameExit) : Serving Unit := fun e => e.popFrame frame exit

/-- The failure of a rollback in a protected call. -/
def doubleFault (f : Failure) : Failure :=
  .fatal ("double fault in subtransaction: " ++ f.display)

/-- What the script gets for something raised: a failure becomes a report, all else stays as it
is. -/
def caught (raised : Value) : Serving Value :=
  match raised with
  | .failure f => reportTable f.report
  | v => pure v

/-- The function under a savepoint has returned. -/
def keepWork (frame : FrameId) (savepoint : Nat) (results : List Value) : Serving (List Value) := do
  let released ← attempt (onHost fun h => h.releaseProtected savepoint)
  popFrame frame .normal
  ofOutcome released
  return .bool true :: results

/-- The function under a savepoint has raised something. -/
def undoWork (frame : FrameId) (savepoint : Nat) (raised : Value) : Serving (List Value) := do
  let failure := Engine.failureOf (← get).heap raised
  if failure.isFatal then
    popFrame frame .aborted
    throw failure
  match ← attempt (onHost fun h => h.rollbackSavepoint savepoint) with
  | .error f =>
    modify fun e => { e with poisoned := true }
    let _ ← attempt (popFrame frame .aborted)
    throw (doubleFault f)
  | .ok () =>
    popFrame frame .aborted
    return [.bool false, ← caught raised]

/-- Runs a function under a savepoint. -/
def underSavepoint (call : Caller) (f : Value) (args : List Value) : Serving (List Value) := do
  let frame ← pushFrame
  match ← attempt (onHost Host.beginProtected) with
  | .error failure =>
    popFrame frame .normal
    throw failure
  | .ok savepoint =>
    match ← runProtected call f args with
    | .ok results => keepWork frame savepoint results
    | .error raised => undoWork frame savepoint raised

/-- The protected call of scripts. Its first argument is the function. -/
def protectedCall (call : Caller) (args : List Value) : Serving (List Value) := do
  match args with
  | [] => throw (.invalidArgument "subtransaction expects a function as its first argument")
  | f :: rest =>
    if !f.isFunction then
      throw (.invalidArgument "subtransaction expects a function as its first argument")
    if !(← get).host.inTransaction then
      throw (.protocol "cannot start a subtransaction out of transaction")
    underSavepoint call f rest

end Serving

end StoredRoutine
