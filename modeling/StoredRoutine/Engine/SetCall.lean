import StoredRoutine.Engine.Invoke

/-!
# `StoredRoutine.Engine.SetCall`: the rows of a set, one request at a time

A set-returning routine runs in a coroutine that yields its rows. Between two requests the
coroutine waits as an execution of the engine, and the host keeps a slot that names it. An
execution goes away when its routine is done or fails, when the host abandons it, and when the
transaction ends; a slot whose execution has gone away with the transaction fails on the next
request.
-/

set_option autoImplicit false

namespace StoredRoutine

open Script (Control Ending Focus Machine.threadPosition ThreadId ThreadState Value)

/-- The slot of the host for one call of a set-returning routine. -/
inductive SetCall where
  /-- No request has been made. -/
  | ready
  /-- The call waits after a row. -/
  | suspended (execution : ExecutionId)
  /-- The set has ended, or was abandoned. -/
  | done
  | failed
  deriving Repr, DecidableEq

/-- Whether no more requests are accepted. -/
def SetCall.isFinished : SetCall → Bool
  | .ready => false
  | .suspended _ => false
  | .done => true
  | .failed => true

/-- What a request answers. -/
inductive SetAnswer where
  | row (value : Option Datum)
  | endOfSet

namespace Engine

/-- The execution of an identifier. -/
def execution? (e : Engine) (id : ExecutionId) : Option Execution := e.executions.lookup id

/-- Enters a coroutine as an execution, which the end of the transaction drops. -/
def addExecution (e : Engine) (thread : ThreadId) : ExecutionId × Engine :=
  let id : ExecutionId := ⟨e.started + 1⟩
  let (cleanup, cleanups) := e.cleanups.register (.dropExecution id)
  (id,
    { e with
      cleanups
      started := e.started + 1
      executions := (id, { thread, cleanup }) :: e.executions })

/-- Forgets an execution, if it is still there. -/
def dropExecution (e : Engine) (id : ExecutionId) : Engine :=
  { e with executions := e.executions.filter fun x => decide (x.1 ≠ id) }

/-- Ends an execution: it is forgotten and leaves the registry. -/
def endExecution (e : Engine) (id : ExecutionId) : Engine :=
  match e.execution? id with
  | none => e
  | some x => { e.dropExecution id with cleanups := (e.cleanups.unregister x.cleanup).2 }

/-- The engine in which a new coroutine waits as an execution, and the names of both. -/
def opened (e : Engine) : (ExecutionId × ThreadId) × Engine :=
  let made := e.heap.newThread e.setBody
  let added := ({ e with heap := made.2 } : Engine).addExecution made.1
  ((added.1, made.1), added.2)

/-- The control with which a coroutine goes on. -/
def controlOf (e : Engine) (thread : ThreadId) (args : List Value) : Control :=
  let start (callers : List Script.Caller) (focus : Focus) : Control :=
    { focus, callers, thread := some thread, outerLevel := 1 }
  match e.heap.thread thread with
  | .waiting callers => start callers (.give args)
  | .fresh body => start [] (.call Machine.threadPosition body args)
  | _ => start [] (.raise (.ofText "cannot resume dead coroutine"))

/-- Resumes a coroutine and runs it until it yields or ends. -/
def resumeThread (e : Engine) (thread : ThreadId) (args : List Value) : Ending × Engine :=
  run maxTurns (e.controlOf thread args) { e with heap := e.heap.setThread thread .active }

/-- The failure for a request after the last one. -/
def alreadyFinished : Failure := .protocol "set-returning call has already finished"

/-- The failure for a request after the end of the transaction. -/
def terminated : Failure := .protocol "set-returning call was terminated at transaction end"

/-- What the end of a resumption means. A coroutine that ends with false has failed; a row that is
nil, and every other end, is the end of the set. A row that cannot be converted ends the call,
too. -/
def answerRequest (r : CompiledRoutine) (id : ExecutionId) (ending : Ending) (e : Engine) :
    (Outcome SetAnswer × SetCall) × Engine :=
  match ending with
  | .failed raised => ((.error (failureOf e.heap raised), .failed), e.endExecution id)
  | .finished (.bool false :: rest) =>
    ((.error (failureOf e.heap (rest.headD .nil)), .failed), e.endExecution id)
  | .finished _ => ((.ok .endOfSet, .done), e.endExecution id)
  | .yielded values =>
    let first := values.headD .nil
    if first.isNil then ((.ok .endOfSet, .done), e.endExecution id)
    else
      match Serving.resultDatum r first e with
      | (.ok d, e) => ((.ok (.row d), .suspended id), e)
      | (.error f, e) => ((.error f, .failed), e.endExecution id)

/-- Resumes the coroutine of an execution, and answers by the way in which it stops. -/
def resumeCall (e : Engine) (r : CompiledRoutine) (id : ExecutionId) (thread : ThreadId)
    (args : List Value) : (Outcome SetAnswer × SetCall) × Engine :=
  let stopped := e.resumeThread thread args
  answerRequest r id stopped.1 stopped.2

/-- Serves a request of a slot. -/
def request (args : Row) (slot : SetCall) (r : CompiledRoutine) (e : Engine) :
    (Outcome SetAnswer × SetCall) × Engine :=
  match slot with
  | .done => ((.error alreadyFinished, slot), e)
  | .failed => ((.error alreadyFinished, slot), e)
  | .ready =>
    match Serving.arguments r args e with
    | (.error f, e) => ((.error f, slot), e)
    | (.ok values, e) =>
      let made := e.opened
      made.2.resumeCall r made.1.1 made.1.2 (r.function :: values)
  | .suspended id =>
    match e.execution? id with
    | none => ((.error terminated, .failed), e)
    | some x =>
      match Serving.arguments r args e with
      | (.error f, e) => ((.error f, slot), e)
      | (.ok values, e) => e.resumeCall r id x.thread values

/-- Asks for the next row of a set. -/
def next (e : Engine) (id : TypeId) (slot : SetCall) (args : Row) :
    (Outcome SetAnswer × SetCall) × Engine :=
  e.invoke .setFunction id slot (request args slot)

/-- Drops a call that the host will not finish. A call that has failed stays failed. -/
def abandon (e : Engine) (slot : SetCall) : SetCall × Engine :=
  match slot with
  | .ready => (.done, e)
  | .suspended id => (.done, e.endExecution id)
  | .done => (.done, e)
  | .failed => (.failed, e)

end Engine

end StoredRoutine
