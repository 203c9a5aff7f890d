import StoredRoutine.Engine.Serve
import StoredRoutine.Script.Machine.Step

/-!
# `StoredRoutine.Engine.Run`: running scripts

`run` lets the machine take many steps at a time and answers the services that it asks for. A
service that calls a function runs it to its end before it answers; such a run cannot be left by
yielding. This is the only recursion in the engine, and its measure is the number of turns that are
left.

A call with a time limit has so many steps. After every so many instructions outside of coroutines
there is a look whether any are left; if not, the script is stopped by a failure. It may catch the
failure and go on until the next look.
-/

set_option autoImplicit false

namespace StoredRoutine.Engine

open Script (Control Ending Machine.advance Machine.ticks Value)

/-- The failure that stops a script at its time limit. -/
def timeLimit : Failure := .runtime { message := "Script execution timeout" }

/-- The failure of a run that has no turns left. -/
def turnsExhausted : Failure := .internal "the script does not end"

/-- How many steps the machine takes at a time. -/
def stepsAtOnce : Nat := 1000

/-- The most steps that a call with a time limit has. -/
def maxStepsWithin : Nat := 20000000

/-- How many steps fit a time limit, in nanoseconds. -/
def stepsWithin (limit : Nat) : Nat := min (limit / 10) maxStepsWithin

/-- How many instructions there may be in the next turn. -/
def instructionsDue (e : Engine) : Nat :=
  if e.options.timeout.isSome then e.clock.untilLook else stepsAtOnce + 1

/-- Counts a turn. -/
def countTurn (e : Engine) (untilLook : Nat) : Engine :=
  { e with clock := { untilLook, left := e.clock.left.map (· - stepsAtOnce) } }

/-- Looks at the time. The instruction that is due counts again when it is executed. -/
def look (e : Engine) (c : Control) : Control × Engine :=
  let expired := e.clock.left = some 0
  (if expired then c.withFocus (.raise (.failure timeLimit)) else c,
    { e with clock := { e.clock with untilLook := instructionsBetweenLooks + 1 } })

/-- The control of a run in which a service calls a function. -/
def nestedControl (c : Control) (position : Nat) (f : Value) (args : List Value) : Control :=
  let level := c.outerLevel + c.level
  let start : Control :=
    { focus := .give []
      within := c.running
      beyond := .native .service position level ::
        (if c.thread.isNone then c.callers ++ c.beyond else c.callers)
      level }
  start.nest (position + 2) f args

/-- Runs a control to its end. -/
def run : Nat → Control → Engine → Ending × Engine
  | 0, _, e => (.failed (.failure turnsExhausted), e)
  | fuel + 1, c, e =>
    let due := e.instructionsDue
    -- The heap is taken out of the engine, so that a step can change it in place.
    let heap := e.heap
    let e := { e with heap := {} }
    match Machine.advance stepsAtOnce due heap c with
    | (left, .next heap c) =>
      let e := { e with heap }.countTurn left
      if left ≤ Machine.ticks c then
        let (c, e) := e.look c
        run fuel c e
      else run fuel c e
    | (left, .ended ending heap) => (ending, { e with heap }.countTurn left)
    | (left, .request s args position heap c) =>
      let call : Caller := fun f args e => run fuel (nestedControl c position f args) e
      match Serving.serve call s args ({ e with heap }.countTurn left) with
      | (.ok values, e) => run fuel (c.withFocus (.give values)) e
      | (.error f, e) => run fuel (c.withFocus (.raise (.failure f))) e

/-- The most turns that one run takes. -/
def maxTurns : Nat := 2 ^ 40

/-- Where functions are on the stack that the engine calls on its own. -/
def hostPosition : Nat := 2

/-- Runs a function to its end, outside of all coroutines. -/
def callFunction : Caller := fun f args e =>
  run maxTurns { focus := .call hostPosition f args, level := 1 } e

end StoredRoutine.Engine
