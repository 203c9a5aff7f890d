import StoredRoutine.Script.Machine.Calls
import StoredRoutine.Script.Machine.Instructions

/-!
# `StoredRoutine.Script.Machine.Step`: one step

`give` goes on with the values of a call, and `step` does what is next. None of them is recursive in
what it runs: how deep calls are nested shows in the callers and nowhere else. `advance` takes many
steps at once.
-/

set_option autoImplicit false

namespace StoredRoutine.Script.Machine

/-- Goes on with values. -/
def give (h : Heap) (c : Control) (values : List Value) : Step :=
  match c.callers with
  | [] => endStack h c values
  | .script a :: rest =>
    let level := min c.level a.call.level
    deliver h { c with callers := rest, level } a values
  | .concat a left :: rest =>
    let level := min c.level a.call.level
    deliverJoined h { c with callers := rest, level } a left values
  | .native n position level :: rest =>
    let level := min c.level level
    deliverNative h { c with callers := rest, level } n position level values

/-- One step of a run. What is next is taken out of the control, so that it can be changed in
place. -/
def step (h : Heap) (c : Control) : Step :=
  let focus := c.focus
  let c := c.withFocus (.give [])
  match focus with
  | .run a => execute h c a
  | .give values => give h c values
  | .call position f args => call h c position f args
  | .raise error => raise h c error

/-! ### Many steps -/

/-- How many of the instructions at the bottom are counted by the next step. -/
def ticks (c : Control) : Nat :=
  match c.focus with
  | .run a =>
    if c.running.isNone && (instructionAt a a.next).isCounted then 1 else 0
  | _ => 0

/-- Takes so many steps, and counts the instructions that are executed outside of all coroutines.
Nothing is done when the last of them is due. -/
def advance : Nat → Nat → Heap → Control → Nat × Step
  | 0, left, h, c => (left, .next h c)
  | fuel + 1, left, h, c =>
    let counted := ticks c
    if left ≤ counted then (left, .next h c)
    else
      match step h c with
      | .next h c => advance fuel (left - counted) h c
      | s => (left - counted, s)

end StoredRoutine.Script.Machine
