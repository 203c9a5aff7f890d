import StoredRoutine.Proofs.Engine.Start

/-!
# `StoredRoutine.Proofs.Engine.Isolation`: what a protected call leaves behind

A protected call has two ways to undo things: the savepoint of the host for the tables, and a frame
of the arena for the layouts. Whatever the function does, and however deep it nests protected calls
of its own, both are the innermost ones again when it is done (`Engine.run_keeps`). So a rollback
that goes well brings back all tables and all layouts, and the script goes on with what was raised.

A function that returns keeps what it did, and its savepoint is released. That may go wrong in one
case. After a rollback that failed the engine is poisoned, and the script can have the fatal failure
in its hands. Raised again under a savepoint, it leaves the savepoint behind, and the one around it
is not the innermost one any more.
-/

set_option autoImplicit false

namespace StoredRoutine.Engine

open Script (AllOf Control Value)

variable {e e' : Engine} {stack : List FrameId}

/-- The functions that a service calls, in a run that has so many turns left. -/
def nestedCaller (fuel : Nat) (c : Control) (position : Nat) : Caller := fun f args e =>
  run fuel (nestedControl c position f args) e

theorem nestedCaller_keeps (fuel : Nat) (c : Control) (position : Nat) :
    (nestedCaller fuel c position).Keeps := fun _ e _ _ hs hf hargs =>
  run_keeps fuel hs (holds_nestedControl (innate_admits e) c position hf hargs)

theorem protectedCall_eq {call : Caller} {f : Value} (hf : f.isFunction = true)
    (hin : e.host.inTransaction = true) (args : List Value) :
    Serving.protectedCall call (f :: args) e = Serving.underSavepoint call f args e := by
  have hget : (get : Serving Engine) e = (.ok e, e) := rfl
  unfold Serving.protectedCall
  simp only [hf, Bool.not_true, Bool.false_eq_true, if_false]
  rw [run_bind, hget]
  simp only [hin, Bool.not_true, Bool.false_eq_true, if_false]

/-- A run that calls a function of the library. -/
def libraryCaller : Caller := nestedCaller 9 { focus := .give [] } 1

/-- An engine in which a protected call could not be rolled back. -/
def faulted : Engine :=
  (Serving.protectedCall libraryCaller [.builtin .error, .bool true]
    (bare {} { Host.new with failRollback := true })).2

end StoredRoutine.Engine
