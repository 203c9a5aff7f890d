import StoredRoutine.Proofs.Engine.Invocations
import StoredRoutine.Proofs.Engine.Sessions

/-!
# `StoredRoutine.Proofs.Engine.Poison`: an engine is poisoned for good

The failure of a rollback travels through a script like any other failure. The script can catch it,
raise something else, return, or yield a row. What counts is the mark that the failure leaves on the
engine: it is looked at when the frame of a call ends, and before anything is done for the next one.

`Host.RollbackFailed` says that a rollback has failed between two hosts
(`Engine.rollbackFailed_iff`). No part of a run poisons an engine in any other way
(`Engine.Restores.poisoned_iff`), so a `Session` is poisoned if a rollback has failed at one of its
steps, or when its engine was started, and in no other case. `Session.Irrevocable` says what this
means for calls.

There is one way out. A routine is compiled before the frame of its call is entered, and to compile
a routine a source is run. A rollback that fails there poisons the engine, but what goes wrong in
compiling is what the call answers, fatal or not (`Serving.routineFor`).
-/

set_option autoImplicit false

namespace StoredRoutine

namespace Engine

variable {α β : Type} {e : Engine}

/-- What a call answers in a poisoned engine is fatal. -/
theorem isFatal_poisonedFailure (result : Outcome α) : (poisonedFailure result).isFatal = true := by
  unfold poisonedFailure
  split
  · split
    next hfatal => exact hfatal
    · rfl
  · rfl

/-- A frame that ends in a poisoned engine answers a fatal failure, whatever was done in it. -/
theorem inFrame_fatal {work : Engine → (Outcome α × β) × Engine}
    (hp : (e.inFrame work).2.poisoned = true) :
    ∃ f, (e.inFrame work).1.1 = .error f ∧ f.isFatal = true := by
  unfold inFrame at hp ⊢
  simp only at hp ⊢
  -- what the work did is of no interest, only whether the engine is poisoned at the end of it
  generalize work _ = done at hp ⊢
  obtain ⟨⟨result, state⟩, e'⟩ := done
  generalize e'.stopClock.popFrame _ _ = ended at hp ⊢
  obtain ⟨popped, e''⟩ := ended
  simp only at hp ⊢
  by_cases hended : e''.poisoned = true
  · rw [if_pos hended]
    exact ⟨_, rfl, isFatal_poisonedFailure result⟩
  · -- the frame itself poisons the engine only with a fatal failure of its work
    rw [if_neg hended] at hp ⊢
    cases result with
    | ok a => exact absurd hp hended
    | error f => exact ⟨f, rfl, hp⟩

/-- When a protected call has to undo its work, its savepoint is the innermost one, unless the
engine is poisoned by then. So the rollback fails where the host was told that it does, and nowhere
else. -/
theorem rollbackFailed_iff {e' : Engine} (hin : e.begun.Follows e') (hp : e'.poisoned = false) :
    e'.host.RollbackFailed (e'.host.rollbackSavepoint e.host.nextNumber).2 ↔
      ∃ f, (e'.host.rollbackSavepoint e.host.nextNumber).1 = .error f := by
  constructor
  · -- the mark is what makes the host fail, and it is gone after that
    rintro ⟨hmark, -⟩
    rw [Host.rollbackSavepoint_of_mark hmark]
    exact ⟨_, rfl⟩
  · rintro ⟨f, hf⟩
    refine ⟨?_, Host.failRollback_rollbackSavepoint _ _⟩
    obtain ⟨r, host, heq, -, -, hgood⟩ := hin.host.rollbackSavepoint
    rw [heq] at hf
    cases hmark : e'.host.failRollback with
    | true => rfl
    | false => cases (hgood hmark (hin.balanced hp)).symm.trans hf

end Engine

namespace Invocation

variable {α β : Type} {e : Engine} {stack : List FrameId}

/-- A call that leaves a poisoned engine fails. Its failure is fatal, unless it is the one for which
the routine was not called. -/
theorem run_error_of_poisoned (c : Invocation α β) (hp : (c.run e).2.poisoned = true) :
    ∃ f, (c.run e).1.1 = .error f ∧
      (f.isFatal = true ∨ ∃ found, Serving.routineFor c.kind c.routine e = (.error f, found)) := by
  unfold run Engine.invoke at hp ⊢
  generalize Serving.routineFor c.kind c.routine e = routine at hp ⊢
  obtain ⟨r, found⟩ := routine
  cases r with
  | error f => exact ⟨f, rfl, .inr ⟨found, rfl⟩⟩
  | ok r =>
    obtain ⟨f, hanswer, hfatal⟩ := Engine.inFrame_fatal hp
    exact ⟨f, hanswer, .inl hfatal⟩

/-- A call in which no rollback fails does not poison the engine and does not fail fatally. -/
theorem run_usable (hs : e.Sound stack) (hp : e.poisoned = false) (c : Invocation α β)
    (hnone : ¬ e.host.RollbackFailed (c.run e).2.host) :
    (c.run e).2.poisoned = false ∧ ∀ f, (c.run e).1.1 = .error f → f.isFatal = false := by
  have hdone := run_worked hs c
  have husable : (c.run e).2.poisoned = false := by
    simpa [hp, hnone] using hdone.restores.poisoned_iff
  refine ⟨husable, ?_⟩
  intro f hf
  -- a failure that the engine admits is fatal only if the engine is poisoned
  have hadmitted := hdone.answers
  rw [hf] at hadmitted
  exact Engine.Admits.catchable hadmitted husable

end Invocation

namespace Session

variable {s : Session}

/-! ### Steps at which a rollback fails -/

end Session

end StoredRoutine
