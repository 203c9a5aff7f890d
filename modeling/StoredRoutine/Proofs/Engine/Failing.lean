import StoredRoutine.Proofs.Engine.Poison

/-!
# `StoredRoutine.Proofs.Engine.Failing`: a request that fails

A call of a set-returning routine that has begun is over when its coroutine fails, when a row cannot
be converted, and when its execution has gone with the transaction. The slot has failed then, the
execution is in neither the table nor the registry, and no later request is served
(`AfterFailure.ended`, `spent_of_finished`).

There are two other ways for a request to fail, and both can leave the slot as it was. The arguments
of a request are converted before the coroutine is resumed. If they are refused the call waits on,
with its execution and the entry of the registry, and the next request resumes it
(`AfterFailure.refused`, `next_not_always_ends`). And if a rollback fails in the coroutine the
engine is poisoned, so that it answers a fatal failure to this request and to all later ones,
whatever the coroutine made of it.
-/

set_option autoImplicit false

namespace StoredRoutine.Engine

open Script (Ending Value)
open Serving (Callable)

variable {e e' e₁ : Engine} {stack : List FrameId} {r : CompiledRoutine} {args : Row}
  {slot slot' : SetCall} {id : TypeId} {x : ExecutionId} {f : Failure}

/-! ### Slots that get no more rows -/

/-- Whatever engine a slot is given to, a request fails and leaves the slot as it is. If its routine
is called, and the engine is not poisoned by that, it fails since the call is over. -/
def Spent (slot : SetCall) : Prop :=
  ∀ (e : Engine) (id : TypeId) (args : Row), e.Sound [] → (e.next id slot args).1.2 = slot ∧
    ∃ f, (e.next id slot args).1.1 = .error f ∧
      ∀ r e₁, e.Opens id r e₁ → (e.next id slot args).2.poisoned = false →
        f = .protocol "set-returning call has already finished"

/-- A request that does not find its routine leaves the slot as it is. -/
theorem next_eq_of_error {found : Engine}
    (hfound : Serving.routineFor .setFunction id e = (.error f, found)) (slot : SetCall)
    (args : Row) : e.next id slot args = ((.error f, slot), found) := by
  unfold next invoke
  rw [hfound]

/-- In an engine that is poisoned by now the answer is a fatal failure. -/
theorem Opens.next_fatal (h : e.Opens id r e₁) (slot : SetCall) (args : Row)
    (hp : (e.next id slot args).2.poisoned = true) :
    ∃ f, (e.next id slot args).1.1 = .error f ∧ f.isFatal = true := by
  obtain ⟨found, hfound, -⟩ := h
  unfold next invoke at hp ⊢
  rw [hfound] at hp ⊢
  exact inFrame_fatal hp

theorem spent_of_finished (hslot : slot.isFinished = true) : Spent slot := by
  intro e id args hs
  cases hroutine : Serving.routineFor .setFunction id e with
  | mk found after =>
    cases found with
    | error f =>
      rw [next_eq_of_error hroutine]
      refine ⟨rfl, f, rfl, ?_⟩
      rintro r e₁ ⟨found, hfound, -⟩
      cases hroutine.symm.trans hfound
    | ok r =>
      have hopens : e.Opens id r after.entered := ⟨after, hroutine, rfl⟩
      obtain ⟨hkept, -, -, hanswer⟩ := hopens.next_answer hs slot args
      rw [request_finished hslot] at hkept hanswer
      refine ⟨hkept, ?_⟩
      cases hp : (e.next id slot args).2.poisoned with
      | true =>
        obtain ⟨f, hf, -⟩ := hopens.next_fatal slot args hp
        exact ⟨f, hf, fun _ _ _ husable => by cases husable⟩
      | false => exact ⟨alreadyFinished, hanswer hp, fun _ _ _ _ => rfl⟩

/-! ### Requests that fail -/

/-- An execution waits, and the registry has the entry that would drop it. -/
def Waiting (e : Engine) (x : ExecutionId) : Prop :=
  ∃ execution, (x, execution) ∈ e.executions ∧
    (execution.cleanup, .dropExecution x) ∈ e.cleanups.entries

/-- What a request that has failed leaves of a call that had begun. The routine was called in the
engine `e₁`, and `e'` is what has become of the engine. -/
inductive AfterFailure (e₁ : Engine) (r : CompiledRoutine) (args : Row) (f : Failure)
    (e' : Engine) : SetCall → SetCall → Prop where
  /-- The call is over now, and its execution is forgotten. -/
  | ended {x : ExecutionId} (hforgot : e'.Forgot x) :
    AfterFailure e₁ r args f e' (.suspended x) .failed
  /-- The arguments were refused, and the call waits as before. -/
  | refused {x : ExecutionId} (hargs : (Serving.arguments r args e₁).1 = .error f)
    (hwaiting : e'.Waiting x) : AfterFailure e₁ r args f e' (.suspended x) (.suspended x)
  /-- The call was over before. -/
  | finished {slot : SetCall} (hslot : slot.isFinished = true)
    (hf : f = .protocol "set-returning call has already finished") :
    AfterFailure e₁ r args f e' slot slot

/-- A coroutine that was resumed and then failed, in one way or another, has ended the call. -/
theorem Resumes.failed {ending : Ending} (hs : e.Sound stack) (hr : Callable e r)
    (h : Resumes r args e slot x ending e') (hf : (request args slot r e).1.1 = .error f) :
    (request args slot r e).1.2 = .failed ∧ (request args slot r e).2.Forgot x := by
  -- the law of requests for each way to stop; those that answer cannot be meant
  have hlaw := requestLaw hs hr args slot
  cases ending with
  | failed v =>
    obtain ⟨hanswer, hforgot⟩ := hlaw.broken x v e' h
    rw [hanswer]
    exact ⟨rfl, hforgot⟩
  | finished values =>
    by_cases hfirst : values.head? = some (.bool false)
    · obtain ⟨rest, rfl⟩ := List.head?_eq_some_iff.mp hfirst
      obtain ⟨hanswer, hforgot⟩ := hlaw.raised x rest e' h
      rw [hanswer]
      exact ⟨rfl, hforgot⟩
    · obtain ⟨hanswer, -⟩ := hlaw.returned x values e' h hfirst
      rw [hanswer] at hf
      cases hf
  | yielded values =>
    cases hnil : (values.headD .nil).isNil with
    | true =>
      obtain ⟨hanswer, -⟩ := hlaw.null x values e' h hnil
      rw [hanswer] at hf
      cases hf
    | false =>
      cases hconverted : Serving.resultDatum r (values.headD .nil) e' with
      | mk converted e'' =>
        cases converted with
        | ok d =>
          rw [(hlaw.row x values e' e'' d h hnil hconverted).1] at hf
          cases hf
        | error g =>
          obtain ⟨hanswer, hforgot⟩ := hlaw.unconvertible x values e' e'' g h hnil hconverted
          rw [hanswer]
          exact ⟨rfl, hforgot⟩

/-- An execution that is not in the table is not in the registry either. -/
theorem forgot_of_execution? (hs : e.Sound stack) (hx : e.execution? x = none) : e.Forgot x := by
  have hnone (execution : Execution) : (x, execution) ∉ e.executions := by
    intro hin
    rw [(execution?_eq_some hs).mpr hin] at hx
    cases hx
  refine ⟨hnone, fun c hc => ?_⟩
  obtain ⟨execution, hin, -⟩ := (hs.registered.matched c x).mp hc
  exact hnone execution hin

theorem waiting_of_execution? (hs : e.Sound stack) {execution : Execution}
    (hx : e.execution? x = some execution) : e.Waiting x := by
  have hin := (execution?_eq_some hs).mp hx
  exact ⟨execution, hin, (hs.registered.matched _ x).mpr ⟨execution, hin, rfl⟩⟩

/-- The same of the request itself, before the engine looks whether it is poisoned. -/
theorem afterFailure_request (hs : e.Sound stack) (hr : Callable e r) (hslot : slot ≠ .ready)
    (hf : (request args slot r e).1.1 = .error f) :
    AfterFailure e r args f (request args slot r e).2 slot (request args slot r e).1.2 := by
  cases slot with
  | ready => exact absurd rfl hslot
  | done =>
    rw [request_finished rfl] at hf ⊢
    exact .finished rfl (Except.error.inj hf).symm
  | failed =>
    rw [request_finished rfl] at hf ⊢
    exact .finished rfl (Except.error.inj hf).symm
  | suspended x =>
    cases hx : e.execution? x with
    | none =>
      rw [request_terminated hx]
      exact .ended (forgot_of_execution? hs hx)
    | some execution =>
      have hconverted := (Serving.keeps_arguments r args).spec hs
      cases hvalues : Serving.arguments r args e with
      | mk converted e₁ =>
        cases converted with
        | error g =>
          rw [request_suspended_error hx hvalues] at hf ⊢
          rw [hvalues] at hconverted
          obtain ⟨hs₁, h₁, -⟩ := hconverted
          -- arguments that cannot be converted leave the coroutine as it waits
          have hx₁ : e₁.execution? x = some execution := by
            unfold execution?
            rw [h₁.executions]
            exact hx
          cases hf
          exact .refused (congrArg Prod.fst hvalues) (waiting_of_execution? hs₁ hx₁)
        | ok values =>
          obtain ⟨hfailed, hforgot⟩ := (Resumes.again hx hvalues).failed hs hr hf
          rw [hfailed]
          exact .ended hforgot

/-- A request of a call that has begun and fails: the engine is poisoned by now, or the call is
over, or its arguments were refused. -/
theorem next_afterFailure (hs : e.Sound []) (hopens : e.Opens id r e₁) (hslot : slot ≠ .ready)
    (hanswer : e.next id slot args = ((.error f, slot'), e')) :
    (e'.poisoned = true ∧ f.isFatal = true ∨ AfterFailure e₁ r args f e' slot slot') ∧
      (slot'.isFinished = true → Spent slot') := by
  refine ⟨?_, spent_of_finished⟩
  obtain ⟨hsame, hexecutions, hcleanups, husable⟩ := hopens.next_answer hs slot args
  have hfatal := hopens.next_fatal slot args
  rw [hanswer] at hsame hexecutions hcleanups husable hfatal
  cases hp : e'.poisoned with
  | true =>
    obtain ⟨g, hg, hgfatal⟩ := hfatal hp
    cases hg
    exact .inl ⟨rfl, hgfatal⟩
  | false =>
    obtain ⟨frame, hs₁, hr⟩ := hopens.sound hs
    have hafter := afterFailure_request hs₁ hr hslot (husable hp).symm
    rw [← hsame] at hafter
    refine .inr ?_
    -- the table and the registry are those that the request has left
    cases hafter with
    | ended hforgot =>
      refine .ended ?_
      unfold Forgot
      rw [hexecutions, hcleanups]
      exact hforgot
    | refused hargs hwaiting =>
      refine .refused hargs ?_
      unfold Waiting
      rw [hexecutions, hcleanups]
      exact hwaiting
    | finished hover hf => exact .finished hover hf

/-! ### A call whose arguments are refused -/

/-- A routine without arguments that returns a set. -/
def counting : RoutineDefinition :=
  { id := 0, name := "count", source := "for i = 1, 3 do coroutine.yield(i) end", argNames := [],
    argTypes := [], resultType := Scalar.int4.id, returnsSet := true, stamp := .ofTransaction 0 }

/-- A new engine whose host has the routine. -/
def countingEngine : Engine :=
  { bare {} Host.new with host := (Host.new.createRoutine counting).2 }

/-- An engine that has compiled the routine, and in which a call of it waits. -/
def countingCall : Engine :=
  (Serving.routineFor .setFunction Host.firstId countingEngine).2.opened.2

theorem countingCall_sound : countingCall.Sound [] := by
  have hcompiled := (Serving.keeps_routineFor .setFunction Host.firstId).spec
    (show countingEngine.Sound [] from (bare_sound {} ⟨rfl, rfl⟩).anyHost ⟨rfl, rfl⟩)
  exact opened_sound hcompiled.1

theorem opens_countingCall : ∃ r e₁, countingCall.Opens Host.firstId r e₁ := by
  have hfound : (Serving.routineFor .setFunction Host.firstId countingCall).1.isOk = true := by
    decide +kernel
  cases hroutine : Serving.routineFor .setFunction Host.firstId countingCall with
  | mk found after =>
    rw [hroutine] at hfound
    cases found with
    | error f => cases hfound
    | ok r => exact ⟨r, after.entered, after, hroutine, rfl⟩

/-- A request with an argument, which the routine does not take. -/
theorem next_countingCall : ∃ f e', countingCall.next Host.firstId (.suspended ⟨1⟩) [none] =
    ((.error f, .suspended ⟨1⟩), e') ∧ e'.poisoned = false := by
  have hslot : (countingCall.next Host.firstId (.suspended ⟨1⟩) [none]).1.2 = .suspended ⟨1⟩ := by
    decide +kernel
  have hfails : (countingCall.next Host.firstId (.suspended ⟨1⟩) [none]).1.1.isOk = false := by
    decide +kernel
  have husable : (countingCall.next Host.firstId (.suspended ⟨1⟩) [none]).2.poisoned = false := by
    decide +kernel
  generalize countingCall.next Host.firstId (.suspended ⟨1⟩) [none] = done at hslot hfails husable ⊢
  obtain ⟨⟨answer, slot⟩, e'⟩ := done
  cases answer with
  | ok a => cases hfails
  | error f =>
    obtain rfl : slot = .suspended ⟨1⟩ := hslot
    exact ⟨f, e', rfl, husable⟩

theorem next_afterFailure_refused : ∃ r e₁ f e', countingCall.Opens Host.firstId r e₁ ∧
    countingCall.next Host.firstId (.suspended ⟨1⟩) [none] = ((.error f, .suspended ⟨1⟩), e') ∧
    (e'.poisoned = true ∧ f.isFatal = true ∨
      AfterFailure e₁ r [none] f e' (.suspended ⟨1⟩) (.suspended ⟨1⟩)) := by
  obtain ⟨r, e₁, hopens⟩ := opens_countingCall
  obtain ⟨f, e', hanswer, -⟩ := next_countingCall
  have hstarted : SetCall.suspended ⟨1⟩ ≠ .ready := by decide
  obtain ⟨hafter, -⟩ := next_afterFailure countingCall_sound hopens hstarted hanswer
  exact ⟨r, e₁, f, e', hopens, hanswer, hafter⟩

/-- A call that has begun may go on after a request that has failed. -/
theorem next_not_always_ends :
    ¬ ∀ (e e₁ e' : Engine) (id : TypeId) (r : CompiledRoutine) (args : Row) (x : ExecutionId)
      (f : Failure) (slot' : SetCall), e.Sound [] → e.Opens id r e₁ →
      e.next id (.suspended x) args = ((.error f, slot'), e') → e'.poisoned = false →
      slot' = .failed := by
  intro hends
  obtain ⟨r, e₁, hopens⟩ := opens_countingCall
  obtain ⟨f, e', hanswer, husable⟩ := next_countingCall
  have hslot := hends _ _ _ _ r _ _ f _ countingCall_sound hopens hanswer husable
  cases hslot

end StoredRoutine.Engine
