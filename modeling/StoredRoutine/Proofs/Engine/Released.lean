import StoredRoutine.Proofs.Engine.Validation

/-!
# `StoredRoutine.Proofs.Engine.Released`: what a failed call leaves of its row layouts

A call has a frame of its own, which is aborted if the work of the call fails. After that the same
handles have a layout as before (`Engine.inFrame_released`): those that were made for the call have
lost it, wherever a script has put the tuples and result sets that hold them.

How the frame ends is decided by what the work answers, and only then is it asked whether the engine
is poisoned. So there is a way for a call to fail although its work has not
(`Invocation.Overruled`): a rollback has failed, and the script has caught that and returned. In any
other case a failed call releases everything (`Invocation.run_released`), but for what is allocated
before the frame is entered. That takes a routine whose body is not enclosed in its function, of
which a part is executed when the routine is compiled.
-/

set_option autoImplicit false

namespace StoredRoutine

variable {α β : Type} {e e' : Engine} {stack : List FrameId}

namespace Engine

/-- The layouts of an engine are those of before. -/
structure Released (e e' : Engine) : Prop where
  layouts : ∀ id, e'.arena.layout? id = e.arena.layout? id
  /-- A tuple or a result set has no layout if its handle was not there before. -/
  made : ∀ id, e.arena.handle? id = none → e'.arena.layout? id = none
  live : e'.arena.liveLayouts = e.arena.liveLayouts

theorem Sound.released (hs : e.Sound stack) (hs' : e'.Sound stack)
    (hsame : ∀ id, e'.arena.layout? id = e.arena.layout? id) : e.Released e' where
  layouts := hsame
  made id hnone := by
    rw [hsame, Arena.layout?, hnone, Option.bind_none]
  live := hs.arena.toCounted.liveLayouts_eq hs'.arena.toCounted hsame

/-- A frame whose work fails is aborted, whatever that means for the engine. -/
theorem inFrame_released {work : Engine → (Outcome α × β) × Engine}
    {P : β → List (ExecutionId × Execution) → Nat → Prop} {f : Failure} (hs : e.Sound stack)
    (hdone : e.entered.Worked (e.arena.pushFrame.1 :: stack) P (work e.entered))
    (hfailed : (work e.entered).1.1 = .error f) : e.Released (e.inFrame work).2 := by
  refine hs.released (inFrame_worked hs hdone).sound ?_
  generalize heq : work e.entered = done at hdone hfailed
  obtain ⟨⟨result, state⟩, e'⟩ := done
  obtain rfl : result = .error f := hfailed
  obtain ⟨arena, hpop, -, -, haborted⟩ :=
    hs.arena.follows_frame hdone.restores.arena hdone.sound.arena (exitOf (.error f : Outcome α))
  have harena : (e.inFrame work).2.arena = arena := by
    rw [inFrame_eq heq hpop]
    split <;> rfl
  rw [harena]
  exact haborted rfl

/-- A frame whose work answers has ended normally. Only the mark of the engine makes it fail. -/
theorem inFrame_overruled {work : Engine → (Outcome α × β) × Engine}
    {P : β → List (ExecutionId × Execution) → Nat → Prop} {a : α} {f : Failure} (hs : e.Sound stack)
    (hdone : e.entered.Worked (e.arena.pushFrame.1 :: stack) P (work e.entered))
    (hanswers : (work e.entered).1.1 = .ok a) (hfails : (e.inFrame work).1.1 = .error f) :
    (work e.entered).2.poisoned = true ∧ f = unusable ∧
      (e.inFrame work).2.poisoned = true := by
  have hp : (work e.entered).2.poisoned = true := by
    by_contra hp
    obtain ⟨arena, heq⟩ := inFrame_usable hs hdone (Bool.eq_false_iff.mpr hp)
    rw [heq, hanswers] at hfails
    cases hfails
  refine ⟨hp, ?_⟩
  generalize hwork : work e.entered = done at hdone hanswers hp
  obtain ⟨⟨result, state⟩, e'⟩ := done
  obtain rfl : result = .ok a := hanswers
  obtain ⟨arena, hpop, -⟩ :=
    hs.arena.follows_frame hdone.restores.arena hdone.sound.arena (exitOf (.ok a : Outcome α))
  have heq := inFrame_eq hwork hpop
  rw [if_pos hp] at heq
  rw [heq] at hfails ⊢
  cases hfails
  exact ⟨rfl, hp⟩

end Engine

/-- To look up an enclosed routine touches nothing, whether it is compiled or not. -/
theorem Serving.routineFor_untouched {kind : CallKind} {id : TypeId}
    (hd : ∀ d, e.host.lookupRoutine id = some d → d.Enclosed) :
    e.Untouched (routineFor kind id e).2 := by
  have hlookup := lookup_untouched hd
  unfold routineFor
  rw [run_bind]
  cases hp : e.poisoned with
  | true =>
    rw [checkUsable_poisoned hp]
    exact .refl e
  | false =>
    rw [checkUsable_usable hp]
    dsimp only
    rw [run_bind]
    generalize lookup compile id e = done at hlookup ⊢
    obtain ⟨f | r, e'⟩ := done
    · exact hlookup
    · dsimp only
      rw [run_bind]
      cases r.accepts kind <;> exact hlookup

namespace Invocation

/-- The engine in which the routine is looked up. -/
def found (c : Invocation α β) (e : Engine) : Engine :=
  (Serving.routineFor c.kind c.routine e).2

/-- The work of a call answers, but a rollback has failed by then. -/
def Overruled (c : Invocation α β) (e : Engine) : Prop :=
  ∃ r a, (Serving.routineFor c.kind c.routine e).1 = .ok r ∧
    (c.work r (c.found e).entered).1.1 = .ok a ∧
    (c.work r (c.found e).entered).2.poisoned = true

theorem work_worked (c : Invocation α β) {r : CompiledRoutine} (hs : e.Sound stack)
    (hr : Serving.Callable e r) : e.Worked stack (fun _ _ _ => True) (c.work r e) := by
  cases c with
  | value id args =>
    exact (Engine.worked_plainWork (Serving.keeps_callForValue hr args) hs ⟨rfl, rfl⟩).mono
      fun _ => trivial
  | row id slot args => exact (Engine.request_worked hs args slot hr).mono fun _ => trivial
  | trigger id t =>
    exact (Engine.worked_plainWork (Serving.keeps_callTrigger t hr) hs ⟨rfl, rfl⟩).mono
      fun _ => trivial

/-- What a call does once its routine is looked up. If it fails, its layouts are released, unless
only the mark of the engine makes it fail. -/
theorem released_of_found (hs : e.Sound stack) (c : Invocation α β) {f : Failure}
    (hfails : (c.run e).1.1 = .error f) :
    (c.found e).Released (c.run e).2 ∨ c.Overruled e ∧ f = Engine.unusable ∧
      e.poisoned = false ∧ (c.run e).2.poisoned = true := by
  have hroutine := (Serving.keeps_routineFor c.kind c.routine).spec hs
  have husable (r : CompiledRoutine) (hr : (Serving.routineFor c.kind c.routine e).1 = .ok r) :
      e.poisoned = false := by
    cases hp : e.poisoned with
    | false => rfl
    | true =>
      unfold Serving.routineFor at hr
      rw [run_bind, Serving.checkUsable_poisoned hp] at hr
      cases hr
  unfold Overruled found
  unfold run Engine.invoke at hfails ⊢
  generalize Serving.routineFor c.kind c.routine e = routine at *
  obtain ⟨f' | r, e₁⟩ := routine
  · exact .inl (hroutine.1.released hroutine.1 fun _ => rfl)
  · obtain ⟨hs₁, -, hr⟩ := hroutine
    dsimp only at *
    have hdone := c.work_worked hs₁.entered (r := r) hr
    cases hresult : (c.work r e₁.entered).1.1 with
    | error f' => exact .inl (Engine.inFrame_released hs₁ hdone hresult)
    | ok a =>
      obtain ⟨hp, rfl, hpoisoned⟩ := Engine.inFrame_overruled hs₁ hdone hresult hfails
      exact .inr ⟨⟨r, a, rfl, hresult, hp⟩, rfl, husable r rfl, hpoisoned⟩

/-- A call that fails has released what it has allocated. Two things are out of its reach: what the
source of the routine does beside the function when it is compiled, and a script that returns after
a rollback has failed. -/
theorem run_released (he : e.Reachable) (c : Invocation α β) {f : Failure}
    (hfails : (c.run e).1.1 = .error f) :
    (c.found e).Released (c.run e).2 ∧
        ((∀ d, e.host.lookupRoutine c.routine = some d → d.Enclosed) →
          e.Released (c.run e).2) ∨
      c.Overruled e ∧ f = Engine.unusable ∧ e.host.RollbackFailed (c.run e).2.host := by
  have hdone := run_worked he.sound c
  rcases released_of_found he.sound c hfails with hreleased | ⟨hoverruled, hf, husable, hp⟩
  · refine .inl ⟨hreleased, fun henclosed => ?_⟩
    have harena : (c.found e).arena = e.arena := by
      obtain ⟨_, _, _, _, _, heq⟩ : e.Untouched (Serving.routineFor c.kind c.routine e).2 :=
        Serving.routineFor_untouched henclosed
      unfold found
      rw [heq]
    exact he.sound.released hdone.sound fun id => by rw [hreleased.layouts, harena]
  · exact .inr ⟨hoverruled, hf, (hdone.restores.faulted husable).mp hp⟩

/-- A trigger function that fails. -/
def addingNil : RoutineDefinition :=
  { id := 0, name := "f", source := "local sum = nil + 1", argNames := [], argTypes := [],
    resultType := TypeId.trigger, returnsSet := false, stamp := .ofTransaction 0 }

/-- A new engine whose host has the function. -/
def addingEngine : Engine :=
  { Engine.bare {} Host.new with host := (Host.new.createRoutine addingNil).2 }

/-- A row is inserted, for which a tuple is made before the function starts. -/
def rowInserted : Invocation (Option RowValue) Unit :=
  let layout : RowLayout := ⟨5, [⟨"id", Scalar.int4.id, -1⟩]⟩
  .trigger Host.firstId { name := "check", time := .before, level := .row, operation := .insert,
                          relation := ⟨5, "items", layout⟩, row := some ⟨layout, [none]⟩ }

theorem run_released_adding : (rowInserted.run addingEngine).1.1.isOk = false ∧
    (rowInserted.run addingEngine).2.tuples.size = 1 ∧
    addingEngine.Released (rowInserted.run addingEngine).2 := by
  have hstart : Engine.start {} Host.new = (.ok (Engine.bare {} Host.new), Host.new) := rfl
  have hnew : (Engine.bare {} Host.new).Reachable := .start ⟨rfl, rfl⟩ hstart
  have he : addingEngine.Reachable := hnew.host ⟨rfl, rfl⟩
  have hfails : (rowInserted.run addingEngine).1.1.isOk = false := by decide +kernel
  refine ⟨hfails, by decide +kernel, ?_⟩
  cases hanswer : (rowInserted.run addingEngine).1.1 with
  | ok row =>
    rw [hanswer] at hfails
    cases hfails
  | error f =>
    rcases run_released he rowInserted hanswer with ⟨-, hreleased⟩ | ⟨-, -, hfailed⟩
    · refine hreleased fun d hd => ?_
      have hfound : addingEngine.host.lookupRoutine Host.firstId = some { addingNil with
        id := Host.firstId, stamp := Host.new.nextStamp.1 } := rfl
      cases hfound.symm.trans hd
      decide +kernel
    · -- the host was not told to fail a rollback
      cases hfailed.1

end Invocation

end StoredRoutine
