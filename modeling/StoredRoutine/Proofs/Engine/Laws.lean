import StoredRoutine.Proofs.Engine.Requests
import StoredRoutine.Proofs.Engine.Start
import StoredRoutine.Proofs.Engine.Triggers

/-!
# `StoredRoutine.Proofs.Engine.Laws`: relations that calls keep to

`Engine.Moves` says what calls do to objects, and `Serving.Aside` which computations leave scripts
alone. This module is for all other relations between an engine and what becomes of it. Some things
happen in every call and are of no interest to a relation: the machine takes a step, the host does
something, a frame starts or ends. A relation that allows all that happens beside objects, cleanups,
executions and the tables of relations, and that goes on from one moment to the next, is
`Engine.Indifferent`.

Only two kinds of services call functions of scripts. So an indifferent relation covers every
service if it covers the others, whatever the functions do as long as they keep to the relation
(`Engine.serve_of_plain`).

A relation that covers services, values that are handed to scripts, and the start and the end of
executions is an `Engine.Law`. Runs keep to it (`Engine.Law.run`), and so does everything that is
put together from runs, up to whole calls (`Serving.KeepsTo`, `Engine.Law.invoke`).
-/

set_option autoImplicit false

namespace StoredRoutine

open Script (Announcer Control Ending ObjectKind Service TableId ThreadId Value)

/-- Whether a service may call functions of the script. -/
def Script.Service.callsBack : Service → Bool
  | .announce _ => true
  | .protectedCall _ => true
  | _ => false

namespace Engine

/-- Nothing has happened to objects, cleanups, executions and the tables of relations. -/
structure Elsewhere (e e' : Engine) : Prop where
  objects : e'.objects = e.objects
  cleanups : e'.cleanups = e.cleanups
  executions : e'.executions = e.executions
  started : e'.started = e.started
  relations : e'.relations = e.relations

/-- A relation that does not mind what happens elsewhere. -/
class Indifferent (R : Engine → Engine → Prop) : Prop where
  elsewhere : ∀ {e e'}, e.Elsewhere e' → R e e'
  trans : ∀ {e e' e''}, R e e' → R e' e'' → R e e''

/-- A relation that holds of all that calls do. -/
class Law (R : Engine → Engine → Prop) : Prop extends Indifferent R where
  /-- The functions that a service calls keep to the relation, too. -/
  serve : ∀ {call : Caller}, (∀ f args e, R e (call f args e).2) →
    ∀ (s : Service) (args : List Value) (e : Engine), R e (Serving.serve call s args e).2
  value : ∀ (v : ScriptValue) (e : Engine), R e (Serving.toValue v e).2
  opened : ∀ e, R e e.opened.2
  ended : ∀ (id : ExecutionId) (e : Engine), R e (e.endExecution id)

theorem Elsewhere.refl (e : Engine) : e.Elsewhere e := ⟨rfl, rfl, rfl, rfl, rfl⟩

variable {R : Engine → Engine → Prop}

theorem Indifferent.refl [Indifferent R] (e : Engine) : R e e := elsewhere (.refl e)

end Engine

/-! ### Parts of computations -/

namespace Serving

variable {α β : Type} {R : Engine → Engine → Prop}

/-- A computation keeps to a relation. -/
class KeepsTo (R : Engine → Engine → Prop) (x : Serving α) : Prop where
  kept : ∀ e : Engine, R e (x e).2

section Parts

variable [hR : Engine.Indifferent R]

/-- A computation that does nothing but what no indifferent relation minds. -/
theorem keepsTo_of_elsewhere {x : Serving α} (hx : ∀ e : Engine, e.Elsewhere (x e).2) :
    KeepsTo R x :=
  ⟨fun e => hR.elsewhere (hx e)⟩

instance (a : α) : KeepsTo R (pure a : Serving α) := keepsTo_of_elsewhere Engine.Elsewhere.refl

instance (f : Failure) : KeepsTo R (throw f : Serving α) :=
  keepsTo_of_elsewhere Engine.Elsewhere.refl

theorem KeepsTo.bind {x : Serving α} {k : α → Serving β} [hx : KeepsTo R x]
    (hk : ∀ a, KeepsTo R (k a)) : KeepsTo R (x >>= k) where
  kept e := by
    have hfirst := hx.kept e
    rw [run_bind]
    generalize x e = done at hfirst ⊢
    obtain ⟨r, e'⟩ := done
    cases r with
    | ok a => exact hR.trans hfirst ((hk a).kept e')
    | error f => exact hfirst

instance {x : Serving α} {k : α → Serving β} [KeepsTo R x] [hk : ∀ a, KeepsTo R (k a)] :
    KeepsTo R (x >>= k) := KeepsTo.bind hk

/-- After a failure nothing happens. -/
instance (f : Failure) (k : α → Serving β) : KeepsTo R (throw f >>= k) :=
  keepsTo_of_elsewhere Engine.Elsewhere.refl

instance {x y : Serving α} {c : Prop} [Decidable c] [hx : KeepsTo R x] [hy : KeepsTo R y] :
    KeepsTo R (if c then x else y) := by
  split
  · exact hx
  · exact hy

instance : KeepsTo R (get : Serving Engine) := keepsTo_of_elsewhere Engine.Elsewhere.refl

instance (f : Host → Outcome α × Host) : KeepsTo R (onHost f) :=
  keepsTo_of_elsewhere fun _ => ⟨rfl, rfl, rfl, rfl, rfl⟩

instance (f : Border → Resolving α) : KeepsTo R (converting f) :=
  keepsTo_of_elsewhere fun _ => ⟨rfl, rfl, rfl, rfl, rfl⟩

instance (o : Outcome α) : KeepsTo R (ofOutcome o) :=
  keepsTo_of_elsewhere fun e => by cases o <;> exact Engine.Elsewhere.refl e

instance {x : Serving α} [hx : KeepsTo R x] : KeepsTo R (attempt x) := ⟨hx.kept⟩

instance {x : Serving α} {handler : Failure → Serving α} [hx : KeepsTo R x]
    [hh : ∀ f, KeepsTo R (handler f)] : KeepsTo R (tryCatch x handler : Serving α) where
  kept e := by
    have hfirst := hx.kept e
    rw [run_tryCatch]
    generalize x e = done at hfirst ⊢
    obtain ⟨r, e'⟩ := done
    cases r with
    | ok a => exact hfirst
    | error f => exact hR.trans hfirst ((hh f).kept e')

theorem KeepsTo.mapM {f : α → Serving β} (l : List α) (hf : ∀ a, KeepsTo R (f a)) :
    KeepsTo R (l.mapM f) := by
  induction l with
  | nil => exact inferInstanceAs (KeepsTo R (pure []))
  | cons a rest ih =>
    rw [List.mapM_cons]
    infer_instance

instance {f : α → Serving β} (l : List α) [hf : ∀ a, KeepsTo R (f a)] : KeepsTo R (l.mapM f) :=
  KeepsTo.mapM l hf

instance {f : α → Serving Unit} (l : List α) [hf : ∀ a, KeepsTo R (f a)] :
    KeepsTo R (l.forM f) := by
  induction l with
  | nil => exact inferInstanceAs (KeepsTo R (pure ()))
  | cons a rest ih => exact inferInstanceAs (KeepsTo R (f a >>= fun _ => rest.forM f))

instance : KeepsTo R pushFrame := keepsTo_of_elsewhere fun _ => ⟨rfl, rfl, rfl, rfl, rfl⟩

theorem elsewhere_popFrame (e : Engine) (frame : FrameId) (exit : FrameExit) :
    e.Elsewhere (e.popFrame frame exit).2 := by
  unfold Engine.popFrame
  split
  · exact ⟨rfl, rfl, rfl, rfl, rfl⟩
  · exact Engine.Elsewhere.refl e

instance (frame : FrameId) (exit : FrameExit) : KeepsTo R (popFrame frame exit) :=
  keepsTo_of_elsewhere fun e => elsewhere_popFrame e frame exit

instance (r : Report) : KeepsTo R (reportTable r) :=
  keepsTo_of_elsewhere fun _ => ⟨rfl, rfl, rfl, rfl, rfl⟩

instance (raised : Value) : KeepsTo R (caught raised) := by
  unfold caught
  split
  · infer_instance
  · infer_instance

instance (name source : String) : KeepsTo R (load name source) := by
  unfold load
  dsimp only
  split
  · infer_instance
  · split
    · infer_instance
    · exact keepsTo_of_elsewhere fun _ => ⟨rfl, rfl, rfl, rfl, rfl⟩

instance (d : RoutineDefinition) : KeepsTo R (checkDefinition d) := by
  unfold checkDefinition
  infer_instance

instance : KeepsTo R checkUsable := by
  unfold checkUsable
  infer_instance

instance (v : Value) : KeepsTo R (ofValue v) := by
  unfold ofValue
  infer_instance

instance (v : Value) (id : TypeId) (typeMod : Int32) : KeepsTo R (toDatum v id typeMod) := by
  unfold toDatum
  infer_instance

instance (v : Value) (layout : RowLayout) : KeepsTo R (toRow v layout) := by
  unfold toRow
  infer_instance

instance (t : TriggerEvent) (table : TableId) (start : Option TupleId) :
    KeepsTo R (rowLeft t table start) := by
  unfold rowLeft
  split
  · infer_instance
  · refine .bind fun e => ?_
    dsimp only
    split
    · infer_instance
    · infer_instance
    · split
      · split
        · infer_instance
        · infer_instance
      · infer_instance
    · infer_instance

end Parts

end Serving

/-! ### Functions that services call -/

/-- Whatever function a caller runs, it keeps to a relation. -/
class Caller.KeepsTo (R : Engine → Engine → Prop) (call : Caller) : Prop where
  kept : ∀ (f : Value) (args : List Value) (e : Engine), R e (call f args e).2

namespace Serving

variable {α β : Type} {R : Engine → Engine → Prop} [hR : Engine.Indifferent R] {call : Caller}
  [hcall : call.KeepsTo R]

instance (f : Value) (args : List Value) : KeepsTo R (runFunction call f args) where
  kept e := by
    have hrun := hcall.kept f args e
    unfold runFunction
    generalize call f args e = done at hrun ⊢
    obtain ⟨ending, e'⟩ := done
    cases ending <;> exact hrun

instance (left : Nat) (raised : Value) : KeepsTo R (raisedFailure call left raised) := by
  induction left generalizing raised with
  | zero =>
    unfold raisedFailure
    split
    · infer_instance
    · infer_instance
    next heq _ => cases heq
  | succ left ih =>
    unfold raisedFailure
    split
    · infer_instance
    next heq _ => cases heq
    next heq _ =>
      cases heq
      -- the text of what was raised may raise something itself
      refine .bind fun returned => ?_
      cases returned with
      | ok results => exact inferInstanceAs (KeepsTo R (pure _))
      | error other => exact ih other

instance (f : Value) (args : List Value) : KeepsTo R (runUnprotected call f args) := by
  unfold runUnprotected
  refine .bind fun returned => ?_
  cases returned with
  | ok results => exact inferInstanceAs (KeepsTo R (pure results))
  | error raised =>
    exact inferInstanceAs (KeepsTo R (raisedFailure call maxRaised raised >>= fun f => throw f))

instance (f : Value) (args : List Value) : KeepsTo R (runProtected call f args) := by
  unfold runProtected
  refine .bind fun outcome => ?_
  split
  · infer_instance
  · infer_instance

instance (a : Announcer) (args : List Value) : KeepsTo R (announce call a args) := by
  unfold announce
  refine .bind fun e => ?_
  dsimp only
  split
  · infer_instance
  · exact .bind fun parts => keepsTo_of_elsewhere fun _ => ⟨rfl, rfl, rfl, rfl, rfl⟩

instance (frame : FrameId) (savepoint : Nat) (results : List Value) :
    KeepsTo R (keepWork frame savepoint results) := by
  unfold keepWork
  infer_instance

instance (frame : FrameId) (savepoint : Nat) (raised : Value) :
    KeepsTo R (undoWork frame savepoint raised) := by
  unfold undoWork
  refine .bind fun e => ?_
  dsimp only
  split
  · infer_instance
  · refine .bind fun outcome => ?_
    split
    · refine @KeepsTo.bind _ _ R _ _ _
        (keepsTo_of_elsewhere fun _ => ⟨rfl, rfl, rfl, rfl, rfl⟩) fun _ => ?_
      infer_instance
    · infer_instance

instance (f : Value) (args : List Value) : KeepsTo R (underSavepoint call f args) := by
  unfold underSavepoint
  refine .bind fun frame => .bind fun begun => ?_
  split
  · infer_instance
  · refine .bind fun returned => ?_
    split
    · infer_instance
    · infer_instance

instance (args : List Value) : KeepsTo R (protectedCall call args) := by
  unfold protectedCall
  split
  · infer_instance
  · dsimp only
    split
    · infer_instance
    · refine .bind fun e => ?_
      split
      · infer_instance
      · infer_instance

omit hcall in
/-- A service that calls no functions does not ask who would run them. -/
theorem serve_eq_of_plain (call' : Caller) {s : Service} (hs : s.callsBack = false)
    (args : List Value) : serve call s args = serve call' s args := by
  cases s with
  | announce a => cases hs
  | protectedCall a => cases hs
  | _ => rfl

end Serving

namespace Engine

open Serving (KeepsTo)

variable {α β : Type} {R : Engine → Engine → Prop} {e e' : Engine}

/-- An indifferent relation covers all services if it covers those that call no functions. -/
theorem serve_of_plain [Indifferent R]
    (hplain : ∀ s args, s.callsBack = false → KeepsTo R (Serving.serve callFunction s args))
    {call : Caller} (hcall : ∀ f args e, R e (call f args e).2) (s : Service) (args : List Value)
    (e : Engine) : R e (Serving.serve call s args e).2 := by
  have : call.KeepsTo R := ⟨hcall⟩
  cases hs : s.callsBack with
  | false =>
    rw [Serving.serve_eq_of_plain callFunction hs]
    exact (hplain s args hs).kept e
  | true =>
    have hserved : KeepsTo R (Serving.serve call s args) := by
      unfold Serving.serve
      cases s with
      | announce a => exact inferInstanceAs (KeepsTo R (Serving.announce call a args >>= _))
      | protectedCall a => exact inferInstanceAs (KeepsTo R (Serving.protectedCall call args))
      | _ => cases hs
    exact hserved.kept e

/-! ### Runs -/

/-- Runs keep to a law. -/
theorem Law.run [hR : Law R] (fuel : Nat) (c : Control) (e : Engine) :
    R e (run fuel c e).2 := by
  -- on the turns; the steps of the machine are of no interest, and each turn may end with a service
  induction fuel generalizing c e with
  | zero => exact Indifferent.refl e
  | succ fuel ih =>
    unfold Engine.run
    simp only
    generalize Script.Machine.advance stepsAtOnce _ _ c = turn
    obtain ⟨left, step⟩ := turn
    have hcounted (heap : Script.Heap) : R e ({ e with heap }.countTurn left) :=
      hR.elsewhere ⟨rfl, rfl, rfl, rfl, rfl⟩
    cases step with
    | next heap c' =>
      simp only
      split
      · have hlooked : R e (({ e with heap }.countTurn left).look c').2 :=
          hR.elsewhere ⟨rfl, rfl, rfl, rfl, rfl⟩
        exact hR.trans hlooked (ih _ _)
      · exact hR.trans (hcounted heap) (ih _ _)
    | ended ending heap => exact hcounted heap
    | request s args position heap c' =>
      -- the functions that the service calls have fewer turns
      let call : Caller := fun f args e => Engine.run fuel (nestedControl c' position f args) e
      have hcall (f : Value) (args : List Value) (e : Engine) : R e (call f args e).2 := ih _ e
      have hserved := hR.serve hcall s args ({ e with heap }.countTurn left)
      simp only
      generalize Serving.serve _ s args _ = served at hserved ⊢
      obtain ⟨r, e'⟩ := served
      have hturn := hR.trans (hcounted heap) hserved
      cases r with
      | ok values => exact hR.trans hturn (ih _ _)
      | error f => exact hR.trans hturn (ih _ _)

instance [Law R] : callFunction.KeepsTo R := ⟨fun _ _ e => Law.run _ _ e⟩

end Engine

/-! ### What calls are made of -/

namespace Serving

variable {R : Engine → Engine → Prop} [hR : Engine.Law R]

instance (v : ScriptValue) : KeepsTo R (toValue v) := ⟨hR.value v⟩

instance (d : Option Datum) (id : TypeId) : KeepsTo R (ofDatum d id) := by
  unfold ofDatum
  infer_instance

instance (d : RoutineDefinition) : KeepsTo R (compile d) := by
  unfold compile
  refine .bind fun e => .bind fun results => ?_
  split
  · infer_instance
  · split
    · infer_instance
    · infer_instance

instance (id : TypeId) : KeepsTo R (lookup compile id) := by
  unfold lookup
  refine .bind fun e => ?_
  split
  · infer_instance
  · split
    · infer_instance
    · refine .bind fun _ => .bind fun _ => @KeepsTo.bind _ _ R _ _ _ ?_ inferInstance
      exact keepsTo_of_elsewhere fun _ => ⟨rfl, rfl, rfl, rfl, rfl⟩

instance (kind : CallKind) (id : TypeId) : KeepsTo R (routineFor kind id) := by
  unfold routineFor
  infer_instance

instance (r : CompiledRoutine) (args : Row) : KeepsTo R (arguments r args) := by
  unfold arguments
  infer_instance

instance (f : Value) (args : List Value) : KeepsTo R (runRaising f args) := by
  unfold runRaising
  refine .bind fun returned => ?_
  split
  · infer_instance
  · infer_instance

instance (r : CompiledRoutine) (args : Row) : KeepsTo R (callForValue r args) := by
  unfold callForValue resultDatum
  infer_instance

instance (t : TriggerEvent) [KeepsTo R (publishEvent t)] (r : CompiledRoutine) :
    KeepsTo R (runTrigger t r) := by
  unfold runTrigger
  exact .bind fun (table, start) => .bind fun _ => inferInstance

instance (t : TriggerEvent) [KeepsTo R (publishEvent t)] (r : CompiledRoutine) :
    KeepsTo R (callTrigger t r) := by
  unfold callTrigger
  refine .bind fun result => @KeepsTo.bind _ _ R _ _ _ ?_ inferInstance
  exact keepsTo_of_elsewhere fun _ => ⟨rfl, rfl, rfl, rfl, rfl⟩

instance (m : InitModule) : KeepsTo R (loadModule m) := by
  unfold loadModule
  refine .bind fun loaded => ?_
  split
  · infer_instance
  · infer_instance

instance (m : InitModule) : KeepsTo R (evaluateModule m) := by
  unfold evaluateModule
  refine .bind fun results => ?_
  split
  · infer_instance
  · dsimp only
    split
    · exact keepsTo_of_elsewhere fun _ => ⟨rfl, rfl, rfl, rfl, rfl⟩
    · infer_instance

end Serving

namespace Engine.Law

open Serving (KeepsTo)

variable {α β : Type} {R : Engine → Engine → Prop} [hR : Law R]

/-! ### Calls -/

/-- The frame of a call is of no interest. -/
theorem inFrame {work : Engine → (Outcome α × β) × Engine} (hwork : ∀ e, R e (work e).2)
    (e : Engine) : R e (e.inFrame work).2 := by
  obtain ⟨arena, poisoned, heq⟩ := inFrame_engine work e
  rw [heq]
  have hentered : R e e.entered := hR.elsewhere ⟨rfl, rfl, rfl, rfl, rfl⟩
  exact hR.trans (hR.trans hentered (hwork e.entered)) (hR.elsewhere ⟨rfl, rfl, rfl, rfl, rfl⟩)

/-- A call keeps to a law if its work does. -/
theorem invoke (kind : CallKind) (id : TypeId) (state : β)
    {work : CompiledRoutine → Engine → (Outcome α × β) × Engine}
    (hwork : ∀ r e, R e (work r e).2) (e : Engine) : R e (e.invoke kind id state work).2 := by
  have hfound := KeepsTo.kept (R := R) (x := Serving.routineFor kind id) e
  unfold Engine.invoke
  generalize Serving.routineFor kind id e = found at hfound ⊢
  obtain ⟨f | r, e'⟩ := found
  · exact hfound
  · exact hR.trans hfound (inFrame (hwork r) e')

theorem call (id : TypeId) (args : Row) (e : Engine) : R e (e.call id args).2 :=
  invoke .function id () (fun r e => KeepsTo.kept (x := Serving.callForValue r args) e) e

theorem fire (id : TypeId) (t : TriggerEvent) [KeepsTo R (Serving.publishEvent t)] (e : Engine) :
    R e (e.fire id t).2 :=
  invoke .trigger id () (fun r e => KeepsTo.kept (x := Serving.callTrigger t r) e) e

theorem validate (id : TypeId) (e : Engine) : R e (e.validate id).2 :=
  KeepsTo.kept (R := R) (x := do
    Serving.checkUsable
    let _ ← Serving.lookup Serving.compile id) e

theorem answerRequest (r : CompiledRoutine) (id : ExecutionId) (ending : Ending) (e : Engine) :
    R e (answerRequest r id ending e).2 := by
  unfold Engine.answerRequest
  split
  · exact hR.ended id e
  · exact hR.ended id e
  · exact hR.ended id e
  next values =>
    simp only
    split
    · exact hR.ended id e
    · have hconverted := KeepsTo.kept (R := R)
        (x := Serving.toDatum (values.headD .nil) r.resultType (-1)) e
      unfold Serving.resultDatum
      generalize Serving.toDatum _ _ _ e = converted at hconverted ⊢
      obtain ⟨f | d, e'⟩ := converted
      · exact hR.trans hconverted (hR.ended id e')
      · exact hconverted

theorem resumeThread (thread : ThreadId) (values : List Value) (e : Engine) :
    R e (e.resumeThread thread values).2 := by
  have hactive : R e { e with heap := e.heap.setThread thread .active } :=
    hR.elsewhere ⟨rfl, rfl, rfl, rfl, rfl⟩
  exact hR.trans hactive (Law.run maxTurns _ _)

theorem request (args : Row) (slot : SetCall) (r : CompiledRoutine) (e : Engine) :
    R e (request args slot r e).2 := by
  have hgiven := KeepsTo.kept (R := R) (x := Serving.arguments r args) e
  refine request_induction (P := R e) (Indifferent.refl e) hgiven
    fun id ending stopped hresumes => ?_
  have hstopped : R e stopped := by
    cases hresumes with
    | first hvalues =>
      rw [hvalues] at hgiven
      exact hR.trans (hR.trans hgiven (hR.opened _)) (resumeThread _ _ _)
    | again hx hvalues =>
      rw [hvalues] at hgiven
      exact hR.trans hgiven (resumeThread _ _ _)
  exact hR.trans hstopped (answerRequest r id ending stopped)

theorem next (id : TypeId) (slot : SetCall) (args : Row) (e : Engine) :
    R e (e.next id slot args).2 :=
  invoke .setFunction id slot (fun r e => request args slot r e) e

theorem abandon (slot : SetCall) (e : Engine) : R e (e.abandon slot).2 := by
  cases slot with
  | suspended id => exact hR.ended id e
  | _ => exact Indifferent.refl e

theorem start {options : Options} {host host' : Host} {e : Engine}
    (hstart : start options host = (.ok e, host')) : R (bare options host) e := by
  have hmodules := KeepsTo.kept (R := R) (x := host.modules.forM Serving.evaluateModule)
    (bare options host)
  unfold Engine.start at hstart
  generalize host.modules.forM Serving.evaluateModule (bare options host) = done
    at hmodules hstart
  obtain ⟨f | _, e'⟩ := done
  · split at hstart <;> cases hstart
  · split at hstart
    · cases hstart
    · cases hstart
      exact hmodules

end Engine.Law

end StoredRoutine
