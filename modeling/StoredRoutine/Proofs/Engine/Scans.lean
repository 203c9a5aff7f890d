import StoredRoutine.Proofs.Engine.Invocations
import StoredRoutine.Proofs.Engine.Private
import StoredRoutine.Proofs.Engine.Resumptions
import StoredRoutine.Proofs.Engine.Validation

/-!
# `StoredRoutine.Proofs.Engine.Scans`: what one scan goes through

`Scripts` are routines that share nothing: each coroutine is a state of its own, and a function from
this state and the arguments of a request to the way in which the coroutine stops next. A `Scan` is
what a host has of one call of such a routine, without the tables of the engine: the coroutine
itself takes the place of the execution that names it. `Scripts.ask` says what a request answers
then, and what becomes of the scan.

An engine answers requests with what it has in store: descriptors and compiled routines. Which of
them it has depends on what was asked before, but what it answers does not. So `Scripts.Alike`
relates engines in which all scans go the same way, whatever has happened in between
(`Scripts.Alike.ask`, `Scripts.alike_lookup`).
-/

set_option autoImplicit false

namespace StoredRoutine

open Script (ThreadId Value)

/-! ### Scripts that share nothing -/

/-- A coroutine does not fail fatally: this is left to rollbacks. -/
def Stop.Catchable : Stop → Prop
  | .row v => v.Catchable
  | .ended => True
  | .raised f => f.isFatal = false

/-- Routines whose coroutines share nothing. `σ` are the states of coroutines. -/
structure Scripts (σ : Type) where
  /-- The function of a chunk, by its name and its source. -/
  compiler : String → String → Outcome Value
  /-- The coroutine of a new call. -/
  start : CompiledRoutine → σ
  /-- Goes on with a coroutine, with the arguments of a request. -/
  resume : σ → Row → Stop × σ
  isFunction : ∀ name source f, compiler name source = .ok f → f.isFunction = true
  compilable : ∀ name source, (compiler name source).Catchable
  catchable : ∀ c args, (resume c args).1.Catchable

/-- A call of a set-returning routine. -/
inductive Scan (σ : Type) where
  | ready
  /-- The coroutine waits after a row. -/
  | waiting (c : σ)
  | done
  | failed

/-- The scan after it was abandoned. -/
def Scan.abandoned {σ : Type} : Scan σ → Scan σ
  | .ready => .done
  | .waiting _ => .done
  | .done => .done
  | .failed => .failed

/-- What comes of the way in which a coroutine stops. -/
def Scan.answer {σ : Type} (e : Engine) (r : CompiledRoutine) (stopped : Stop × σ) :
    Outcome SetAnswer × Scan σ :=
  match stopped.1 with
  | .raised f => (.error f, .failed)
  | .ended => (.ok .endOfSet, .done)
  | .row v =>
    match (Serving.rowOf r v e).1 with
    | .ok d => (.ok (.row d), .waiting stopped.2)
    | .error f => (.error f, .failed)

namespace Scripts

variable {σ : Type} (s : Scripts σ)

/-- Runs coroutines. The states of all of them are kept by their names. -/
def resumer : Resumer (ThreadId → σ) where
  start r args _ thread e w :=
    let stopped := s.resume (s.start r) args
    (stopped.1, e, Function.update w thread stopped.2)
  resume args _ thread e w :=
    let stopped := s.resume (w thread) args
    (stopped.1, e, Function.update w thread stopped.2)

/-- Looks a routine up. -/
def look (id : TypeId) : Serving CompiledRoutine := fun e => e.lookup s.compiler id

/-- A request for a row. The engine converts arguments and rows, and does nothing else. -/
def askRow (e : Engine) (r : CompiledRoutine) (args : Row) (k : Scan σ) :
    Outcome SetAnswer × Scan σ :=
  let resumed (c : σ) : Outcome SetAnswer × Scan σ :=
    match (Serving.arguments r args e).1 with
    | .error f => (.error f, k)
    | .ok _ => Scan.answer e r (s.resume c args)
  match k with
  | .ready => resumed (s.start r)
  | .waiting c => resumed c
  | .done => (.error Engine.alreadyFinished, k)
  | .failed => (.error Engine.alreadyFinished, k)

/-- A request for a row of a routine, which has to be found first. -/
def ask (e : Engine) (id : TypeId) (args : Row) (k : Scan σ) : Outcome SetAnswer × Scan σ :=
  match (Serving.routineBy s.look .setFunction id e).1 with
  | .error f => (.error f, k)
  | .ok r => s.askRow e r args k

end Scripts

/-! ### Engines that are alike -/

namespace Engine

variable {compiler : String → String → Outcome Value} {e e' e'' : Engine} {id : TypeId}

/-- A lookup answers the same if the same routine is kept. -/
theorem Agrees.lookup (h : e.Agrees e')
    (hroutines : ∀ stamp, e'.routines.current? id stamp = e.routines.current? id stamp) :
    (e'.lookup compiler id).1 = (e.lookup compiler id).1 := by
  unfold Engine.lookup Serving.lookup
  rw [run_get_bind, run_get_bind, h.host, h.options]
  cases e.host.lookupRoutine id with
  | none => rfl
  | some d =>
    dsimp only
    rw [hroutines]
    cases e.routines.current? id d.stamp with
    | some r => rfl
    | none =>
      have hchecked := (inferInstance : Serving.Plain (Serving.checkDefinition d)).same e e' h
      dsimp only
      rw [run_bind, run_bind]
      generalize Serving.checkDefinition d e = done at hchecked ⊢
      generalize Serving.checkDefinition d e' = done' at hchecked ⊢
      obtain ⟨r, e₁⟩ := done
      obtain ⟨r', e₁'⟩ := done'
      obtain rfl : r' = r := hchecked
      cases r' with
      | error f => rfl
      | ok _ =>
        dsimp only
        rw [run_bind, run_bind]
        cases compiler e.options.chunkName d.chunk <;> rfl

/-- A lookup keeps descriptors as the catalog answers them. -/
theorem types_lookup (compiler : String → String → Outcome Value) (e : Engine) (id : TypeId) :
    e.types.Alike e.host.catalog (e.lookup compiler id).2.types := by
  unfold Engine.lookup Serving.lookup
  rw [run_get_bind]
  cases e.host.lookupRoutine id with
  | none => exact .refl _ _
  | some d =>
    dsimp only
    cases e.routines.current? id d.stamp with
    | some r => exact .refl _ _
    | none =>
      have hchecked := (inferInstance : Serving.Private (Serving.checkDefinition d)).change e
      dsimp only
      rw [run_bind]
      generalize Serving.checkDefinition d e = done at hchecked ⊢
      obtain ⟨f | _, e₁⟩ := done
      · exact hchecked.types
      · dsimp only
        rw [run_bind]
        cases compiler e.options.chunkName d.chunk <;> exact hchecked.types

/-- A routine that is kept and current is what a lookup answers. -/
theorem lookup_of_hit? {r : CompiledRoutine} (hhit : e.hit? id = some r) :
    (e.lookup compiler id).1 = .ok r := by
  have hlooked := looked_lookup compiler e id
  generalize e.lookup compiler id = done at hlooked ⊢
  cases hlooked with
  | hit r' hhit' => rw [Option.some.inj (hhit'.symm.trans hhit)]
  | failed f types hmiss => cases hmiss.symm.trans hhit
  | compiled d f types hmiss => cases hmiss.symm.trans hhit

end Engine

/-- Two engines answer requests alike: conversions and lookups have the same outcomes. What an
engine has found out before makes no difference to this. -/
structure Scripts.Alike {σ : Type} (s : Scripts σ) (e e' : Engine) : Prop extends
    Engine.Agrees e e' where
  poisoned : e'.poisoned = e.poisoned
  lookups : ∀ id, (e'.lookup s.compiler id).1 = (e.lookup s.compiler id).1

namespace Scripts

variable {σ : Type} {s : Scripts σ} {e e' e'' : Engine} {id : TypeId}

theorem Alike.refl (s : Scripts σ) (e : Engine) : s.Alike e e := ⟨.refl e, rfl, fun _ => rfl⟩

theorem Alike.trans (h : s.Alike e e') (h' : s.Alike e' e'') : s.Alike e e'' where
  toAgrees := h.toAgrees.trans h'.toAgrees
  poisoned := h'.poisoned.trans h.poisoned
  lookups id := (h'.lookups id).trans (h.lookups id)

/-- Engines that keep the same routines. -/
theorem Alike.ofAgrees (h : e.Agrees e') (hpoisoned : e'.poisoned = e.poisoned)
    (hroutines : e'.routines = e.routines) : s.Alike e e' :=
  ⟨h, hpoisoned, fun _ => h.lookup fun _ => by rw [hroutines]⟩

theorem Alike.ofPrivate (h : e.Private e') : s.Alike e e' :=
  .ofAgrees h.toAgrees h.poisoned h.routines

/-- The engine has done nothing that a scan could notice. -/
structure Quiet (s : Scripts σ) (e e' : Engine) : Prop extends s.Alike e e' where
  executions : e'.executions = e.executions
  started : e'.started = e.started
  threads : e'.heap.threads = e.heap.threads

theorem Quiet.refl (s : Scripts σ) (e : Engine) : s.Quiet e e := ⟨.refl s e, rfl, rfl, rfl⟩

theorem Quiet.ofPrivate (h : e.Private e') : s.Quiet e e' :=
  ⟨.ofPrivate h, h.executions, h.started, h.threads⟩

theorem Quiet.execution? (h : s.Quiet e e') (x : ExecutionId) :
    e'.execution? x = e.execution? x := by
  unfold Engine.execution?
  rw [h.executions]

/-- A lookup makes no difference to later ones. -/
theorem alike_lookup (s : Scripts σ) (e : Engine) (id : TypeId) :
    s.Alike e (e.lookup s.compiler id).2 := by
  have htypes := Engine.types_lookup s.compiler e id
  have hlooked := Engine.looked_lookup s.compiler e id
  generalize hdone : e.lookup s.compiler id = done at hlooked htypes ⊢
  cases hlooked with
  | hit r hhit => exact .refl s e
  | failed f types hmiss => exact .ofPrivate (.ofTypes htypes)
  | compiled d f types hmiss hd hf =>
    refine ⟨⟨rfl, rfl, htypes⟩, rfl, fun i => ?_⟩
    by_cases hi : i = id
    · -- the routine is kept now, and its stamp is that of the definition
      subst hi
      rw [hdone]
      refine Engine.lookup_of_hit? ?_
      have hcurrent : (e.routines.enter i (.ofDefinition d f)).current? i d.stamp =
          some (.ofDefinition d f) := by
        rw [RoutineCache.current?_eq_some, RoutineCache.find?_enter, if_pos rfl]
        exact ⟨rfl, rfl⟩
      unfold Engine.hit?
      rw [show ({ e with types, routines := _ } : Engine).host = e.host from rfl, hd]
      exact hcurrent
    · refine Engine.Agrees.lookup ⟨rfl, rfl, htypes⟩ fun stamp => ?_
      show (e.routines.enter id _).current? i stamp = _
      unfold RoutineCache.current?
      rw [RoutineCache.find?_enter, if_neg hi]

theorem quiet_lookup (s : Scripts σ) (e : Engine) (id : TypeId) :
    s.Quiet e (e.lookup s.compiler id).2 := by
  have halike := s.alike_lookup e id
  have hlooked := Engine.looked_lookup s.compiler e id
  generalize e.lookup s.compiler id = done at halike hlooked ⊢
  cases hlooked <;> exact ⟨halike, rfl, rfl, rfl⟩

/-- A routine is found, or not, in engines that are alike. -/
theorem Alike.routineBy (h : s.Alike e e') (kind : CallKind) (id : TypeId) :
    (Serving.routineBy s.look kind id e').1 = (Serving.routineBy s.look kind id e).1 := by
  unfold Serving.routineBy
  rw [run_bind, run_bind]
  cases hp : e.poisoned with
  | true =>
    rw [Serving.checkUsable_poisoned hp, Serving.checkUsable_poisoned (h.poisoned.trans hp)]
  | false =>
    rw [Serving.checkUsable_usable hp, Serving.checkUsable_usable (h.poisoned.trans hp)]
    have hlookup : (s.look id e').1 = (s.look id e).1 := h.lookups id
    dsimp only
    rw [run_bind, run_bind]
    generalize s.look id e = done at hlookup ⊢
    generalize s.look id e' = done' at hlookup ⊢
    obtain ⟨r, e₁⟩ := done
    obtain ⟨r', e₁'⟩ := done'
    obtain rfl : r' = r := hlookup
    cases r' with
    | error f => rfl
    | ok r =>
      dsimp only
      rw [run_bind, run_bind]
      cases r.accepts kind <;> rfl

end Scripts

namespace Serving

instance (r : CompiledRoutine) (v : Outcome ScriptValue) : Plain (rowOf r v) := by
  unfold rowOf
  infer_instance

end Serving

namespace Engine

variable {σ : Type} {e e' : Engine}

theorem Agrees.answer (h : e.Agrees e') (r : CompiledRoutine) (stopped : Stop × σ) :
    Scan.answer e' r stopped = Scan.answer e r stopped := by
  obtain ⟨stop, c⟩ := stopped
  unfold Scan.answer
  cases stop with
  | raised f => rfl
  | ended => rfl
  | row v =>
    dsimp only
    rw [(inferInstance : Serving.Plain (Serving.rowOf r v)).same e e' h]

theorem Agrees.askRow (h : e.Agrees e') (s : Scripts σ) (r : CompiledRoutine) (args : Row)
    (k : Scan σ) : s.askRow e' r args k = s.askRow e r args k := by
  have hargs := h.arguments r args
  -- the two conversions answer the same, and only an answer is looked at
  have hresumed (c : σ) :
      (match (Serving.arguments r args e').1 with
        | .error f => ((.error f : Outcome SetAnswer), k)
        | .ok _ => Scan.answer e' r (s.resume c args)) =
      (match (Serving.arguments r args e).1 with
        | .error f => (.error f, k)
        | .ok _ => Scan.answer e r (s.resume c args)) := by
    generalize (Serving.arguments r args e).1 = converted at hargs ⊢
    generalize (Serving.arguments r args e').1 = converted' at hargs ⊢
    cases converted with
    | error f =>
      cases converted' with
      | error f' =>
        obtain rfl : f = f' := Except.error.inj hargs
        rfl
      | ok values' => cases hargs
    | ok values =>
      cases converted' with
      | error f' => cases hargs
      | ok values' => exact h.answer r _
  unfold Scripts.askRow
  cases k with
  | ready => exact hresumed _
  | waiting c => exact hresumed _
  | done => rfl
  | failed => rfl

end Engine

/-- A request answers the same in engines that are alike. -/
theorem Scripts.Alike.ask {σ : Type} {s : Scripts σ} {e e' : Engine} (h : s.Alike e e')
    (id : TypeId) (args : Row) (k : Scan σ) : s.ask e' id args k = s.ask e id args k := by
  unfold Scripts.ask
  rw [h.routineBy]
  cases (Serving.routineBy s.look .setFunction id e).1 with
  | error f => rfl
  | ok r => exact h.toAgrees.askRow s r args k

end StoredRoutine
