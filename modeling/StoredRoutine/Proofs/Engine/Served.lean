import StoredRoutine.Proofs.Engine.Scans

/-!
# `StoredRoutine.Proofs.Engine.Served`: one request leaves the other calls alone

An engine keeps the coroutines of all its calls in one table, gives names to them by one counter,
and has an entry in one registry for each. `Engine.Served` says that nevertheless a request does
what its scan should do, and that all other executions are spared: they are in the table still, with
the coroutines that they had. No two executions have one coroutine (`Engine.Threaded`).

Whatever way the coroutine stops in, this is so (`Engine.nextBy_served`), and besides the request
does not do more to its slot and to the executions than a request ever does
(`Engine.nextBy_worked`). It is the same for a call that is abandoned (`Engine.abandon_served`).
-/

set_option autoImplicit false

namespace StoredRoutine

open Script (ThreadId Value)
open Serving (Any Callable Keeps)

/-! ### Executions and their coroutines -/

namespace Engine

variable {σ : Type} {e e' : Engine} {s : Scripts σ} {stack : List FrameId} {x y : ExecutionId}
  {execution other : Execution}

/-- Every execution has a coroutine of its own. -/
structure Threaded (e : Engine) : Prop where
  bounded : ∀ p ∈ e.executions, p.2.thread.index < e.heap.threads.size
  distinct : (e.executions.map fun p => p.2.thread).Nodup

theorem threaded_of_executions (hnone : e.executions = []) : e.Threaded := by
  constructor <;> rw [hnone]
  · exact fun _ hp => absurd hp List.not_mem_nil
  · exact List.nodup_nil

theorem Threaded.quiet (ht : e.Threaded) (h : s.Quiet e e') : e'.Threaded where
  bounded := by
    rw [h.executions, h.threads]
    exact ht.bounded
  distinct := by
    rw [h.executions]
    exact ht.distinct

/-- A new execution has a new coroutine. -/
theorem Threaded.opened (ht : e.Threaded) : e.opened.2.Threaded where
  bounded := by
    show ∀ p ∈ _ :: e.executions, _ < (e.heap.threads.push _).size
    rw [Array.size_push]
    intro p hp
    rcases List.mem_cons.mp hp with rfl | hp
    · exact Nat.lt_succ_self _
    · exact Nat.lt_succ_of_lt (ht.bounded p hp)
  distinct := by
    show ((_ :: e.executions).map fun p => p.2.thread).Nodup
    rw [List.map_cons, List.nodup_cons]
    refine ⟨fun hin => ?_, ht.distinct⟩
    obtain ⟨p, hp, heq⟩ := List.mem_map.mp hin
    have hlt := ht.bounded p hp
    rw [heq] at hlt
    exact Nat.lt_irrefl _ hlt

theorem Threaded.endExecution (ht : e.Threaded) (x : ExecutionId) :
    (e.endExecution x).Threaded := by
  unfold Engine.endExecution
  cases e.execution? x with
  | none => exact ht
  | some execution =>
    refine ⟨fun p hp => ht.bounded p (List.mem_filter.mp hp).1, ?_⟩
    exact ht.distinct.sublist (List.filter_sublist.map _)

/-- Executions with one coroutine are the same. -/
theorem Threaded.eq_of_thread (ht : e.Threaded) (hs : e.Sound stack)
    (hx : e.execution? x = some execution) (hy : e.execution? y = some other)
    (hthread : other.thread = execution.thread) : y = x :=
  congrArg Prod.fst (List.inj_on_of_nodup_map ht.distinct ((execution?_eq_some hs).mp hy)
    ((execution?_eq_some hs).mp hx) hthread)

theorem execution?_opened (hy : y ≠ ⟨e.started + 1⟩) :
    e.opened.2.execution? y = e.execution? y := by
  show ((⟨e.started + 1⟩, _) :: e.executions).lookup y = _
  rw [List.lookup_cons, beq_false_of_ne hy]
  rfl

theorem execution?_opened_self (e : Engine) :
    ∃ execution, e.opened.2.execution? ⟨e.started + 1⟩ = some execution ∧
      execution.thread = e.opened.1.2 := by
  refine ⟨⟨e.opened.1.2, (e.cleanups.register (.dropExecution ⟨e.started + 1⟩)).1⟩, ?_, rfl⟩
  show ((⟨e.started + 1⟩, _) :: e.executions).lookup _ = _
  rw [List.lookup_cons, beq_self_eq_true]
  rfl

theorem execution?_endExecution (hy : y ≠ x) :
    (e.endExecution x).execution? y = e.execution? y := by
  unfold endExecution
  cases e.execution? x with
  | none => rfl
  | some execution =>
    show (e.executions.filter fun p => decide (p.1 ≠ x)).lookup y = _
    rw [lookup_filter_key fun k => decide (k ≠ x)]
    simp [hy, execution?]

/-- An execution that is there has a name that was given. -/
theorem ne_started (hs : e.Sound stack)
    (hy : e.execution? y = some other) : y ≠ ⟨e.started + 1⟩ := by
  have hle := hs.registered.numbered _ ((execution?_eq_some hs).mp hy)
  rintro rfl
  exact Nat.lt_irrefl _ hle

/-- A slot of the host names the coroutine of a scan, or is where the scan is. -/
inductive Stands (e : Engine) (w : ThreadId → σ) : SetCall → Scan σ → Prop where
  | ready : Stands e w .ready .ready
  | waiting {x : ExecutionId} {execution : Execution} (hx : e.execution? x = some execution) :
    Stands e w (.suspended x) (.waiting (w execution.thread))
  | done : Stands e w .done .done
  | failed : Stands e w .failed .failed

/-- An execution that a slot names is there. -/
theorem Stands.execution? {w : ThreadId → σ} {slot : SetCall} {k : Scan σ}
    (h : Stands e w slot k) (hslot : slot = .suspended x) :
    ∃ execution, e.execution? x = some execution := by
  cases h with
  | waiting hx =>
    cases hslot
    exact ⟨_, hx⟩
  | _ => cases hslot

/-- All executions but one are left alone, and so are their coroutines. -/
def Spares (x : ExecutionId) (e : Engine) (w : ThreadId → σ) (e' : Engine) (w' : ThreadId → σ) :
    Prop :=
  ∀ y other, y ≠ x → e.execution? y = some other →
    e'.execution? y = some other ∧ w' other.thread = w other.thread

theorem Stands.quiet {w : ThreadId → σ} {slot : SetCall} {k : Scan σ}
    (hstands : Stands e w slot k) (h : s.Quiet e e') : Stands e' w slot k := by
  cases hstands with
  | ready => exact .ready
  | waiting hy => exact .waiting ((h.execution? _).trans hy)
  | done => exact .done
  | failed => exact .failed

theorem Stands.spared {w w' : ThreadId → σ} {slot : SetCall} {k : Scan σ} (h : Stands e w slot k)
    (hspares : Spares x e w e' w') (hslot : slot ≠ .suspended x) : Stands e' w' slot k := by
  cases h with
  | ready => exact .ready
  | waiting hy =>
    obtain ⟨hy', hworld⟩ := hspares _ _ (fun heq => hslot (congrArg _ heq)) hy
    rw [← hworld]
    exact .waiting hy'
  | done => exact .done
  | failed => exact .failed

/-- What a request does to the call of one execution, and to the others. `done` is what comes of the
request, and `k` what should come of it. -/
structure Served (s : Scripts σ) (x : ExecutionId) (e : Engine) (w : ThreadId → σ)
    (k : Outcome SetAnswer × Scan σ)
    (done : (Outcome SetAnswer × SetCall × (ThreadId → σ)) × Engine) : Prop where
  answer : done.1.1 = k.1
  stands : Stands done.2 done.1.2.2 done.1.2.1 k.2
  alike : s.Alike e done.2
  threaded : done.2.Threaded
  spares : Spares x e w done.2 done.1.2.2

section Served

variable {w w' : ThreadId → σ} {k : Outcome SetAnswer × Scan σ}
  {done : (Outcome SetAnswer × SetCall × (ThreadId → σ)) × Engine}

/-- Something has happened before that spared the other executions. -/
theorem Served.trans (halike : s.Alike e e') (hspares : Spares x e w e' w')
    (hserved : e'.Served s x w' k done) : e.Served s x w k done where
  answer := hserved.answer
  stands := hserved.stands
  alike := halike.trans hserved.alike
  threaded := hserved.threaded
  spares y other hne hy := by
    obtain ⟨hy', hworld⟩ := hspares y other hne hy
    obtain ⟨hy'', hworld'⟩ := hserved.spares y other hne hy'
    exact ⟨hy'', hworld'.trans hworld⟩

theorem spares_quiet (h : s.Quiet e e') : Spares x e w e' w :=
  fun y _ _ hy => ⟨(h.execution? y).trans hy, rfl⟩

/-- Something quiet has happened before. -/
theorem Served.after (h : s.Quiet e e') (hserved : e'.Served s x w k done) :
    e.Served s x w k done :=
  hserved.trans h.toAlike (spares_quiet h)

/-- Something quiet happens later. -/
theorem Served.before {after : Engine} (h : s.Quiet done.2 after)
    (hserved : e.Served s x w k done) : e.Served s x w k (done.1, after) where
  answer := hserved.answer
  stands := hserved.stands.quiet h
  alike := hserved.alike.trans h.toAlike
  threaded := hserved.threaded.quiet h
  spares y other hne hy := by
    obtain ⟨hy', hworld⟩ := hserved.spares y other hne hy
    exact ⟨(h.execution? y).trans hy', hworld⟩

/-- A request that changes neither the slot nor the executions. -/
theorem served_unmoved {slot : SetCall} {scan : Scan σ} (ht : e.Threaded)
    (hstands : Stands e w slot scan) (h : s.Quiet e e') (answer : Outcome SetAnswer) :
    e.Served s x w (answer, scan) ((answer, slot, w), e') :=
  have hnone : e.Served s x w (answer, scan) ((answer, slot, w), e) :=
    ⟨rfl, hstands, .refl s e, ht, spares_quiet (.refl s e)⟩
  hnone.before h

/-- The call of an execution ends. -/
theorem spares_endExecution (x : ExecutionId) (e : Engine) (w : ThreadId → σ) :
    Spares x e w (e.endExecution x) w :=
  fun _ _ hne hy => ⟨(execution?_endExecution hne).trans hy, rfl⟩

theorem agrees_endExecution (x : ExecutionId) (e : Engine) : e.Agrees (e.endExecution x) := by
  unfold endExecution
  cases e.execution? x with
  | none => exact .refl e
  | some execution => exact ⟨rfl, rfl, .refl _ _⟩

theorem alike_endExecution (s : Scripts σ) (x : ExecutionId) (e : Engine) :
    s.Alike e (e.endExecution x) := by
  refine .ofAgrees (agrees_endExecution x e) ?_ ?_ <;>
  · unfold endExecution
    cases e.execution? x <;> rfl

/-- A coroutine has stopped. -/
theorem answerBy_served (ht : e.Threaded) (r : CompiledRoutine)
    (hx : e.execution? x = some execution) (stop : Stop) (w : ThreadId → σ) :
    e.Served s x w (Scan.answer e r (stop, w execution.thread)) (answerBy r x (stop, e, w)) := by
  -- all ends of a call but one take the execution with them
  have hended {e' : Engine} {answer : Outcome SetAnswer} {slot : SetCall} {scan : Scan σ}
      (h : s.Quiet e e') (hstands : Stands (e'.endExecution x) w slot scan) :
      e.Served s x w (answer, scan) ((answer, slot, w), e'.endExecution x) :=
    Served.after h ⟨rfl, hstands, alike_endExecution s x e', (ht.quiet h).endExecution x,
      spares_endExecution x e' w⟩
  cases stop with
  | raised f => exact hended (.refl s e) .failed
  | ended => exact hended (.refl s e) .done
  | row v =>
    have hchange := (inferInstance : Serving.Private (Serving.rowOf r v)).change e
    unfold answerBy answerStop Scan.answer
    dsimp only
    generalize Serving.rowOf r v e = converted at hchange ⊢
    obtain ⟨f | d, e'⟩ := converted
    · exact hended (.ofPrivate hchange) .failed
    · exact served_unmoved ht (.waiting hx) (.ofPrivate hchange) _

end Served

variable {w : ThreadId → σ} {slot : SetCall} {scan : Scan σ} {id : TypeId}

/-! ### Requests keep the invariant -/

theorem admitted_of_catchable {stop : Stop} (h : stop.Catchable) : stop.Admitted e := by
  cases stop with
  | row v => exact h
  | ended => exact trivial
  | raised f => exact admits_failure h

/-- Scripts that share nothing leave the engine alone. -/
theorem resumer_keeps (s : Scripts σ) : s.resumer.Keeps where
  start args _ _ _ hs _ _ := ⟨hs, .refl _, admitted_of_catchable (s.catchable _ args)⟩
  resume args _ _ _ hs _ := ⟨hs, .refl _, admitted_of_catchable (s.catchable _ args)⟩

theorem keeps_look (s : Scripts σ) (id : TypeId) : Keeps stack e (s.look id) Callable := by
  have hcompile (d : RoutineDefinition) (e' : Engine) : Keeps stack e'
      (Serving.ofOutcome (s.compiler e.options.chunkName d.chunk)) Engine.Admits :=
    Serving.keeps_ofOutcome (s.compilable _ _) fun f hf =>
      admits_of_isFunction (s.isFunction _ _ f hf)
  intro hs
  exact Serving.keeps_lookup hcompile id hs

/-! ### Requests are served -/

/-- The execution that a request of a slot is about: the next one to be named, if there is none. -/
def ownOf (e : Engine) : SetCall → ExecutionId
  | .suspended x => x
  | _ => ⟨e.started + 1⟩

theorem ownOf_eq (hstarted : e'.started = e.started) (slot : SetCall) :
    e'.ownOf slot = e.ownOf slot := by
  cases slot with
  | suspended x => rfl
  | _ => exact congrArg (fun n : Nat => (⟨n + 1⟩ : ExecutionId)) hstarted

/-- A new coroutine is that of no other execution. -/
theorem spares_opened (hs : e.Sound stack) (ht : e.Threaded) (w : ThreadId → σ) (c : σ) :
    Spares ⟨e.started + 1⟩ e w e.opened.2 (Function.update w e.opened.1.2 c) := by
  intro y other hne hy
  have hlt := ht.bounded _ ((execution?_eq_some hs).mp hy)
  refine ⟨(execution?_opened hne).trans hy, Function.update_of_ne (fun heq => ?_) _ _⟩
  rw [heq] at hlt
  exact Nat.lt_irrefl _ hlt

/-- The coroutine of an execution is that of no other one. -/
theorem spares_resumed (hs : e.Sound stack) (ht : e.Threaded)
    (hx : e.execution? x = some execution) (w : ThreadId → σ) (c : σ) :
    Spares x e w e (Function.update w execution.thread c) := by
  intro y other hne hy
  refine ⟨hy, Function.update_of_ne (fun heq => ?_) _ _⟩
  exact hne (ht.eq_of_thread hs hx hy heq)

theorem requestBy_served (hs : e.Sound stack) (ht : e.Threaded) (hstands : Stands e w slot scan)
    (r : CompiledRoutine) (args : Row) :
    e.Served s (e.ownOf slot) w (s.askRow e r args scan)
      (requestBy s.resumer args (slot, w) r e) := by
  have hconverted := (Serving.keeps_arguments r args).spec hs
  have hchange : s.Quiet e (Serving.arguments r args e).2 :=
    .ofPrivate ((inferInstance : Serving.Private (Serving.arguments r args)).change e)
  unfold requestBy Scripts.askRow
  cases hstands with
  | done => exact served_unmoved ht .done (.refl s e) _
  | failed => exact served_unmoved ht .failed (.refl s e) _
  | ready =>
    dsimp only
    generalize Serving.arguments r args e = converted at hconverted hchange ⊢
    obtain ⟨f | values, e₁⟩ := converted
    · exact served_unmoved ht .ready hchange _
    · have hs₁ : e₁.Sound stack := hconverted.1
      have ht₁ : e₁.Threaded := ht.quiet hchange
      have halike : s.Alike e₁ e₁.opened.2 := .ofAgrees ⟨rfl, rfl, .refl _ _⟩ rfl rfl
      obtain ⟨execution, hx, hthread⟩ := execution?_opened_self e₁
      have hserved := answerBy_served (s := s) ht₁.opened r hx (s.resume (s.start r) args).1
        (Function.update w e₁.opened.1.2 (s.resume (s.start r) args).2)
      rw [hthread, Function.update_self, halike.toAgrees.answer, hchange.toAgrees.answer] at hserved
      -- the execution that is opened has the next number, which the conversion has not used up
      have hown : e.ownOf .ready = ⟨e₁.started + 1⟩ := by
        rw [hchange.started]
        rfl
      rw [hown]
      exact (hserved.trans halike (spares_opened hs₁ ht₁ w _)).after hchange
  | @waiting x execution hx =>
    dsimp only
    rw [hx]
    dsimp only
    generalize Serving.arguments r args e = converted at hconverted hchange ⊢
    obtain ⟨f | values, e₁⟩ := converted
    · exact served_unmoved ht (.waiting hx) hchange _
    · have hs₁ : e₁.Sound stack := hconverted.1
      have ht₁ : e₁.Threaded := ht.quiet hchange
      have hx₁ : e₁.execution? x = some execution := (hchange.execution? x).trans hx
      have hserved := answerBy_served (s := s) ht₁ r hx₁ (s.resume (w execution.thread) args).1
        (Function.update w execution.thread (s.resume (w execution.thread) args).2)
      rw [Function.update_self, hchange.toAgrees.answer] at hserved
      exact (hserved.trans (.refl s e₁) (spares_resumed hs₁ ht₁ hx₁ w _)).after hchange

/-! ### Requests through the engine -/

/-- The search for a routine, which a poisoned engine refuses. -/
theorem routineBy_quiet (s : Scripts σ) (e : Engine) (kind : CallKind) (id : TypeId) :
    s.Quiet e (Serving.routineBy s.look kind id e).2 ∧
      ∀ r, (Serving.routineBy s.look kind id e).1 = .ok r → e.poisoned = false := by
  have hlooked := s.quiet_lookup e id
  unfold Serving.routineBy
  rw [run_bind]
  cases hp : e.poisoned with
  | true =>
    rw [Serving.checkUsable_poisoned hp]
    exact ⟨.refl s e, nofun⟩
  | false =>
    rw [Serving.checkUsable_usable hp]
    dsimp only
    rw [run_bind, show s.look id e = e.lookup s.compiler id from rfl]
    generalize e.lookup s.compiler id = done at hlooked ⊢
    obtain ⟨f | r, e'⟩ := done
    · exact ⟨hlooked, fun _ _ => rfl⟩
    · dsimp only
      rw [run_bind]
      cases r.accepts kind <;> exact ⟨hlooked, fun _ _ => rfl⟩

theorem nextBy_served (hs : e.Sound []) (ht : e.Threaded) (hstands : Stands e w slot scan)
    (id : TypeId) (args : Row) :
    e.Served s (e.ownOf slot) w (s.ask e id args scan)
      (nextBy s.look s.resumer e id (slot, w) args) := by
  have hroutine := (Serving.keeps_routineBy (fun _ => keeps_look s id) .setFunction).spec hs
  have hquiet := routineBy_quiet s e .setFunction id
  unfold nextBy Scripts.ask
  generalize Serving.routineBy s.look .setFunction id e = found at hroutine hquiet ⊢
  obtain ⟨f | r, e'⟩ := found
  · exact served_unmoved ht hstands hquiet.1 _
  · obtain ⟨hs', -, hr⟩ := hroutine
    obtain ⟨hquiet, husable⟩ := hquiet
    have hentered : s.Quiet e' e'.entered :=
      .ofPrivate (.ofSame rfl rfl rfl rfl rfl rfl rfl rfl)
    have hserved := requestBy_served (s := s) hs'.entered ((ht.quiet hquiet).quiet hentered)
      ((hstands.quiet hquiet).quiet hentered) r args
    -- scripts that share nothing do not poison the engine, so the frame is ended in peace
    have hp : e'.entered.poisoned = false := hquiet.poisoned.trans (husable r rfl)
    obtain ⟨arena, hframe⟩ := inFrame_usable hs'
      (requestBy_worked (resumer_keeps s) hs'.entered args slot w hr)
      (hserved.alike.poisoned.trans hp)
    have hown : e'.entered.ownOf slot = e.ownOf slot :=
      ownOf_eq (hentered.started.trans hquiet.started) slot
    rw [(hquiet.toAgrees.trans hentered.toAgrees).askRow, hown] at hserved
    dsimp only
    rw [hframe]
    exact ((hserved.after hentered).after hquiet).before
      (.ofPrivate (.ofSame rfl rfl rfl rfl rfl rfl rfl rfl))

/-! ### Calls that are abandoned -/

theorem abandon_served (ht : e.Threaded) (hstands : Stands e w slot scan)
    (answer : Outcome SetAnswer) :
    e.Served s (e.ownOf slot) w (answer, scan.abandoned)
      ((answer, (e.abandon slot).1, w), (e.abandon slot).2) := by
  cases hstands with
  | ready => exact ⟨rfl, .done, .refl s e, ht, spares_quiet (.refl s e)⟩
  | @waiting x execution hx =>
    exact ⟨rfl, .done, alike_endExecution s x e, ht.endExecution x, spares_endExecution x e w⟩
  | done => exact ⟨rfl, .done, .refl s e, ht, spares_quiet (.refl s e)⟩
  | failed => exact ⟨rfl, .failed, .refl s e, ht, spares_quiet (.refl s e)⟩

end Engine

end StoredRoutine
