import StoredRoutine.Proofs.Engine.Moments
import StoredRoutine.Proofs.Engine.Poison
import StoredRoutine.Proofs.Engine.Released
import StoredRoutine.Proofs.Engine.Reports

/-!
# `StoredRoutine.Proofs.Engine.Relayed`: failures that scripts hand on

A service fails in a protected call, the script looks at what it gets, and raises it again; the
protected call around it does the same, and so on. The innermost call makes a table of the failure,
all further ones hand the table on as it is, and the call from the host makes a failure of what the
table is read as. `Relays` follows such a chain through the runs that are nested in each other, and
`Relays.seen` goes by induction on it.

A chain is as good as its engine. In a poisoned one the call of the host fails for the reason that
the engine is poisoned (`Invocation.run_fatal`), even if that was caught and has nothing to do with
the failure that is handed on.

What the script at the end comes to is computed, but for the globals that it uses: the machine
coasts to where they are read already, and what is in a new engine under their names is known from
`Engine.bare_defines`.
-/

set_option autoImplicit false

namespace StoredRoutine

open Script (Machine.call Machine.hasRoom Machine.step TableId Value)

/-! ### What protected calls hand over -/

namespace Subtransaction

variable {s : Subtransaction} {stack : List FrameId} {v : Value}

/-- An engine that is usable after a protected call was so when its function raised something. -/
theorem usable_body (hs : s.outer.engine.Sound stack)
    (hbody : s.body.Sound (s.outer.engine.arena.pushFrame.1 :: stack))
    (hraised : s.body.raised? = some v) (hp : s.answer.2.poisoned = false) :
    s.body.last.poisoned = false := by
  obtain ⟨arena, host, hanswer⟩ := answer_eq hs hbody hraised hp
  obtain ⟨w, heap, hcaught⟩ := Serving.caught_spec { s.body.last with arena, host } v
  rw [hanswer, run_bind, hcaught] at hp
  exact hp

/-- A failure is handed over as a table with the fields of its report. -/
theorem answer_failure {f : Failure} (hs : s.outer.engine.Sound stack)
    (hbody : s.body.Sound (s.outer.engine.arena.pushFrame.1 :: stack))
    (hraised : s.body.raised? = some (.failure f)) (hp : s.answer.2.poisoned = false) :
    ∃ id after, s.answer = (.ok [.bool false, .table id], after) ∧
      after.heap.HasReport id f.report := by
  obtain ⟨arena, host, hanswer⟩ := answer_eq hs hbody hraised hp
  obtain ⟨id, heap, hcaught, hreport⟩ :=
    Serving.caught_failure f { s.body.last with arena, host }
  refine ⟨id, { s.body.last with arena, host, heap }, ?_, hreport⟩
  rw [hanswer, run_bind, hcaught]
  rfl

/-- Anything else is handed over as it is. -/
theorem answer_value (hs : s.outer.engine.Sound stack)
    (hbody : s.body.Sound (s.outer.engine.arena.pushFrame.1 :: stack))
    (hraised : s.body.raised? = some v) (hv : ∀ f, v ≠ .failure f)
    (hp : s.answer.2.poisoned = false) :
    ∃ after, s.answer = (.ok [.bool false, v], after) ∧ after.heap = s.body.last.heap := by
  obtain ⟨arena, host, hanswer⟩ := answer_eq hs hbody hraised hp
  refine ⟨{ s.body.last with arena, host }, ?_, rfl⟩
  rw [hanswer, run_bind, Serving.caught_of_ne hv]
  rfl

end Subtransaction

/-! ### Chains -/

/-- A failure is raised in protected calls that are nested in each other, the outermost one first.
Whatever the function of each is answered by the next one it raises again, and if that is a table
with the fields of a report, it has left them alone. The moment is the first one of the run around
them. -/
inductive Relays (f : Failure) : List Subtransaction → Moment → Prop where
  /-- Nobody has caught the failure. -/
  | raised {m : Moment} (h : m.raised? = some (.failure f)) : Relays f [] m
  | relayed {m m' : Moment} {s : Subtransaction} {levels : List Subtransaction}
    (hreach : m.Reaches m') (hcalled : m'.subtransaction? = some s)
    (hinner : Relays f levels s.body) (hraised : m.raised? = some s.received)
    (hkept : ∀ id r, s.received = .table id → s.answer.2.heap.HasReport id r →
      m.last.heap.HasReport id r) :
    Relays f (s :: levels) m

/-- A chain starts with the run, whatever the run does before. -/
theorem Relays.of_next? {f : Failure} {levels : List Subtransaction} {m m' : Moment}
    (hnext : m.next? = some m') (h : Relays f levels m') : Relays f levels m := by
  have hdone := Moment.done_next? hnext
  have hraised : m.raised? = m'.raised? := by
    unfold Moment.raised?
    rw [hdone]
  have hlast : m.last = m'.last := congrArg Prod.snd hdone
  cases h with
  | raised h => exact .raised (hraised.trans h)
  | relayed hreach hcalled hinner h hkept =>
    exact .relayed (.next hnext hreach) hcalled hinner (hraised.trans h) (hlast ▸ hkept)

/-- A test for chains of so many protected calls, in runs of at most a hundred turns. What comes
after a protected call has to leave the heap alone. -/
def relays (f : Failure) : Nat → Moment → Bool
  | 0, m =>
    match m.raised? with
    | some (.failure g) => decide (g = f)
    | _ => false
  | k + 1, m =>
    (m.subtransactions 100).any fun s => relays f k s.body && (s.outer.goOn s.answer).settles &&
      match m.raised?, s.received with
      | some (.table id), .table id' => decide (id = id')
      | _, _ => false

theorem exists_relays {f : Failure} {k : Nat} {m : Moment} (h : relays f k m = true) :
    ∃ levels, levels.length = k ∧ Relays f levels m := by
  induction k generalizing m with
  | zero =>
    unfold relays at h
    split at h
    next g hraised =>
      obtain rfl := of_decide_eq_true h
      exact ⟨[], rfl, .raised hraised⟩
    · cases h
  | succ k ih =>
    obtain ⟨s, hs, hrelays⟩ := List.any_eq_true.mp h
    obtain ⟨m', hreach, hcalled⟩ := Moment.reaches_of_mem hs
    simp only [Bool.and_eq_true] at hrelays
    obtain ⟨⟨hinner, hsettles⟩, hagain⟩ := hrelays
    obtain ⟨levels, rfl, hlevels⟩ := ih hinner
    -- what was raised last is what the inner service has answered with, so it is shown in the same
    -- heap
    have hheap : m.last.heap = s.answer.2.heap := by
      rw [← Moment.engine_goOn, ← Moment.last_heap_of_settles hsettles]
      exact congrArg (fun done : Script.Ending × Engine => done.2.heap)
        (hreach.done_eq_goOn hcalled)
    refine ⟨s :: levels, rfl, ?_⟩
    split at hagain
    next id id' hraised hreceived =>
      obtain rfl := of_decide_eq_true hagain
      refine .relayed hreach hcalled hlevels (hraised.trans (congrArg some hreceived.symm))
        fun other r _ hshown => ?_
      rw [hheap]
      exact hshown
    · cases hagain

/-- What a protected call hands over is a table with the fields of the report of a failure. -/
def Subtransaction.Shows (s : Subtransaction) (f : Failure) (id : TableId) : Prop :=
  ∃ after, s.answer = (.ok [.bool false, .table id], after) ∧ after.heap.HasReport id f.report

/-- What a chain hands on is raised at the end. -/
theorem Relays.raises {f : Failure} {levels : List Subtransaction} {m : Moment}
    (h : Relays f levels m) : ∃ v, m.raised? = some v := by
  cases h with
  | raised h => exact ⟨_, h⟩
  | relayed _ _ _ hraised _ => exact ⟨_, hraised⟩

/-- Every protected call of a chain hands over one and the same table, and it has the fields of the
report of the failure at every one of them and at the end. -/
theorem Relays.seen {f : Failure} {levels : List Subtransaction} {m : Moment}
    {stack : List FrameId} (h : Relays f levels m) (hm : m.Sound stack)
    (hp : m.last.poisoned = false) (hlevels : levels ≠ []) :
    ∃ id, m.raised? = some (.table id) ∧ m.last.heap.HasReport id f.report ∧
      ∀ s ∈ levels, s.Shows f id := by
  induction h generalizing stack with
  | raised => exact absurd rfl hlevels
  | @relayed m m' s levels hreach hcalled hinner hraised hkept ih =>
    obtain ⟨hm', -⟩ := hm.reaches hreach
    have hs := (hm'.outer hcalled).1.engine
    have hbody := hm'.body hcalled
    have hanswer := hm.usable hreach hcalled hp
    have hgiven {id : TableId} {after : Engine}
        (heq : s.answer = (.ok [.bool false, .table id], after)) : s.received = .table id := by
      unfold Subtransaction.received
      rw [heq]
    by_cases hnone : levels = []
    · -- the failure itself has come to this protected call
      subst hnone
      obtain ⟨hfailure⟩ := hinner
      obtain ⟨id, after, heq, hreport⟩ := s.answer_failure hs hbody hfailure hanswer
      have hreceived := hgiven heq
      refine ⟨id, hreceived ▸ hraised, ?_, List.forall_mem_singleton.mpr ⟨after, heq, hreport⟩⟩
      refine hkept id f.report hreceived ?_
      rw [heq]
      exact hreport
    · -- a table has come to it from the next one, and goes on as it is
      obtain ⟨v, hv⟩ := hinner.raises
      obtain ⟨id, htable, hreport, hall⟩ := ih hbody (s.usable_body hs hbody hv hanswer) hnone
      obtain ⟨after, heq, hheap⟩ := s.answer_value hs hbody htable (fun _ => nofun) hanswer
      have hreceived := hgiven heq
      have hshown : after.heap.HasReport id f.report := by
        rw [hheap]
        exact hreport
      refine ⟨id, hreceived ▸ hraised, ?_, List.forall_mem_cons.mpr ⟨⟨after, heq, hshown⟩, hall⟩⟩
      refine hkept id f.report hreceived ?_
      rw [heq]
      exact hshown

/-! ### Calls from the host -/

namespace Engine

variable {e : Engine} {stack : List FrameId}

/-- The first moment of a function that the engine calls in a protected call. -/
def calling (e : Engine) (f : Value) (args : List Value) : Moment where
  turns := maxTurns
  control := { focus := .call hostPosition (.builtin .pcall) (f :: args), level := 1 }
  engine := e

/-- The moment at which a coroutine goes on. -/
def resuming (e : Engine) (thread : Script.ThreadId) (args : List Value) : Moment where
  turns := maxTurns
  control := e.controlOf thread args
  engine := { e with heap := e.heap.setThread thread .active }

theorem sound_calling (hs : e.Sound stack) {f : Value} {args : List Value} (hf : e.Admits f)
    (hargs : Script.AllOf e.Admits args) : (e.calling f args).Sound stack where
  engine := hs
  control := ⟨⟨fun _ hx => absurd hx List.not_mem_nil, fun _ hr => absurd hr List.not_mem_nil⟩,
    innate_admits e _ rfl, List.forall_mem_cons.mpr ⟨hf, hargs⟩⟩

theorem sound_resuming (hs : e.Sound stack) (thread : Script.ThreadId) {args : List Value}
    (hargs : Script.AllOf e.Admits args) : (e.resuming thread args).Sound stack where
  engine := hs.withHeap (hs.heap.setThread thread (s := .active) trivial)
  control := holds_controlOf (innate_admits e) hs.heap thread hargs

end Engine

/-- The frame of a call hands on that the engine is poisoned. -/
theorem Engine.usable_of_inFrame {α β : Type} {e : Engine} {stack : List FrameId}
    {work : Engine → (Outcome α × β) × Engine}
    {P : β → List (ExecutionId × Execution) → Nat → Prop} (hs : e.Sound stack)
    (hdone : e.entered.Worked (e.arena.pushFrame.1 :: stack) P (work e.entered))
    (hp : (e.inFrame work).2.poisoned = false) : (work e.entered).2.poisoned = false := by
  generalize heq : work e.entered = done at hdone
  obtain ⟨⟨result, state⟩, e'⟩ := done
  obtain ⟨arena, hpop, -⟩ :=
    hs.arena.follows_frame hdone.restores.arena hdone.sound.arena (exitOf result)
  rw [inFrame_eq heq hpop] at hp
  split at hp
  next hpoisoned => cases hpoisoned.symm.trans hp
  next hnone => exact Bool.eq_false_iff.mpr hnone

namespace Invocation

variable {α β : Type} {e : Engine} {m : Moment} {stack : List FrameId} {r : CompiledRoutine}
  {v : Value}

/-- The moment that comes of what something answers; none if it fails. -/
def momentAfter {γ : Type} (start : γ → Engine → Moment) : Outcome γ × Engine → Option Moment
  | (.ok a, e) => some (start a e)
  | (.error _, _) => none

theorem momentAfter_eq_some {γ : Type} {start : γ → Engine → Moment} {x : Outcome γ × Engine}
    (h : momentAfter start x = some m) : ∃ a e', x = (.ok a, e') ∧ start a e' = m := by
  obtain ⟨f | a, e'⟩ := x
  · cases h
  · exact ⟨a, e', rfl, Option.some.inj h⟩

/-- The moment at which the function of a routine starts, or goes on if it has yielded a row. There
is none if the arguments cannot be converted, and none for a set that has ended. -/
def starts : Invocation α β → CompiledRoutine → Engine → Option Moment
  | .value _ args, r, e =>
    momentAfter (fun values e => e.calling r.function values) (Serving.arguments r args e)
  | .trigger _ t, r, e =>
    momentAfter (fun _ e => e.calling r.function (t.args.map Value.ofText))
      (Serving.publishEvent t e)
  | .row _ .ready args, r, e =>
    momentAfter (fun values e => e.opened.2.resuming e.opened.1.2 (r.function :: values))
      (Serving.arguments r args e)
  | .row _ (.suspended id) args, r, e =>
    (e.execution? id).bind fun x =>
      momentAfter (fun values e => e.resuming x.thread values) (Serving.arguments r args e)
  | .row _ _ _, _, _ => none

/-- The moment at which a call from the host starts to run the function of its routine. -/
def body? (c : Invocation α β) (e : Engine) : Option Moment :=
  match Serving.routineFor c.kind c.routine e with
  | (.ok r, found) => c.starts r found.entered
  | (.error _, _) => none

/-- What the work of a call comes to when the function of its routine has raised something. -/
structure RaisesFrom (c : Invocation α β) (r : CompiledRoutine) (e : Engine) (stack : List FrameId)
    (m : Moment) : Prop where
  sound : m.Sound stack
  /-- The work fails with what was raised. -/
  fails : ∀ v, m.raised? = some v → (c.work r e).1.1 = .error (Engine.failureOf m.last.heap v)
  poisoned : ∀ v, m.raised? = some v → m.last.poisoned = true → (c.work r e).2.poisoned = true

theorem runRaising_raised {f : Value} {args : List Value}
    (h : (e.calling f args).raised? = some v) :
    Serving.runRaising f args e =
      (.error (Engine.failureOf (e.calling f args).last.heap v), (e.calling f args).last) := by
  have hrun : Serving.runProtected Engine.callFunction f args e =
      (.ok (.error v), (e.calling f args).last) :=
    Serving.runProtected_raised (Moment.done_of_raised? h)
  unfold Serving.runRaising
  rw [run_bind, hrun]
  rfl

theorem raisesFrom_value (hs : e.Sound stack) (hr : Serving.Callable e r) {id : TypeId} {args : Row}
    (hm : (value id args).starts r e = some m) : (value id args).RaisesFrom r e stack m := by
  obtain ⟨values, e₁, heq, hcalling⟩ := momentAfter_eq_some hm
  have hconverted := (Serving.keeps_arguments r args).spec hs
  rw [heq] at hconverted
  obtain ⟨hs₁, h₁, hvalues⟩ := hconverted
  have hwork (v : Value) (hv : m.raised? = some v) : (value id args).work r e =
      ((.error (Engine.failureOf m.last.heap v), ()), m.last) := by
    subst hcalling
    show Engine.plainWork (Serving.callForValue r args) e = _
    unfold Engine.plainWork Serving.callForValue
    simp only [run_bind, heq, runRaising_raised hv]
  refine ⟨hcalling ▸ Engine.sound_calling hs₁ (h₁.admits hr) hvalues, fun v hv => ?_,
    fun v hv hp => ?_⟩
  · rw [hwork v hv]
  · rw [hwork v hv]
    exact hp

theorem raisesFrom_trigger (hs : e.Sound stack) (hr : Serving.Callable e r) {id : TypeId}
    {t : TriggerEvent} (hm : (trigger id t).starts r e = some m) :
    (trigger id t).RaisesFrom r e stack m := by
  obtain ⟨made, e₁, heq, hcalling⟩ := momentAfter_eq_some hm
  have hpublished := (Serving.keeps_publishEvent t).spec hs
  rw [heq] at hpublished
  obtain ⟨hs₁, h₁, -⟩ := hpublished
  have hargs : Script.AllOf e₁.Admits (t.args.map Value.ofText) := by
    intro v hv
    obtain ⟨text, -, rfl⟩ := List.mem_map.mp hv
    exact Engine.innate_admits e₁ _ rfl
  -- the global that describes the event is taken back when the function is done
  have hwork (v : Value) (hv : m.raised? = some v) : (trigger id t).work r e =
      ((.error (Engine.failureOf m.last.heap v), ()),
        { m.last with heap := m.last.heap.setGlobal Serving.triggerGlobal .nil }) := by
    subst hcalling
    show Engine.plainWork (Serving.callTrigger t r) e = _
    unfold Engine.plainWork Serving.callTrigger Serving.runTrigger Serving.attempt
    simp only [run_bind, heq, runRaising_raised hv]
    rfl
  refine ⟨hcalling ▸ Engine.sound_calling hs₁ (h₁.admits hr) hargs, fun v hv => ?_,
    fun v hv hp => ?_⟩
  · rw [hwork v hv]
  · rw [hwork v hv]
    exact hp

/-- A coroutine that ends with what its function has raised. -/
theorem answerRequest_raised {stack : List FrameId} (hm : m.Sound stack) (id : ExecutionId)
    (hv : m.raised? = some v) :
    (Engine.answerRequest r id m.done.1 m.done.2).1.1 =
        .error (Engine.failureOf m.last.heap v) ∧
      (m.last.poisoned = true →
        (Engine.answerRequest r id m.done.1 m.done.2).2.poisoned = true) := by
  have hs : m.last.Sound stack := hm.done.1
  rw [Moment.done_of_raised? hv]
  exact ⟨rfl, (Engine.endExecution_spec hs id).2.1.poisoned⟩

theorem raisesFrom_row (hs : e.Sound stack) (hr : Serving.Callable e r) {id : TypeId}
    {slot : SetCall} {args : Row} (hm : (row id slot args).starts r e = some m) :
    (row id slot args).RaisesFrom r e stack m := by
  -- a first request and a later one differ in where the coroutine comes from, not in what is made
  -- of it
  have hrequest {m : Moment} {x : ExecutionId} (hsound : m.Sound stack)
      (hwork : (row id slot args).work r e = Engine.answerRequest r x m.done.1 m.done.2) :
      (row id slot args).RaisesFrom r e stack m := by
    refine ⟨hsound, fun v hv => ?_, fun v hv => ?_⟩
    · rw [hwork]
      exact (answerRequest_raised hsound x hv).1
    · rw [hwork]
      exact (answerRequest_raised hsound x hv).2
  have hconverted := (Serving.keeps_arguments r args).spec hs
  cases slot with
  | ready =>
    obtain ⟨values, e₁, heq, rfl⟩ := momentAfter_eq_some hm
    rw [heq] at hconverted
    obtain ⟨hs₁, h₁, hvalues⟩ := hconverted
    have hall := List.forall_mem_cons.mpr ⟨h₁.admits hr, hvalues⟩
    exact hrequest (Engine.sound_resuming (Engine.opened_sound hs₁) _ fun v hv =>
      (Engine.restores_opened e₁).admits (hall v hv)) (Engine.request_ready heq)
  | suspended x =>
    obtain ⟨execution, hx, hstarts⟩ := Option.bind_eq_some_iff.mp hm
    obtain ⟨values, e₁, heq, rfl⟩ := momentAfter_eq_some hstarts
    rw [heq] at hconverted
    obtain ⟨hs₁, -, hvalues⟩ := hconverted
    exact hrequest (Engine.sound_resuming hs₁ _ hvalues) (Engine.request_suspended hx heq)
  | done => cases hm
  | failed => cases hm

theorem raisesFrom (hs : e.Sound stack) (hr : Serving.Callable e r) (c : Invocation α β)
    (hm : c.starts r e = some m) : c.RaisesFrom r e stack m := by
  cases c with
  | value id args => exact raisesFrom_value hs hr hm
  | row id slot args => exact raisesFrom_row hs hr hm
  | trigger id t => exact raisesFrom_trigger hs hr hm

/-- In an engine that is not poisoned in the end, a call fails with what the function of its routine
has raised. -/
theorem run_raised (hs : e.Sound stack) (c : Invocation α β) (hm : c.body? e = some m)
    (hp : (c.run e).2.poisoned = false) :
    (∃ frame, m.Sound (frame :: stack)) ∧ ∀ v, m.raised? = some v → m.last.poisoned = false ∧
      (c.run e).1.1 = .error (Engine.failureOf m.last.heap v) := by
  have hroutine := (Serving.keeps_routineFor c.kind c.routine).spec hs
  unfold body? at hm
  unfold run Engine.invoke at hp ⊢
  generalize Serving.routineFor c.kind c.routine e = found at hroutine hm hp ⊢
  obtain ⟨f | r, e₁⟩ := found
  · cases hm
  obtain ⟨hs₁, -, hr⟩ := hroutine
  have hraises := raisesFrom hs₁.entered (r := r) hr c hm
  refine ⟨⟨_, hraises.sound⟩, fun v hv => ?_⟩
  have hdone := c.work_worked hs₁.entered (r := r) hr
  obtain ⟨-, -, -, hanswer⟩ := Engine.inFrame_answer hs₁ hdone
  dsimp only at hp ⊢
  refine ⟨?_, (hanswer hp).trans (hraises.fails v hv)⟩
  have husable := Engine.usable_of_inFrame hs₁ hdone hp
  cases hlast : m.last.poisoned with
  | false => rfl
  | true => cases husable.symm.trans (hraises.poisoned v hv hlast)

/-- If a rollback has failed by the end of its function, a call fails for good, whatever the
function has raised. -/
theorem run_fatal (hs : e.Sound stack) (c : Invocation α β) (hm : c.body? e = some m)
    (hv : m.raised? = some v) (hp : m.last.poisoned = true) :
    ∃ f, (c.run e).1.1 = .error f ∧ f.isFatal = true := by
  have hpoisoned : (c.run e).2.poisoned = true := by
    by_contra husable
    obtain ⟨-, hraised⟩ := run_raised hs c hm (Bool.eq_false_iff.mpr husable)
    cases hp.symm.trans (hraised v hv).1
  obtain ⟨f, hfails, hfatal | ⟨found, hrefused⟩⟩ := run_error_of_poisoned c hpoisoned
  · exact ⟨f, hfails, hfatal⟩
  · -- the function has started, so the routine was there
    unfold body? at hm
    rw [hrefused] at hm
    cases hm

/-- What a call does with what is raised in it. Its function starts at the moment `m`. -/
structure Carries (c : Invocation α β) (e : Engine) (m : Moment) : Prop where
  /-- A failure that nobody catches is the failure of the call. -/
  uncaught : ∀ f, Relays f [] m → (c.run e).1.1 = .error f
  /-- A failure that is caught and raised again any number of times shows at all of them as one
  table, and the call fails with the report and the SQLSTATE of it. -/
  relayed : ∀ f levels, Relays f levels m → levels ≠ [] →
    ∃ id, (∀ s ∈ levels, s.Shows f id) ∧
      ∃ g, (c.run e).1.1 = .error g ∧ g.report = f.report ∧ g.sqlstate = f.sqlstate
  /-- What is raised in a protected call at any depth, and is no failure, is handed over as it is,
  unless a rollback has failed by then. -/
  unchanged : ∀ s v, m.Contains s → s.answer.2.poisoned = false → s.body.raised? = some v →
    (∀ f, v ≠ .failure f) →
      ∃ after, s.answer = (.ok [.bool false, v], after) ∧ after.heap = s.body.last.heap
  /-- A service fails with the failure that a function raises which it calls. -/
  wrapped : ∀ (call : Caller) (g : Value) (args : List Value) (e e' : Engine) (f : Failure),
    call g args e = (.failed (.failure f), e') →
      Serving.runUnprotected call g args e = (.error f, e')
  /-- `error` raises a table as it is. -/
  again : ∀ (h : Script.Heap) (control : Script.Control) (position : Nat) (id : TableId),
    Machine.hasRoom position [.table id] = true →
    control.focus = .call position (.builtin .error) [.table id] →
      Machine.step h control = .next h (control.withFocus (.raise (.table id)))

/-- Reports of failures survive that they are caught and raised again, as long as no rollback fails
in the engine. -/
theorem run_carries (he : e.Reachable) (c : Invocation α β) (hm : c.body? e = some m)
    (hp : (c.run e).2.poisoned = false) : c.Carries e m := by
  obtain ⟨⟨frame, hsound⟩, hraised⟩ := run_raised he.sound c hm hp
  refine ⟨fun f h => ?_, fun f levels h hlevels => ?_, fun s v hs hanswer hv hvalue => ?_,
    fun call g args e e' f hran => ?_, fun h control position id hroom hfocus => ?_⟩
  · obtain ⟨h⟩ := h
    exact (hraised _ h).2
  · obtain ⟨v, hv⟩ := h.raises
    obtain ⟨id, htable, hreport, hall⟩ := h.seen hsound (hraised v hv).1 hlevels
    have hfails := (hraised _ htable).2
    obtain ⟨hsame, hstate⟩ := f.report_again
    refine ⟨id, hall, .runtime f.report, ?_, hsame, hstate⟩
    rw [hfails, ← Engine.reportOf_eq hreport]
    rfl
  · obtain ⟨stack, hs', hbody⟩ := hsound.contains hs
    exact s.answer_value hs' hbody hv hvalue hanswer
  · unfold Serving.runUnprotected Serving.runFunction
    rw [run_bind, hran]
    rfl
  · unfold Machine.step
    rw [hfocus]
    show Machine.call h (control.withFocus (.give [])) position (.builtin .error) [.table id] = _
    unfold Machine.call
    rw [hroom]
    rfl

/-! ### A script that hands a failure on -/

/-- Without arguments a function starts with the globals that the host has left, if the body of its
routine is enclosed. -/
theorem defines_body? {id : TypeId} {fields : List (String × Value)}
    (hd : ∀ d, e.host.lookupRoutine id = some d → d.Enclosed) (hdefines : e.heap.Defines fields)
    (hm : (value id []).body? e = some m) : m.engine.heap.Defines fields := by
  have huntouched : e.Untouched (Serving.routineFor (value id []).kind id e).2 :=
    Serving.routineFor_untouched hd
  unfold body? at hm
  change (match Serving.routineFor (value id []).kind id e with
    | (.ok r, found) => (value id []).starts r found.entered
    | (.error _, _) => none) = some m at hm
  generalize Serving.routineFor (value id []).kind id e = found at huntouched hm
  obtain ⟨f | r, e₁⟩ := found
  · cases hm
  obtain ⟨values, e₂, hargs, rfl⟩ := momentAfter_eq_some hm
  -- there is nothing to convert
  have hsame : e₂ = e₁.entered := by
    unfold Serving.arguments at hargs
    split at hargs
    · cases hargs
    · exact (congrArg Prod.snd hargs).symm
  obtain ⟨_, _, _, _, _, rfl⟩ := huntouched
  subst hsame
  exact hdefines.of_tables rfl rfl

/-- A function that a protected call is given, and that is none. -/
def noFunction : Failure :=
  .invalidArgument "subtransaction expects a function as its first argument"

/-- First a protected call fails, and its failure is caught by `pcall` and forgotten. Then one fails
in the function of another one, and what the script gets is raised again in both. -/
def relayingScript : String :=
  "local s, r, p = subtransaction, error, pcall p(s, s) " ++
    "local ok, e = s(function() local ok, v = s(s) r(v) end) r(e)"

/-- The globals that the script uses. -/
def relayingGlobals : List (String × Value) :=
  [("subtransaction", .service (.protectedCall true)), ("error", .builtin .error),
    ("pcall", .builtin .pcall)]

/-- A new engine whose host has a function of the script, and may have been told to fail the next
rollback. -/
def relaying (failRollback : Bool) : Engine :=
  let d : RoutineDefinition := { yieldingOut with source := relayingScript, returnsSet := false }
  { Engine.bare {} Host.new with host := { (Host.new.createRoutine d).2 with failRollback } }

/-- The call of the function. -/
def called : Invocation (Option Datum) Unit := .value Host.firstId []

/-- The moment at which the function starts. -/
def start (e : Engine) : Moment := (called.body? e).getD ⟨0, { focus := .give [] }, e⟩

section

variable (failRollback : Bool)

theorem relaying_reachable : (relaying failRollback).Reachable := by
  have hstart : Engine.start {} Host.new = (.ok (Engine.bare {} Host.new), Host.new) := rfl
  have hnew : (Engine.bare {} Host.new).Reachable := .start ⟨rfl, rfl⟩ hstart
  exact hnew.host ⟨rfl, rfl⟩

theorem body?_relaying :
    called.body? (relaying failRollback) = some (start (relaying failRollback)) := by
  have hstarts : (called.body? (relaying failRollback)).isSome = true := by
    cases failRollback <;> decide +kernel
  obtain ⟨m, hm⟩ := Option.isSome_iff_exists.mp hstarts
  unfold start
  rw [hm, Option.getD_some]

theorem relaying_enclosed {d : RoutineDefinition}
    (hd : (relaying failRollback).host.lookupRoutine Host.firstId = some d) : d.Enclosed := by
  cases failRollback <;> cases hd <;> decide +kernel

/-- The globals of the script are those of a new engine. -/
theorem global_start : ∀ f ∈ relayingGlobals,
    (start (relaying failRollback)).engine.heap.global f.1 = f.2 := by
  have hall := defines_body? (fun d => relaying_enclosed failRollback)
    (Engine.bare_defines {} Host.new) (body?_relaying failRollback)
  refine fun f hf => hall.global f ?_
  simp only [relayingGlobals, List.mem_cons, List.not_mem_nil, or_false] at hf
  rcases hf with rfl | rfl | rfl
  · exact List.mem_append_left _ (by simp [Engine.globalServices])
  · exact List.mem_append_right _ (List.mem_of_getElem?
      (show (Script.Library.globalFields true)[1]? = some _ from rfl))
  · exact List.mem_append_right _ (List.mem_of_getElem?
      (show (Script.Library.globalFields true)[6]? = some _ from rfl))

/-- The moment at which the first failure has been forgotten. -/
def forgotten : Moment :=
  (((start (relaying failRollback)).coasted relayingGlobals).next?).getD
    (start (relaying failRollback))

theorem next?_start : (start (relaying failRollback)).next? = some (forgotten failRollback) := by
  have hnext : ((start (relaying failRollback)).coasted relayingGlobals).next?.isSome = true := by
    cases failRollback <;> decide +kernel
  obtain ⟨m, hm⟩ := Option.isSome_iff_exists.mp hnext
  unfold Moment.next? forgotten
  rw [Moment.turn_eq_coasted (global_start failRollback), hm, Option.getD_some]

theorem relays_relaying : ∃ levels, levels.length = 2 ∧
    Relays noFunction levels (start (relaying failRollback)) := by
  have hrelays : relays noFunction 2 (forgotten failRollback) = true := by
    cases failRollback <;> decide +kernel
  obtain ⟨levels, hlength, hlevels⟩ := exists_relays hrelays
  exact ⟨levels, hlength, hlevels.of_next? (next?_start failRollback)⟩

end

/-- What the script hands on is a chain of two protected calls. -/
theorem run_carries_relaying :
    (∃ levels, levels.length = 2 ∧ Relays noFunction levels (start (relaying false))) ∧
      called.Carries (relaying false) (start (relaying false)) := by
  have he := relaying_reachable false
  have husable : (called.run (relaying false)).2.poisoned = false :=
    (run_usable he.sound rfl called fun hfailed => absurd hfailed.1 Bool.false_ne_true).1
  exact ⟨relays_relaying false, run_carries he called (body?_relaying false) husable⟩

/-- If a rollback has failed, even of a protected call whose failure was caught and forgotten, the
call does not fail with the report that is handed on. -/
theorem relays_not_always_reported : ¬ ∀ (c : Invocation (Option Datum) Unit) (e : Engine)
    (m : Moment) (f : Failure) (levels : List Subtransaction), e.Reachable →
      c.body? e = some m → f.isFatal = false → Relays f levels m → levels ≠ [] →
        ∃ g, (c.run e).1.1 = .error g ∧ g.report = f.report ∧ g.sqlstate = f.sqlstate := by
  intro hall
  have he := relaying_reachable true
  have hbody := body?_relaying true
  obtain ⟨levels, hlength, hrelays⟩ := relays_relaying true
  obtain ⟨g, hfails, -, hstate⟩ := hall called _ _ noFunction levels he hbody rfl hrelays
    (List.ne_nil_of_length_pos (by omega))
  have hpoisoned : (start (relaying true)).last.poisoned = true := by
    have hlast : (start (relaying true)).last = (forgotten true).last :=
      congrArg Prod.snd (Moment.done_next? (next?_start true))
    have hforgotten : (forgotten true).last.poisoned = true := by decide +kernel
    rw [hlast, hforgotten]
  obtain ⟨v, hv⟩ := hrelays.raises
  obtain ⟨g', hfails', hfatal⟩ := run_fatal he.sound called hbody hv hpoisoned
  obtain rfl : g = g' := Except.error.inj (hfails.symm.trans hfails')
  cases g with
  | fatal text =>
    have hcodes : "XX000" = noFunction.sqlstate := hstate
    exact absurd hcodes (by decide)
  | _ => cases hfatal

end Invocation

end StoredRoutine
