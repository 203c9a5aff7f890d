import StoredRoutine.Proofs.Engine.Isolation
import StoredRoutine.Proofs.Script.Coasting

/-!
# `StoredRoutine.Proofs.Engine.Moments`: the moments of a run

`Engine.run` goes from turn to turn and answers services on the way. What it has in its hands
between two turns is a `Moment`. A turn goes on, ends the run, or comes to a service
(`Moment.turn`), and what a run comes to is what it comes to from any of its moments on
(`Moment.done_next?`, `Moment.Reaches.done_eq`). So there is something to be said about what lies
between the start of a run and its end.

A `Subtransaction` is a protected call that a run has come to, and its body is the first moment of
the run of its function. Runs are nested in runs in this way, to any depth. The invariant of the
engine holds at every moment (`Moment.Sound.reaches`) and at the start of every body
(`Moment.Sound.body`).
-/

set_option autoImplicit false

namespace StoredRoutine

open Engine (countTurn nestedControl stepsAtOnce turnsExhausted)
open Script (AllOf Control Ending Machine.advance Machine.coast Machine.ticks Service Value)

/-- A run between two turns. -/
structure Moment where
  /-- How many turns are left. -/
  turns : Nat
  control : Control
  engine : Engine

/-- What a turn comes to. -/
inductive Turn where
  | ended (ending : Ending) (e : Engine)
  | next (m : Moment)
  /-- A service is asked for, whose function is at a position of the stack. The moment waits. -/
  | request (service : Service) (args : List Value) (position : Nat) (m : Moment)

/-- What is made of the steps of a turn. `e` is the engine before them. -/
def Turn.ofStep (turns : Nat) (e : Engine) (left : Nat) : Script.Step → Turn
  | .next heap c =>
    let e := { e with heap }.countTurn left
    if left ≤ Machine.ticks c then .next ⟨turns, (e.look c).1, (e.look c).2⟩
    else .next ⟨turns, c, e⟩
  | .ended ending heap => .ended ending ({ e with heap }.countTurn left)
  | .request s args position heap c =>
    .request s args position ⟨turns, c, { e with heap }.countTurn left⟩

namespace Moment

variable {m m' m'' : Moment} {stack : List FrameId}

/-- Takes a turn. -/
def turn (m : Moment) : Turn :=
  match m.turns with
  | 0 => .ended (.failed (.failure turnsExhausted)) m.engine
  | turns + 1 =>
    let stepped := Machine.advance stepsAtOnce m.engine.instructionsDue m.engine.heap m.control
    .ofStep turns m.engine stepped.1 stepped.2

/-- What runs the functions that a service calls for a moment that waits. -/
def caller (m : Moment) (position : Nat) : Caller :=
  Engine.nestedCaller m.turns m.control position

/-- A moment that waits for a service goes on with its answer. -/
def goOn (m : Moment) : Outcome (List Value) × Engine → Moment
  | (.ok values, e) => ⟨m.turns, m.control.withFocus (.give values), e⟩
  | (.error f, e) => ⟨m.turns, m.control.withFocus (.raise (.failure f)), e⟩

/-- What the run comes to. -/
def done (m : Moment) : Ending × Engine := Engine.run m.turns m.control m.engine

/-- The engine at the end of the run. -/
def last (m : Moment) : Engine := m.done.2

/-- What a function has raised that is run by `pcall`. -/
def raised? (m : Moment) : Option Value :=
  match m.done.1 with
  | .finished [.bool false, v] => some v
  | _ => none

theorem done_of_raised? {v : Value} (h : m.raised? = some v) :
    m.done = (.finished [.bool false, v], m.last) := by
  unfold raised? at h
  split at h
  next heq =>
    cases h
    exact Prod.ext heq rfl
  · cases h

end Moment

namespace Turn

/-- The moment after a turn, if the run goes on. -/
def next? : Turn → Option Moment
  | .ended .. => none
  | .next m => some m
  | .request s args position w =>
    some (w.goOn (Serving.serve (w.caller position) s args w.engine))

/-- What the run comes to after a turn. -/
def done : Turn → Ending × Engine
  | .ended ending e => (ending, e)
  | .next m => m.done
  | .request s args position w =>
    (w.goOn (Serving.serve (w.caller position) s args w.engine)).done

theorem done_next? {t : Turn} {m : Moment} (h : t.next? = some m) : t.done = m.done := by
  cases t with
  | ended ending e => cases h
  | next m => exact congrArg Moment.done (Option.some.inj h)
  | request s args position w => exact congrArg Moment.done (Option.some.inj h)

/-- The steps of a turn lead to where a run goes on. -/
theorem run_succ (turns : Nat) (c : Control) (e : Engine) :
    Engine.run (turns + 1) c e =
      (ofStep turns e (Machine.advance stepsAtOnce e.instructionsDue e.heap c).1
        (Machine.advance stepsAtOnce e.instructionsDue e.heap c).2).done := by
  rw [Engine.run]
  dsimp only
  generalize Machine.advance stepsAtOnce e.instructionsDue e.heap c = stepped
  obtain ⟨left, step⟩ := stepped
  cases step with
  | ended ending heap => rfl
  | next heap c' =>
    unfold ofStep
    dsimp only
    split <;> rfl
  | request s args position heap c' =>
    unfold ofStep done Moment.goOn Moment.caller Engine.nestedCaller
    dsimp only
    generalize Serving.serve _ s args _ = served
    obtain ⟨values | f, e'⟩ := served <;> rfl

end Turn

namespace Moment

variable {m m' m'' : Moment} {stack : List FrameId}

/-- The next moment of a run that goes on. -/
def next? (m : Moment) : Option Moment := m.turn.next?

theorem done_eq_turn (m : Moment) : m.done = m.turn.done := by
  obtain ⟨turns, c, e⟩ := m
  cases turns with
  | zero => rfl
  | succ turns => exact Turn.run_succ turns c e

/-- A run comes to what it comes to from its next moment on. -/
theorem done_next? (h : m.next? = some m') : m.done = m'.done :=
  (done_eq_turn m).trans (Turn.done_next? h)

/-! ### Moments of one run -/

/-- One moment of a run comes after another, or is the same. -/
inductive Reaches : Moment → Moment → Prop where
  | refl (m : Moment) : Reaches m m
  | next {m m' m'' : Moment} (h : m.next? = some m') (hrest : Reaches m' m'') : Reaches m m''

theorem Reaches.done_eq (h : m.Reaches m') : m.done = m'.done := by
  induction h with
  | refl m => rfl
  | next h _ ih => exact (done_next? h).trans ih

/-! ### The invariant -/

/-- The engine is sound at the moment, and the control has only values that the engine admits. -/
structure Sound (m : Moment) (stack : List FrameId) : Prop where
  engine : m.engine.Sound stack
  control : m.control.Holds m.engine.Admits

/-- The invariant of a moment that waits. -/
structure Waits (m : Moment) (stack : List FrameId) : Prop where
  engine : m.engine.Sound stack
  control : m.control.Waits m.engine.Admits

theorem Sound.done (hm : m.Sound stack) : m.engine.Ran stack m.done :=
  Engine.run_keeps m.turns hm.engine hm.control

/-- What the invariant says of a turn that starts in the engine `e`. -/
def TurnSound (e : Engine) (stack : List FrameId) : Turn → Prop
  | .ended .. => True
  | .next m => m.Sound stack ∧ e.Follows m.engine
  | .request _ args _ w =>
    w.Waits stack ∧ AllOf w.engine.Admits args ∧ e.Follows w.engine

/-- A turn keeps the invariant. -/
theorem Sound.turn (hm : m.Sound stack) : TurnSound m.engine stack m.turn := by
  obtain ⟨turns, c, e⟩ := m
  obtain ⟨hs, hc⟩ := hm
  cases turns with
  | zero => trivial
  | succ turns =>
    have hstepped := Script.Machine.advance_holds (Engine.innate_admits e) stepsAtOnce
      e.instructionsDue (hs.heap.conforms e.admits_table) hc
    unfold Moment.turn
    dsimp only
    generalize Machine.advance stepsAtOnce e.instructionsDue e.heap c = stepped at hstepped ⊢
    obtain ⟨left, step⟩ := stepped
    cases step with
    | ended ending heap => trivial
    | next heap c' =>
      obtain ⟨hh, hc'⟩ := hstepped
      have hs₁ := hs.turn hh left
      have h₁ := e.follows_turn heap left
      unfold Turn.ofStep
      dsimp only
      split
      · obtain ⟨hs₂, h₂, hc₂⟩ := Engine.look_spec hs₁ hc'
        exact ⟨⟨hs₂, hc₂⟩, h₁.trans h₂⟩
      · exact ⟨⟨hs₁, hc'⟩, h₁⟩
    | request s args position heap c' =>
      obtain ⟨-, hargs, hh, hc'⟩ := hstepped
      exact ⟨⟨hs.turn hh left, hc'⟩, hargs, e.follows_turn heap left⟩

theorem Waits.goOn (hm : m.Waits stack) {answer : Outcome (List Value) × Engine}
    (hs : answer.2.Sound stack) (hfollows : m.engine.Follows answer.2)
    (hanswer : Serving.Answers Serving.Results answer.2 answer.1) :
    (m.goOn answer).Sound stack := by
  obtain ⟨outcome, e⟩ := answer
  have hc : m.control.Waits e.Admits := hm.control.mono fun v hv => hfollows.admits hv
  cases outcome with
  | ok values =>
    have hfocus : Script.Focus.Holds e.Admits (.give values) := hanswer
    exact ⟨hs, hc.withFocus hfocus⟩
  | error f =>
    have hfocus : Script.Focus.Holds e.Admits (.raise (.failure f)) := hanswer
    exact ⟨hs, hc.withFocus hfocus⟩

theorem engine_goOn (m : Moment) (answer : Outcome (List Value) × Engine) :
    (m.goOn answer).engine = answer.2 := by
  obtain ⟨outcome, e⟩ := answer
  cases outcome <;> rfl

theorem Sound.next (hm : m.Sound stack) (h : m.next? = some m') :
    m'.Sound stack ∧ m.engine.Follows m'.engine := by
  have hturn := hm.turn
  unfold next? at h
  generalize m.turn = turn at hturn h
  cases turn with
  | ended ending e => cases h
  | next m' =>
    cases h
    exact hturn
  | request s args position w =>
    obtain rfl := Option.some.inj h
    obtain ⟨hw, hargs, hfollows⟩ := hturn
    obtain ⟨hs, hserved, hanswer⟩ :=
      (Serving.keeps_serve (Engine.nestedCaller_keeps w.turns w.control position) s hargs).spec
        hw.engine
    refine ⟨hw.goOn hs hserved hanswer, ?_⟩
    rw [engine_goOn]
    exact hfollows.trans hserved

/-- All moments of a run are sound. -/
theorem Sound.reaches (hm : m.Sound stack) (h : m.Reaches m') :
    m'.Sound stack ∧ m.engine.Follows m'.engine := by
  induction h with
  | refl m => exact ⟨hm, .refl m.engine⟩
  | next h _ ih =>
    obtain ⟨hm', hfollows⟩ := hm.next h
    obtain ⟨hm'', hfollows'⟩ := ih hm'
    exact ⟨hm'', hfollows.trans hfollows'⟩

end Moment

/-! ### Protected calls -/

/-- A protected call that a run has come to, and that starts. -/
structure Subtransaction where
  function : Value
  args : List Value
  /-- Where the protected call is on the stack. -/
  position : Nat
  /-- The moment that waits for it. -/
  outer : Moment

namespace Subtransaction

/-- What the protected call answers, and the engine after it. -/
def answer (s : Subtransaction) : Outcome (List Value) × Engine :=
  Serving.underSavepoint (s.outer.caller s.position) s.function s.args s.outer.engine

/-- The first moment of its function, which `pcall` runs. -/
def body (s : Subtransaction) : Moment where
  turns := s.outer.turns
  control := nestedControl s.outer.control s.position (.builtin .pcall) (s.function :: s.args)
  engine := s.outer.engine.begun

/-- The value that the script gets for what the function has raised. -/
def received (s : Subtransaction) : Value :=
  match s.answer.1 with
  | .ok (_ :: v :: _) => v
  | _ => .nil

end Subtransaction

namespace Moment

variable {m m' : Moment} {stack : List FrameId} {s : Subtransaction}

/-- The protected call to which the next turn comes. A call that is refused does not start: its
first argument is no function, or there is no transaction. -/
def subtransaction? (m : Moment) : Option Subtransaction :=
  match m.turn with
  | .request (.protectedCall _) (f :: args) position w =>
    if f.isFunction && w.engine.host.inTransaction then some ⟨f, args, position, w⟩ else none
  | _ => none

theorem turn_of_subtransaction? (h : m.subtransaction? = some s) :
    (∃ asGlobal, m.turn =
      .request (.protectedCall asGlobal) (s.function :: s.args) s.position s.outer) ∧
    s.function.isFunction = true ∧ s.outer.engine.host.inTransaction = true := by
  unfold subtransaction? at h
  split at h
  next asGlobal f args position w heq =>
    split at h
    next hstarts =>
      cases h
      obtain ⟨hf, htransaction⟩ := Bool.and_eq_true_iff.mp hstarts
      exact ⟨⟨asGlobal, heq⟩, hf, htransaction⟩
    · cases h
  · cases h

/-- The run goes on with what the protected call answers. -/
theorem next?_of_subtransaction? (h : m.subtransaction? = some s) :
    m.next? = some (s.outer.goOn s.answer) := by
  obtain ⟨⟨asGlobal, hturn⟩, hf, htransaction⟩ := turn_of_subtransaction? h
  have hserved : Serving.protectedCall (s.outer.caller s.position) (s.function :: s.args)
      s.outer.engine = s.answer := Engine.protectedCall_eq hf htransaction s.args
  unfold next?
  rw [hturn]
  exact congrArg (fun served => some (s.outer.goOn served)) hserved

/-- What a run comes to is what it comes to after a protected call. -/
theorem Reaches.done_eq_goOn (hreach : m.Reaches m') (h : m'.subtransaction? = some s) :
    m.done = (s.outer.goOn s.answer).done :=
  hreach.done_eq.trans (done_next? (next?_of_subtransaction? h))

theorem Sound.outer (hm : m.Sound stack) (h : m.subtransaction? = some s) :
    s.outer.Waits stack ∧ AllOf s.outer.engine.Admits (s.function :: s.args) := by
  obtain ⟨⟨asGlobal, hturn⟩, -⟩ := turn_of_subtransaction? h
  have hsound := hm.turn
  rw [hturn] at hsound
  exact ⟨hsound.1, hsound.2.1⟩

/-- The function of a protected call starts in a frame of its own, at a moment that is sound. -/
theorem Sound.body (hm : m.Sound stack) (h : m.subtransaction? = some s) :
    s.body.Sound (s.outer.engine.arena.pushFrame.1 :: stack) := by
  obtain ⟨hw, hargs⟩ := hm.outer h
  have hpcall : s.outer.engine.begun.Admits (.builtin .pcall) := Engine.innate_admits _ _ rfl
  exact ⟨hw.engine.begun, Engine.holds_nestedControl (Engine.innate_admits _) _ _ hpcall hargs⟩

/-- What a protected call leaves poisoned stays so until the run ends. -/
theorem Sound.usable (hm : m.Sound stack) (hreach : m.Reaches m')
    (h : m'.subtransaction? = some s) (hp : m.last.poisoned = false) :
    s.answer.2.poisoned = false := by
  obtain ⟨hm', -⟩ := hm.reaches hreach
  obtain ⟨hm'', -⟩ := hm'.next (next?_of_subtransaction? h)
  have hlast : m.last = (s.outer.goOn s.answer).last := congrArg Prod.snd (hreach.done_eq_goOn h)
  cases hpoisoned : s.answer.2.poisoned with
  | false => rfl
  | true =>
    rw [← engine_goOn] at hpoisoned
    have hended : (s.outer.goOn s.answer).last.poisoned = true := hm''.done.2.1.poisoned hpoisoned
    rw [hlast] at hp
    cases hp.symm.trans hended

end Moment

/-- A protected call starts in a run, or in the run of the function of another one, at any depth. -/
inductive Moment.Contains : Moment → Subtransaction → Prop where
  | here {m m' : Moment} {s : Subtransaction} (hreach : m.Reaches m')
    (hcalled : m'.subtransaction? = some s) : Contains m s
  | inside {m m' : Moment} {around s : Subtransaction} (hreach : m.Reaches m')
    (hcalled : m'.subtransaction? = some around) (hrest : Contains around.body s) : Contains m s

/-- Every protected call starts in a sound engine. -/
theorem Moment.Sound.contains {m : Moment} {s : Subtransaction} {stack : List FrameId}
    (hm : m.Sound stack) (h : m.Contains s) : ∃ stack, s.outer.engine.Sound stack ∧
      s.body.Sound (s.outer.engine.arena.pushFrame.1 :: stack) := by
  induction h generalizing stack with
  | here hreach hcalled =>
    obtain ⟨hm', -⟩ := hm.reaches hreach
    exact ⟨stack, (hm'.outer hcalled).1.engine, hm'.body hcalled⟩
  | inside hreach hcalled _ ih => exact ih ((hm.reaches hreach).1.body hcalled)

/-- The protected calls to which a run comes in so many turns. -/
def Moment.subtransactions : Nat → Moment → List Subtransaction
  | 0, _ => []
  | n + 1, m => m.subtransaction?.toList ++ (m.next?.map (subtransactions n)).getD []

theorem Moment.reaches_of_mem {n : Nat} {m : Moment} {s : Subtransaction}
    (h : s ∈ m.subtransactions n) : ∃ m', m.Reaches m' ∧ m'.subtransaction? = some s := by
  induction n generalizing m with
  | zero => cases h
  | succ n ih =>
    rcases List.mem_append.mp h with h | h
    · exact ⟨m, .refl m, Option.mem_toList.mp h⟩
    · cases hnext : m.next? with
      | none =>
        rw [hnext] at h
        cases h
      | some m' =>
        rw [hnext] at h
        obtain ⟨m'', hreach, hcalled⟩ := ih h
        exact ⟨m'', .next hnext hreach, hcalled⟩

/-! ### Coasting -/

namespace Moment

variable {m : Moment}

/-- The turn of a moment, from where the machine has coasted to. -/
def coasted (known : List (String × Value)) (m : Moment) : Turn :=
  match m.turns with
  | 0 => m.turn
  | turns + 1 =>
    let (fuel, left, c) := Machine.coast known m.engine.heap stepsAtOnce m.engine.instructionsDue
      m.control
    let stepped := Machine.advance fuel left m.engine.heap c
    .ofStep turns m.engine stepped.1 stepped.2

theorem turn_eq_coasted {known : List (String × Value)}
    (hknown : ∀ f ∈ known, m.engine.heap.global f.1 = f.2) : m.turn = m.coasted known := by
  obtain ⟨turns, c, e⟩ := m
  cases turns with
  | zero => rfl
  | succ turns =>
    have hcoast := Script.Machine.advance_coast hknown stepsAtOnce e.instructionsDue c
    unfold turn coasted
    dsimp only
    rw [hcoast]

/-- The machine coasts to the end of the run. -/
def settles (m : Moment) : Bool :=
  Script.Machine.settles m.engine.heap stepsAtOnce m.engine.instructionsDue m.control

/-- The heap stays as it is. -/
theorem last_heap_of_settles (h : m.settles = true) : m.last.heap = m.engine.heap := by
  obtain ⟨turns, c, e⟩ := m
  obtain ⟨left, ending, hends⟩ := Script.Machine.advance_settles h
  unfold last
  rw [done_eq_turn]
  cases turns with
  | zero => rfl
  | succ turns =>
    unfold turn
    dsimp only
    rw [hends]
    rfl

end Moment

/-- What `pcall` has caught is what the protected function has raised. -/
theorem Serving.runProtected_raised {call : Caller} {f v : Value} {args : List Value}
    {e e' : Engine}
    (hran : call (.builtin .pcall) (f :: args) e = (.finished [.bool false, v], e')) :
    runProtected call f args e = (.ok (.error v), e') := by
  unfold runProtected runUnprotected runFunction attempt
  simp only [run_bind, hran]
  rfl

namespace Subtransaction

open Serving (caught)

variable {s : Subtransaction} {stack : List FrameId} {v : Value}

/-- The function has raised something, and the engine is usable after that: so the rollback has gone
well, and the script gets what is made of what was raised. -/
theorem answer_eq (hs : s.outer.engine.Sound stack)
    (hbody : s.body.Sound (s.outer.engine.arena.pushFrame.1 :: stack))
    (hraised : s.body.raised? = some v) (hp : s.answer.2.poisoned = false) :
    ∃ arena host, s.answer = (do return [.bool false, ← caught v] : Serving (List Value))
      { s.body.last with arena, host } := by
  have hdone : Serving.runProtected (s.outer.caller s.position) s.function s.args
      s.outer.engine.begun = (.ok (.error v), s.body.last) :=
    Serving.runProtected_raised (Moment.done_of_raised? hraised)
  obtain ⟨hs', hin, hending⟩ : s.outer.engine.begun.Ran _ (s.body.done.1, s.body.last) := hbody.done
  have hadmitted : s.body.last.Admits v := by
    rw [Moment.done_of_raised? hraised] at hending
    exact hending v (by simp)
  have hanswer : s.answer = Serving.undoWork s.outer.engine.arena.pushFrame.1
      s.outer.engine.host.nextNumber v s.body.last :=
    Serving.underSavepoint_eq hs.host hdone
  rw [hanswer] at hp ⊢
  cases hfatal : (Engine.failureOf s.body.last.heap v).isFatal with
  | true =>
    -- a fatal failure is raised in a poisoned engine only
    obtain ⟨arena, hrun, -⟩ := Serving.undoWork_of_isFatal hs hin hs' hadmitted hfatal
    rw [hrun] at hp
    have hpoisoned := hadmitted _ (Engine.eq_failure_of_isFatal hfatal) hfatal
    cases hp.symm.trans hpoisoned
  | false =>
    cases hrollback :
        (s.body.last.host.rollbackSavepoint s.outer.engine.host.nextNumber).1 with
    | error fault =>
      obtain ⟨arena, host, hrun, -⟩ := Serving.undoWork_of_fault hs hin hs' hfatal hrollback
      rw [hrun] at hp
      cases hp
    | ok _ =>
      obtain ⟨arena, host, hrun, -⟩ := Serving.undoWork_eq hs hin hs' hfatal hrollback
      exact ⟨arena, host, hrun⟩

end Subtransaction

end StoredRoutine
