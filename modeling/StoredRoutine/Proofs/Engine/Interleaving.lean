import StoredRoutine.Proofs.Engine.Served
import StoredRoutine.Proofs.Engine.Sessions

/-!
# `StoredRoutine.Proofs.Engine.Interleaving`: interleaved scans are independent

A host can have any number of scans open on one engine, go on with whichever it wants, and abandon
some while others wait. `Scanning.history` is what it sees of one of its slots: the answers to the
requests of the slot, and the phases that the slot goes through.

The slots of such a host are apart (`Scanning.Apart`): each names a coroutine of its own, which is
the one that the scan of the slot would have if it were alone. One step keeps this, and what the
host sees of the step is what the scan says (`Apart.step`). So by induction the history of a slot is
the course of its scan, which depends on the steps of this slot alone (`Apart.history_eq`).

The requests are those of `Engine.nextBy`. They differ from the requests of the engine in nothing
but what runs the coroutines (`Engine.next_eq_nextBy`).
-/

set_option autoImplicit false

namespace StoredRoutine

open Script (ThreadId Value)

/-- What a host can tell of a call. -/
inductive Phase where
  | ready
  /-- The call waits after a row. -/
  | waiting
  | done
  | failed
  deriving Repr, DecidableEq

/-- The phase of a slot, without the name of its execution. -/
def SetCall.phase : SetCall → Phase
  | .ready => .ready
  | .suspended _ => .waiting
  | .done => .done
  | .failed => .failed

/-- What a host does with a slot. -/
inductive ScanStep where
  /-- Asks for the next row. -/
  | next (id : TypeId) (args : Row)
  | abandon

/-- What a host sees of a step: the answer, if it was a request, and the phase of the slot. -/
abbrev Seen : Type := Option (Outcome SetAnswer) × Phase

/-! ### One scan -/

namespace Scan

variable {σ : Type}

def phase : Scan σ → Phase
  | .ready => .ready
  | .waiting _ => .waiting
  | .done => .done
  | .failed => .failed

/-- One step of a scan, in an engine of which it needs what requests look at. -/
def step (s : Scripts σ) (e : Engine) (k : Scan σ) :
    ScanStep → Option (Outcome SetAnswer) × Scan σ
  | .next id args => (some (s.ask e id args k).1, (s.ask e id args k).2)
  | .abandon => (none, k.abandoned)

/-- What is seen of a scan, step by step. -/
def course (s : Scripts σ) (e : Engine) : Scan σ → List ScanStep → List Seen
  | _, [] => []
  | k, a :: rest =>
    let stepped := k.step s e a
    (stepped.1, stepped.2.phase) :: course s e stepped.2 rest

end Scan

/-- A slot and the scan of it are in the same phase. -/
theorem Engine.Stands.phase_eq {σ : Type} {e : Engine} {w : ThreadId → σ} {slot : SetCall}
    {k : Scan σ} (h : Engine.Stands e w slot k) : slot.phase = k.phase := by
  cases h <;> rfl

/-! ### Many scans on one engine -/

/-- An engine whose routines share nothing, with the coroutines of its calls, and the slots that its
host keeps. `ι` are the names that the host has for its slots. -/
structure Scanning (ι σ : Type) where
  engine : Engine
  world : ThreadId → σ
  slots : ι → SetCall

namespace Scanning

variable {ι σ : Type} [DecidableEq ι]

/-- No slot has been used. -/
def begin (e : Engine) (world : ThreadId → σ) : Scanning ι σ :=
  { engine := e, world, slots := fun _ => .ready }

/-- One step of the host. -/
def step (s : Scripts σ) (z : Scanning ι σ) (i : ι) :
    ScanStep → Option (Outcome SetAnswer) × Scanning ι σ
  | .next id args =>
    let done := Engine.nextBy s.look s.resumer z.engine id (z.slots i, z.world) args
    (some done.1.1, ⟨done.2, done.1.2.2, Function.update z.slots i done.1.2.1⟩)
  | .abandon =>
    let done := z.engine.abandon (z.slots i)
    (none, ⟨done.2, z.world, Function.update z.slots i done.1⟩)

/-- What the host sees of one of its slots while it makes steps with any of them. -/
def history (s : Scripts σ) (i : ι) : Scanning ι σ → List (ι × ScanStep) → List Seen
  | _, [] => []
  | z, (j, a) :: rest =>
    let stepped := z.step s j a
    if j = i then (stepped.1, (stepped.2.slots i).phase) :: history s i stepped.2 rest
    else history s i stepped.2 rest

/-- The slots do not share executions, and each stands where its scan `k i` would be alone in the
engine `e`. -/
structure Apart (s : Scripts σ) (e : Engine) (k : ι → Scan σ) (z : Scanning ι σ) : Prop where
  sound : z.engine.Sound []
  threaded : z.engine.Threaded
  alike : s.Alike e z.engine
  distinct : ∀ i j x, z.slots i = .suspended x → z.slots j = .suspended x → i = j
  stands : ∀ i, Engine.Stands z.engine z.world (z.slots i) (k i)

variable {s : Scripts σ} {e e' : Engine} {k : ι → Scan σ} {z : Scanning ι σ}

omit [DecidableEq ι] in
/-- The next name is that of no slot. -/
theorem Apart.ne_started (h : z.Apart s e k) (i : ι) :
    z.slots i ≠ .suspended ⟨z.engine.started + 1⟩ := by
  intro hi
  obtain ⟨execution, hx⟩ := (h.stands i).execution? hi
  exact Engine.ne_started h.sound hx rfl

omit [DecidableEq ι] in
/-- The execution that a step of a slot is about is that of no other slot. -/
theorem Apart.ne_ownOf (h : z.Apart s e k) {i j : ι} (hij : i ≠ j) :
    z.slots i ≠ .suspended (z.engine.ownOf (z.slots j)) := by
  cases hj : z.slots j with
  | suspended x => exact fun hi => hij (h.distinct i j x hi hj)
  | ready => exact h.ne_started i
  | done => exact h.ne_started i
  | failed => exact h.ne_started i

/-- Something has happened to one slot that spares the other executions. -/
theorem Apart.moved (h : z.Apart s e k) {j : ι} {w : ThreadId → σ} {slot : SetCall}
    {answer : Outcome SetAnswer} {next : Outcome SetAnswer × Scan σ} (hs : e'.Sound [])
    (hadvances : Engine.Advances (z.slots j) z.engine.executions z.engine.started slot
      e'.executions e'.started)
    (hserved : z.engine.Served s (z.engine.ownOf (z.slots j)) z.world next
      ((answer, slot, w), e')) :
    Apart s e (Function.update k j next.2) ⟨e', w, Function.update z.slots j slot⟩ where
  sound := hs
  threaded := hserved.threaded
  alike := h.alike.trans hserved.alike
  distinct := by
    -- an execution that the slot has after the step is its own, or has just got its name
    have hother (i : ι) (hij : i ≠ j) (x : ExecutionId) (hi : z.slots i = .suspended x) :
        slot ≠ .suspended x := by
      intro hslot
      rcases Session.suspended_of_advances hadvances hslot with hj | ⟨rfl, -⟩
      · exact hij (h.distinct i j x hi hj)
      · exact h.ne_started i hi
    intro i i' x hi hi'
    dsimp only at hi hi'
    by_cases hij : i = j
    · by_cases hij' : i' = j
      · exact hij.trans hij'.symm
      · rw [hij, Function.update_self] at hi
        rw [Function.update_of_ne hij'] at hi'
        exact absurd hi (hother i' hij' x hi')
    · rw [Function.update_of_ne hij] at hi
      by_cases hij' : i' = j
      · rw [hij', Function.update_self] at hi'
        exact absurd hi' (hother i hij x hi)
      · rw [Function.update_of_ne hij'] at hi'
        exact h.distinct i i' x hi hi'
  stands i := by
    dsimp only
    by_cases hij : i = j
    · subst hij
      rw [Function.update_self, Function.update_self]
      exact hserved.stands
    · rw [Function.update_of_ne hij, Function.update_of_ne hij]
      exact (h.stands i).spared hserved.spares (h.ne_ownOf hij)

/-- A step does to its slot what it does to the scan of the slot, and the slots stay apart. -/
theorem Apart.step (h : z.Apart s e k) (j : ι) (a : ScanStep) :
    (z.step s j a).1 = ((k j).step s e a).1 ∧
      (z.step s j a).2.Apart s e (Function.update k j ((k j).step s e a).2) := by
  cases a with
  | next id args =>
    have hserved := Engine.nextBy_served (s := s) h.sound h.threaded (h.stands j) id args
    have hworked := Engine.nextBy_worked (fun _ => Engine.keeps_look s id)
      (Engine.resumer_keeps s) h.sound (z.slots j) z.world args
    rw [h.alike.ask] at hserved
    exact ⟨congrArg some hserved.answer, h.moved hworked.sound hworked.state hserved⟩
  | abandon =>
    have hserved := Engine.abandon_served (s := s) h.threaded (h.stands j) (.ok .endOfSet)
    obtain ⟨hs, -, hadvances⟩ := Engine.abandon_spec h.sound (z.slots j)
    exact ⟨rfl, h.moved hs hadvances hserved⟩

/-- What is seen of a slot is the course of its scan. By induction on the steps; those of other
slots do not move the scan. -/
theorem Apart.history_eq (h : z.Apart s e k) (i : ι) (steps : List (ι × ScanStep)) :
    z.history s i steps =
      (k i).course s e ((steps.filter fun a => a.1 = i).map Prod.snd) := by
  induction steps generalizing z k with
  | nil => rfl
  | cons a rest ih =>
    obtain ⟨j, a⟩ := a
    obtain ⟨hanswer, hstepped⟩ := h.step j a
    have hrest := ih hstepped
    unfold history
    dsimp only
    by_cases hji : j = i
    · subst hji
      have hphase := (hstepped.stands j).phase_eq
      rw [Function.update_self] at hphase hrest
      rw [if_pos rfl, List.filter_cons_of_pos (by simp), hanswer, hphase, hrest]
      rfl
    · rw [Function.update_of_ne (Ne.symm hji)] at hrest
      rw [if_neg hji, List.filter_cons_of_neg (by simpa using hji), hrest]

omit [DecidableEq ι] in
/-- The slots of a new engine are apart. -/
theorem apart_begin {options : Options} {host host' : Host} (hw : host.Willing)
    (hstart : Engine.start options host = (.ok e, host')) (s : Scripts σ) (w : ThreadId → σ) :
    (begin e w : Scanning ι σ).Apart s e fun _ => .ready := by
  obtain ⟨hs, hnone, -⟩ := Engine.start_sound hw hstart
  exact ⟨hs, Engine.threaded_of_executions hnone, .refl s e, fun _ _ _ hi => (nomatch hi),
    fun _ => .ready⟩

/-- Whatever a host does with its slots, in any order, it sees of each slot what it would see if it
had this slot only, on a new engine: the same rows, ends and failures, and the same phases. The
slots may be calls of one routine or of several, and some may be finished, failed or abandoned while
others wait. -/
theorem history_alone {options : Options} {host host' : Host} (hw : host.Willing)
    (hstart : Engine.start options host = (.ok e, host')) (s : Scripts σ)
    (w w' : ThreadId → σ) (steps : List (ι × ScanStep)) (i : ι) :
    (begin e w).history s i steps =
      (begin e w').history s i (steps.filter fun a => a.1 = i) := by
  have happart (w : ThreadId → σ) : (begin e w : Scanning ι σ).Apart s e fun _ => .ready :=
    apart_begin hw hstart s w
  have hall := (happart w).history_eq i steps
  have halone := (happart w').history_eq i (steps.filter fun a => a.1 = i)
  rw [List.filter_filter] at halone
  simp only [Bool.and_self] at halone
  rw [hall, halone]

/-- Coroutines that count down from two. -/
def countdown : Scripts Nat where
  compiler _ _ := .ok (.builtin .next)
  start _ := 2
  resume n _ :=
    match n with
    | 0 => (.ended, 0)
    | n + 1 => (.row (.ok (.int (.ofNat (n + 1)))), n)
  isFunction _ _ _ hf := by
    cases hf
    rfl
  compilable _ _ := catchable_ok _
  catchable n _ := by
    cases n with
    | zero => exact trivial
    | succ n => exact catchable_ok _

/-- A host with a routine for them. -/
def countdownHost : Host :=
  (Host.new.createRoutine
    { id := 0, name := "f", source := "coroutine.yield(2) coroutine.yield(1)", argNames := [],
      argTypes := [], resultType := Scalar.int4.id, returnsSet := true,
      stamp := .ofTransaction 0 }).2

/-- Two calls of the routine. The second one is abandoned while both wait. -/
def twoCalls : List (Bool × ScanStep) :=
  [(true, .next Host.firstId []), (false, .next Host.firstId []), (true, .next Host.firstId []),
    (false, .abandon), (true, .next Host.firstId []), (true, .next Host.firstId [])]

theorem history_alone_twoCalls :
    let z : Scanning Bool Nat := begin (Engine.bare {} countdownHost) fun _ => 0
    z.history countdown true twoCalls =
        z.history countdown true (twoCalls.filter fun a => a.1 = true) ∧
      (z.history countdown true twoCalls).map Prod.snd = [.waiting, .waiting, .done, .done] := by
  have hstart : Engine.start {} countdownHost =
    (.ok (Engine.bare {} countdownHost), countdownHost) := rfl
  exact ⟨history_alone ⟨rfl, rfl⟩ hstart countdown _ _ twoCalls true, by decide +kernel⟩

end Scanning

end StoredRoutine
