import StoredRoutine.Lifetime.Cleanup

/-!
# `StoredRoutine.Lifetime.CleanupProgram`: actions that use the registry themselves

The action of an entry may be a finite program over the registry it is in: it may register entries
with programs of their own, unregister entries, ask, and drain. Entries are named; a name given
again names the newer entry. What is done from outside is a program too.

Whatever the programs do, a drain ends: every entry that it runs was registered by a program that is
longer than its own. So the registry has a weight (`State.weight`), the length of all the programs
in it. To start an action takes its program and one more off the weight, and a program adds at most
its own length. The results of `drainLoop`, `runSteps` and `runStep` carry these bounds, which is
what their recursion ends on.

While programs run, a record is kept of the actions started and of the steps' answers, with the
entry each of them is about and with what is registered right after it.
-/

set_option autoImplicit false

namespace StoredRoutine.Cleanup

/-- One step of a program over the registry. -/
inductive Step where
  | register (name : String) (program : List Step)
  | unregister (name : String)
  | contains (name : String)
  | size
  | drain
  | drains (event : TransactionEvent)
  deriving Repr

/-- The name that a step gives. -/
def Step.name? : Step → Option String
  | .register name _ | .unregister name | .contains name => some name
  | .size | .drain | .drains _ => none

/-- What a step answers. -/
inductive Answer where
  | none
  | flag (value : Bool)
  | count (value : Nat)
  | size (value : Nat)
  deriving Repr, DecidableEq

/-- What happens while programs run. -/
inductive Event where
  /-- The action of the entry with this name starts. -/
  | run (name : String)
  /-- A step of a running program gave this answer. -/
  | step (step : Step) (answer : Answer)
  deriving Repr

/-- An event, the entry that it is about, and the entries that are registered right after it, newest
first. -/
structure Note where
  event : Event
  about : Option CleanupId
  left : List CleanupId
  deriving Repr

/-- A registered program and its name. -/
structure Entry where
  name : String
  program : List Step
  deriving Repr

/-- The registry, the names given so far, newest first, and the record, newest first. -/
structure State where
  registry : CleanupRegistry Entry := {}
  names : List (String × CleanupId) := []
  record : List Note := []
  deriving Repr

mutual

/-- The length of a step, with the programs inside it. -/
def Step.weight : Step → Nat
  | .register _ program => 2 + programWeight program
  | _ => 1

/-- The length of a program, with the programs inside it. -/
def programWeight : List Step → Nat
  | [] => 0
  | s :: rest => s.weight + programWeight rest

end

/-- The length of registered programs, and one for each of them. -/
def entriesWeight : List (CleanupId × Entry) → Nat
  | [] => 0
  | e :: rest => 1 + programWeight e.2.program + entriesWeight rest

theorem entriesWeight_eraseP (p : CleanupId × Entry → Bool) (entries : List (CleanupId × Entry)) :
    entriesWeight (entries.eraseP p) ≤ entriesWeight entries := by
  induction entries with
  | nil => exact Nat.le_refl _
  | cons e rest ih =>
    by_cases he : p e = true
    · rw [List.eraseP_cons_of_pos he, entriesWeight]
      omega
    · rw [List.eraseP_cons_of_neg he, entriesWeight, entriesWeight]
      omega

namespace State

/-- The length of everything that is registered. -/
def weight (s : State) : Nat := entriesWeight s.registry.entries

/-- Registers a program under a name. -/
def register (s : State) (name : String) (program : List Step) : State :=
  let (id, registry) := s.registry.register { name, program }
  { s with registry, names := (name, id) :: s.names }

/-- Unregisters the entry of a name; there is no answer for a name that was never given. -/
def unregister (s : State) (name : String) : Answer × State :=
  match s.names.lookup name with
  | none => (.none, s)
  | some id =>
    let (found, registry) := s.registry.unregister id
    (.flag found, { s with registry })

/-- Whether the entry of a name is registered; there is no answer for a name that was never given.
-/
def contains (s : State) (name : String) : Answer :=
  match s.names.lookup name with
  | none => .none
  | some id => .flag (s.registry.contains id)

/-- Adds an event to the record. -/
def note (s : State) (event : Event) (about : Option CleanupId) : State :=
  { s with record := ⟨event, about, s.registry.ids⟩ :: s.record }

/-- Adds the answer of a step to the record. -/
def noteStep (s : State) (step : Step) (answer : Answer) : State :=
  s.note (.step step answer) (step.name?.bind fun name => s.names.lookup name)

/-- Removes the newest entry and records that its action starts. -/
def start? (s : State) : Option (Entry × State) :=
  s.registry.pop?.map fun ((id, entry), registry) =>
    (entry, ({ s with registry } : State).note (.run entry.name) id)

/-! ## The weights of the parts -/

@[simp] theorem weight_note (s : State) (event : Event) (about : Option CleanupId) :
    (s.note event about).weight = s.weight := rfl

@[simp] theorem weight_noteStep (s : State) (step : Step) (answer : Answer) :
    (s.noteStep step answer).weight = s.weight := rfl

theorem weight_register (s : State) (name : String) (program : List Step) :
    (s.register name program).weight = 1 + programWeight program + s.weight := rfl

theorem weight_unregister (s : State) (name : String) :
    (s.unregister name).2.weight ≤ s.weight := by
  unfold unregister
  cases s.names.lookup name with
  | none => exact Nat.le_refl _
  | some id => exact entriesWeight_eraseP _ _

theorem weight_start {s t : State} {entry : Entry} (h : s.start? = some (entry, t)) :
    1 + programWeight entry.program + t.weight = s.weight := by
  unfold start? CleanupRegistry.pop? at h
  unfold weight
  cases hs : s.registry.entries with
  | nil => simp [hs] at h
  | cons e rest =>
    simp only [hs, Option.map_some, Option.some.injEq, Prod.mk.injEq] at h
    obtain ⟨rfl, rfl⟩ := h
    rfl

/-! ## Runs -/

mutual

/-- Runs entries, newest first, until none is left, and counts them. -/
def drainLoop (s : State) : { r : Nat × State // r.2.weight ≤ s.weight } :=
  match h : s.start? with
  | none => ⟨(0, s), Nat.le_refl _⟩
  | some (entry, t) =>
    have := weight_start h
    let ⟨t, ht⟩ := runSteps entry.program t
    let ⟨(count, t), hcount⟩ := drainLoop t
    ⟨(count + 1, t), by simp only at hcount ⊢; omega⟩
termination_by 2 * s.weight

/-- Runs the steps of a program and records their answers. -/
def runSteps (program : List Step) (s : State) :
    { t : State // t.weight ≤ programWeight program + s.weight } :=
  match program with
  | [] => ⟨s, Nat.le_add_left _ _⟩
  | step :: rest =>
    let ⟨(answer, t), hstep⟩ := runStep step s
    let ⟨t, ht⟩ := runSteps rest (t.noteStep step answer)
    ⟨t, by simp only [programWeight, weight_noteStep] at *; omega⟩
termination_by 2 * (programWeight program + s.weight) + 1
decreasing_by
  all_goals simp only [programWeight, weight_noteStep] at *
  all_goals omega

/-- Runs one step. -/
def runStep (step : Step) (s : State) :
    { r : Answer × State // r.2.weight < step.weight + s.weight } :=
  match step with
  | .register name program =>
    ⟨(.none, s.register name program), by simp only [weight_register, Step.weight]; omega⟩
  | .unregister name =>
    ⟨s.unregister name, by have := s.weight_unregister name; simp only [Step.weight]; omega⟩
  | .contains name => ⟨(s.contains name, s), by simp only [Step.weight]; omega⟩
  | .size => ⟨(.size s.registry.size, s), by simp only [Step.weight]; omega⟩
  | .drains event => ⟨(.flag event.drains, s), by simp only [Step.weight]; omega⟩
  | .drain =>
    let ⟨(count, t), hcount⟩ := drainLoop s
    ⟨(.count count, t), by simp only [Step.weight] at *; omega⟩
termination_by 2 * (step.weight + s.weight)
decreasing_by
  simp only [Step.weight]
  omega

end

/-- Runs every entry, newest first, also those registered meanwhile. Answers how many ran. -/
def drain (s : State) : Nat × State := (drainLoop s).1

/-- Runs a step. -/
def run (step : Step) (s : State) : Answer × State := (runStep step s).1

/-- Runs the steps of a program, one after another, and records their answers. -/
def runAll (program : List Step) (s : State) : State := (runSteps program s).1

/-- The events since the last time they were taken, oldest first. -/
def takeRecord (s : State) : List Event × State :=
  (s.record.reverse.map (·.event), { s with record := [] })

/-! ## The equations of the runs -/

/-- With nothing registered, a drain does nothing. -/
theorem drain_of_none {s : State} (h : s.start? = none) : s.drain = (0, s) := by
  unfold drain
  rw [drainLoop]
  split
  · rfl
  · next hsome => rw [h] at hsome; cases hsome

/-- A drain runs the program of the newest entry and goes on with what is registered then. -/
theorem drain_of_some {s t : State} {entry : Entry} (h : s.start? = some (entry, t)) :
    s.drain = ((drain (runAll entry.program t)).1 + 1, (drain (runAll entry.program t)).2) := by
  unfold drain runAll
  rw [drainLoop]
  split
  · next hnone => rw [h] at hnone; cases hnone
  · next hsome =>
    rw [h] at hsome
    cases hsome
    rfl

@[simp] theorem runAll_nil (s : State) : runAll [] s = s := by
  unfold runAll
  rw [runSteps]

@[simp] theorem runAll_cons (step : Step) (rest : List Step) (s : State) :
    runAll (step :: rest) s = runAll rest ((run step s).2.noteStep step (run step s).1) := by
  unfold runAll run
  rw [runSteps]

theorem run_register (s : State) (name : String) (program : List Step) :
    run (.register name program) s = (.none, s.register name program) := by
  unfold run
  rw [runStep]

theorem run_unregister (s : State) (name : String) :
    run (.unregister name) s = s.unregister name := by
  unfold run
  rw [runStep]

theorem run_contains (s : State) (name : String) :
    run (.contains name) s = (s.contains name, s) := by
  unfold run
  rw [runStep]

theorem run_size (s : State) : run .size s = (.size s.registry.size, s) := by
  unfold run
  rw [runStep]

theorem run_drains (s : State) (event : TransactionEvent) :
    run (.drains event) s = (.flag event.drains, s) := by
  unfold run
  rw [runStep]

theorem run_drain (s : State) : run .drain s = (.count s.drain.1, s.drain.2) := by
  unfold run drain
  rw [runStep]

end State

end StoredRoutine.Cleanup
