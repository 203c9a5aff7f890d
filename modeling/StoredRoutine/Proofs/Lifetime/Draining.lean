import Mathlib.Data.List.Nodup
import Mathlib.Data.List.Perm.Basic
import StoredRoutine.Lifetime.CleanupProgram

/-!
# `StoredRoutine.Proofs.Lifetime.Draining`: what a drain runs

The record of a run is read as a history. Each note continues the notes before it
(`Note.Continues`): a registration puts a new entry in front of what is registered, a removal takes
its entry out, and the entry that starts is the one in front. `State.Settled` says that the record
of a state is such a history and ends in what is registered. Every step keeps this, and a drain
does, whatever programs it runs (`State.Settled.drain`, `State.Settled.runAll`).

The laws of a history (`Lawful`) are then inductions over its notes.
-/

set_option autoImplicit false

namespace StoredRoutine.Cleanup

/-! ## Reading a record -/

namespace Note

/-- The entry that was registered. -/
def registers? (n : Note) : Option CleanupId :=
  match n.event with
  | .step (.register _ _) _ => n.about
  | _ => none

/-- The entry whose action started. -/
def runs? (n : Note) : Option CleanupId :=
  match n.event with
  | .run _ => n.about
  | _ => none

/-- The entry that was unregistered, where the answer was that it had been there. -/
def removes? (n : Note) : Option CleanupId :=
  match n.event with
  | .step (.unregister _) (.flag true) => n.about
  | _ => none

/-- How many actions a drain has run, by its answer. -/
def counted (n : Note) : Nat :=
  match n.event with
  | .step .drain (.count k) => k
  | _ => 0

end Note

/-- The entries that were registered, newest first. -/
def registered (record : List Note) : List CleanupId := record.filterMap Note.registers?

/-- The entries that were run, newest first. -/
def ran (record : List Note) : List CleanupId := record.filterMap Note.runs?

/-- The entries that were removed without being run, newest first. -/
def removed (record : List Note) : List CleanupId := record.filterMap Note.removes?

/-- What all drains have answered together. -/
def counted : List Note → Nat
  | [] => 0
  | n :: earlier => n.counted + counted earlier

theorem filterMap_cons_toList {α β : Type} (f : α → Option β) (x : α) (rest : List α) :
    (x :: rest).filterMap f = (f x).toList ++ rest.filterMap f := by
  cases hx : f x with
  | none => rw [List.filterMap_cons_none hx]; rfl
  | some y => rw [List.filterMap_cons_some hx]; rfl

theorem registered_cons (n : Note) (earlier : List Note) :
    registered (n :: earlier) = n.registers?.toList ++ registered earlier :=
  filterMap_cons_toList _ _ _

theorem ran_cons (n : Note) (earlier : List Note) :
    ran (n :: earlier) = n.runs?.toList ++ ran earlier :=
  filterMap_cons_toList _ _ _

theorem counted_cons (n : Note) (earlier : List Note) :
    counted (n :: earlier) = n.counted + counted earlier := rfl

/-- What is registered at the end of a record. -/
def present : List Note → List CleanupId
  | [] => []
  | n :: _ => n.left

/-- What a note says, after the notes before it. -/
def Note.Continues (earlier : List Note) (n : Note) : Prop :=
  match n.event with
  | .run _ => ∃ id, n.about = some id ∧ present earlier = id :: n.left
  | .step (.register _ _) _ =>
    n.about = some ⟨(registered earlier).length⟩ ∧
      n.left = ⟨(registered earlier).length⟩ :: present earlier
  | .step (.unregister _) answer =>
    match n.about with
    | none => answer = .none ∧ n.left = present earlier
    | some id =>
      answer = .flag (decide (id ∈ present earlier)) ∧ n.left = (present earlier).erase id
  | .step .drain _ => present earlier = [] ∧ n.left = []
  | .step _ _ => n.left = present earlier

/-- A record in which each note continues the notes before it. -/
inductive History : List Note → Prop where
  | nil : History []
  | cons {n : Note} {earlier : List Note} : n.Continues earlier → History earlier →
    History (n :: earlier)

/-! ## Runs make histories -/

namespace State

/-- The record is a history that ends in what is registered. -/
structure Settled (s : State) : Prop where
  history : History s.record
  present : present s.record = s.registry.ids
  next : s.registry.next = (registered s.record).length

/-- To unregister an entry is to erase its name. -/
theorem ids_unregister {α : Type} (r : CleanupRegistry α) (id : CleanupId) :
    (r.unregister id).2.ids = r.ids.erase id := by
  unfold CleanupRegistry.ids CleanupRegistry.unregister
  induction r.entries with
  | nil => rfl
  | cons e rest ih =>
    by_cases he : e.1 = id
    · rw [List.eraseP_cons_of_pos (by simpa using he), List.map_cons, he, List.erase_cons_head]
    · rw [List.eraseP_cons_of_neg (by simpa using he), List.map_cons, List.map_cons, ih,
        List.erase_cons_tail (by simpa using he)]

theorem contains_eq {α : Type} (r : CleanupRegistry α) (id : CleanupId) :
    r.contains id = decide (id ∈ r.ids) := by
  unfold CleanupRegistry.contains CleanupRegistry.ids
  rw [Bool.eq_iff_iff, List.any_eq_true, decide_eq_true_iff, List.mem_map]
  exact exists_congr fun e => and_congr_right fun _ => by simp

variable {s t u : State}

/-- A note that continues the record, added to a state that differs in its registry and its
names. -/
theorem Settled.note {event : Event} {about : Option CleanupId} (hs : s.Settled)
    (hrecord : t.record = s.record)
    (hcontinues : (⟨event, about, t.registry.ids⟩ : Note).Continues s.record)
    (hnext : t.registry.next = s.registry.next +
      (⟨event, about, t.registry.ids⟩ : Note).registers?.toList.length) :
    (t.note event about).Settled where
  history := by
    unfold State.note
    rw [hrecord]
    exact .cons hcontinues hs.history
  present := rfl
  next := by
    unfold State.note
    rw [hrecord, registered_cons, List.length_append, Nat.add_comm, ← hs.next]
    exact hnext

/-- From one settled state to another, where the actions that have started in between are `n` more
than the drains in between have answered for. -/
structure Leads (n : Nat) (s t : State) : Prop where
  settled : t.Settled
  balance : (ran t.record).length + counted s.record =
    (ran s.record).length + counted t.record + n

theorem Settled.refl (hs : s.Settled) : Leads 0 s s := ⟨hs, rfl⟩

theorem Leads.trans {m n : Nat} (h : Leads m s t) (h' : Leads n t u) : Leads (m + n) s u :=
  ⟨h'.settled, by have := h.balance; have := h'.balance; omega⟩

/-- The newest entry is taken out, and its action starts. -/
theorem Settled.start {entry : Entry} (hs : s.Settled) (h : s.start? = some (entry, t)) :
    Leads 1 s t := by
  unfold start? CleanupRegistry.pop? at h
  cases hentries : s.registry.entries with
  | nil => simp [hentries] at h
  | cons e rest =>
    simp only [hentries, Option.map_some, Option.some.injEq, Prod.mk.injEq] at h
    obtain ⟨-, rfl⟩ := h
    have hpresent : Cleanup.present s.record = e.1 :: rest.map (·.1) := by
      rw [hs.present, CleanupRegistry.ids, hentries, List.map_cons]
    refine ⟨hs.note rfl ⟨e.1, rfl, hpresent⟩ rfl, ?_⟩
    simp only [State.note, ran_cons, counted_cons, Note.runs?, Note.counted, Option.toList_some,
      List.length_append, List.length_singleton]
    omega

/-- The note of a step that does not drain, added to a state that differs in its registry and its
names. -/
theorem Settled.quiet {step : Step} {answer : Answer} {about : Option CleanupId} (hs : s.Settled)
    (hstep : step ≠ .drain) (hrecord : t.record = s.record)
    (habout : (step.name?.bind fun name => t.names.lookup name) = about)
    (hcontinues : (⟨.step step answer, about, t.registry.ids⟩ : Note).Continues s.record)
    (hnext : t.registry.next = s.registry.next +
      (⟨.step step answer, about, t.registry.ids⟩ : Note).registers?.toList.length) :
    Leads 0 s (t.noteStep step answer) := by
  subst habout
  refine ⟨hs.note hrecord hcontinues hnext, ?_⟩
  unfold noteStep State.note
  rw [hrecord, ran_cons, counted_cons]
  cases step with
  | drain => exact absurd rfl hstep
  | _ => simp only [Note.runs?, Note.counted, Option.toList_none, List.nil_append]; omega

/-- A step that does not drain. -/
theorem Settled.step {step : Step} (hs : s.Settled) (hstep : step ≠ .drain) :
    Leads 0 s ((run step s).2.noteStep step (run step s).1) := by
  cases step with
  | register name program =>
    rw [run_register]
    refine hs.quiet hstep rfl List.lookup_cons_self ?_ rfl
    simp only [Note.Continues, ← hs.next, hs.present]
    exact ⟨trivial, rfl⟩
  | unregister name =>
    rw [run_unregister]
    unfold unregister
    -- a name that stands for nothing is answered like one whose cleanup is gone
    cases hlookup : s.names.lookup name with
    | none => exact hs.quiet hstep rfl hlookup ⟨rfl, hs.present.symm⟩ rfl
    | some id =>
      refine hs.quiet hstep rfl hlookup ⟨?_, ?_⟩ rfl
      · exact congrArg Answer.flag ((contains_eq _ _).trans (by rw [hs.present]))
      · rw [hs.present]
        exact ids_unregister _ _
  | contains name =>
    rw [run_contains]
    exact hs.quiet hstep rfl rfl hs.present.symm rfl
  | size =>
    rw [run_size]
    exact hs.quiet hstep rfl rfl hs.present.symm rfl
  | drain => exact absurd rfl hstep
  | drains event =>
    rw [run_drains]
    exact hs.quiet hstep rfl rfl hs.present.symm rfl

/-! ## Drains -/

theorem weight_runAll_le (program : List Step) (s : State) :
    (runAll program s).weight ≤ programWeight program + s.weight := (runSteps program s).2

theorem weight_run_lt (step : Step) (s : State) :
    (run step s).2.weight < step.weight + s.weight := (runStep step s).2

/-- After a drain nothing is registered. The induction is on the weight, since the program of an
entry may register more entries than the one that was taken out. -/
theorem drain_entries (s : State) : s.drain.2.registry.entries = [] := by
  cases h : s.start? with
  | none =>
    rw [drain_of_none h]
    unfold start? CleanupRegistry.pop? at h
    cases hentries : s.registry.entries with
    | nil => rfl
    | cons e rest => simp [hentries] at h
  | some p =>
    obtain ⟨entry, t⟩ := p
    have := weight_start h
    have := weight_runAll_le entry.program t
    rw [drain_of_some h]
    exact drain_entries (runAll entry.program t)
termination_by s.weight

theorem drain_ids (s : State) : s.drain.2.registry.ids = [] := by
  unfold CleanupRegistry.ids
  rw [drain_entries, List.map_nil]

/-- A drain that has answered accounts for the actions it ran. -/
theorem Leads.answered {n : Nat} (h : Leads n s t) (ht : t.registry.ids = []) :
    Leads 0 s (t.noteStep .drain (.count n)) := by
  have hpresent := h.settled.present.trans ht
  refine ⟨h.settled.note rfl ⟨hpresent, ht⟩ rfl, ?_⟩
  have := h.balance
  simp only [noteStep, State.note, ran_cons, counted_cons, Note.runs?, Note.counted,
    Option.toList_none, List.nil_append]
  omega

mutual

/-- A drain answers how many actions it has started, less those that drains inside it have answered
for. -/
theorem Settled.drain (s : State) (hs : s.Settled) : Leads s.drain.1 s s.drain.2 := by
  cases h : s.start? with
  | none =>
    rw [drain_of_none h]
    exact hs.refl
  | some p =>
    obtain ⟨entry, t⟩ := p
    have := weight_start h
    have := weight_runAll_le entry.program t
    have hstart := hs.start h
    have hrun := Settled.runAll entry.program t hstart.settled
    have hrest := Settled.drain (State.runAll entry.program t) hrun.settled
    rw [drain_of_some h]
    have htotal := (hstart.trans hrun).trans hrest
    rwa [Nat.add_comm] at htotal
termination_by 2 * s.weight

/-- When a program has ended, all drains of it have answered. -/
theorem Settled.runAll (program : List Step) (s : State) (hs : s.Settled) :
    Leads 0 s (State.runAll program s) := by
  cases program with
  | nil =>
    rw [runAll_nil]
    exact hs.refl
  | cons step rest =>
    have := weight_run_lt step s
    rw [runAll_cons]
    have hstep : Leads 0 s ((run step s).2.noteStep step (run step s).1) := by
      by_cases h : step = .drain
      · subst h
        rw [run_drain]
        exact (Settled.drain s hs).answered s.drain_ids
      · exact hs.step h
    exact hstep.trans (Settled.runAll rest _ hstep.settled)
termination_by 2 * (programWeight program + s.weight) + 1
decreasing_by
  all_goals simp only [programWeight, weight_noteStep]
  all_goals omega

end

end State

/-! ## The laws of a history -/

namespace History

variable {record : List Note}

end History

/-- The laws of a record, and of what is registered at its end. -/
structure Lawful (record : List Note) (left : List CleanupId) : Prop where
  /-- Each entry that was registered has been run, or has been removed, or is still there. -/
  complete : (registered record).Perm (ran record ++ removed record ++ left)
  /-- And only one of these, and only once. -/
  once : (ran record ++ removed record ++ left).Nodup
  /-- When an entry is run it is gone, and what is left was registered before it. -/
  newest_first : ∀ (later earlier : List Note) (n : Note) (id : CleanupId),
    record = later ++ n :: earlier → n.runs? = some id →
      id ∉ n.left ∧ ∃ newer older, registered earlier = newer ++ id :: older ∧
        ∀ x ∈ n.left, x ∈ older
  /-- To unregister an entry answers whether it was there, and takes out this one. -/
  unregistered : ∀ (later earlier : List Note) (n : Note) (name : String) (answer : Answer)
    (id : CleanupId), record = later ++ n :: earlier →
      n.event = .step (.unregister name) answer → n.about = some id →
      answer = .flag (decide (id ∈ present earlier)) ∧ n.left = (present earlier).erase id
  /-- After a drain nothing is registered, wherever it was called. -/
  drained : ∀ (later earlier : List Note) (n : Note) (answer : Answer),
    record = later ++ n :: earlier → n.event = .step .drain answer → n.left = []
  /-- The answers of all drains add up to the number of actions that were run. -/
  counts : counted record = (ran record).length

theorem History.unregistered {n : Note} {earlier : List Note} (hn : n.Continues earlier)
    {name : String} {answer : Answer} {id : CleanupId}
    (hevent : n.event = .step (.unregister name) answer) (habout : n.about = some id) :
    answer = .flag (decide (id ∈ present earlier)) ∧ n.left = (present earlier).erase id := by
  unfold Note.Continues at hn
  rw [hevent, habout] at hn
  exact hn

theorem History.drained {n : Note} {earlier : List Note} (hn : n.Continues earlier)
    {answer : Answer} (hevent : n.event = .step .drain answer) : n.left = [] := by
  unfold Note.Continues at hn
  rw [hevent] at hn
  exact hn.2

/-- The action of the second entry registers a third and drains: the drain inside runs the third and
the first, and the one outside has run only the second. -/
example : (State.runAll [.register "first" [], .register "second" [.register "third" [], .drain],
    .drain] {}).record.filterMap (fun n => n.runs?.map (·.number)) = [0, 2, 1] := by cbv

end StoredRoutine.Cleanup
