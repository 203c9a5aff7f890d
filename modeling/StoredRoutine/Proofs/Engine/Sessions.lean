import StoredRoutine.Proofs.Engine.Reachable

/-!
# `StoredRoutine.Proofs.Engine.Sessions`: the calls that a host keeps

A host keeps a slot for every call of a set-returning routine that it has started. Requests,
abandoned calls and ends of transactions can come in any order, over any number of slots. In a
`Session` each slot also remembers whether the transaction in which its call started is still going
on. Nothing of the engine depends on this mark; it is there to be reasoned with.

`Session.Coherent` ties the slots to the executions of the engine. One lemma shows that whatever
`Engine.Advances` allows keeps it (`Coherent.advance`), and so every step of the host does.
`Engine.RequestLaw` says what one request answers, for every way in which a coroutine can stop.
-/

set_option autoImplicit false

namespace StoredRoutine

open Script (Ending ThreadId Value)

/-! ### Sessions -/

/-- A call of a set-returning routine, as the host keeps it. -/
structure HeldCall where
  slot : SetCall := .ready
  /-- No transaction has ended since the call was started. -/
  current : Bool := true

/-- An engine, and the calls that its host keeps. -/
structure Session where
  engine : Engine
  calls : List HeldCall := []

/-- A call waits in the transaction in which it was started. -/
def HeldCall.Waits (c : HeldCall) (id : ExecutionId) : Prop :=
  c.slot = .suspended id ∧ c.current = true

/-- A call after something was done to it. -/
def HeldCall.moved (c : HeldCall) (slot : SetCall) : HeldCall :=
  { slot, current := c.current || c.slot == .ready }

namespace Session

/-- What a host can do. -/
inductive Step where
  /-- Makes a slot. -/
  | hold
  /-- Asks for the next row of a slot. -/
  | next (i : Nat) (id : TypeId) (args : Row)
  | abandon (i : Nat)
  | onTransaction (event : TransactionEvent)
  | call (id : TypeId) (args : Row)
  | fire (id : TypeId) (t : TriggerEvent)
  | validate (id : TypeId)
  | invalidate (id : TypeId)
  /-- The host changes between two calls. -/
  | host (host : Host) (hw : host.Willing)

/-- One step of the host. -/
def step (s : Session) : Step → Session
  | .hold => { s with calls := s.calls ++ [({} : HeldCall)] }
  | .next i id args =>
    match s.calls[i]? with
    | none => s
    | some c =>
      let ((_, slot), engine) := s.engine.next id c.slot args
      { engine, calls := s.calls.set i (c.moved slot) }
  | .abandon i =>
    match s.calls[i]? with
    | none => s
    | some c =>
      let (slot, engine) := s.engine.abandon c.slot
      { engine, calls := s.calls.set i (c.moved slot) }
  | .onTransaction event =>
    { engine := (s.engine.onTransaction event).2
      calls := if event.drains then s.calls.map fun c => { c with current := false } else s.calls }
  | .call id args => { s with engine := (s.engine.call id args).2 }
  | .fire id t => { s with engine := (s.engine.fire id t).2 }
  | .validate id => { s with engine := (s.engine.validate id).2 }
  | .invalidate id => { s with engine := (s.engine.invalidate id).2 }
  | .host host _ => { s with engine := { s.engine with host } }

/-- Steps of the host, one after the other. -/
def run (s : Session) (steps : List Step) : Session := steps.foldl step s

/-- Slots that wait have executions of their own, unless the transaction has ended, and there are
no other executions. -/
structure Coherent (s : Session) : Prop where
  sound : s.engine.Sound []
  numbered : ∀ (i : Nat) (c : HeldCall) (id : ExecutionId), s.calls[i]? = some c →
    c.slot = .suspended id → id.number ≤ s.engine.started
  distinct : ∀ (i j : Nat) (c d : HeldCall) (id : ExecutionId), s.calls[i]? = some c →
    s.calls[j]? = some d → c.slot = .suspended id → d.slot = .suspended id → i = j
  waiting : ∀ id : ExecutionId, (∃ x, (id, x) ∈ s.engine.executions) ↔
    ∃ (i : Nat) (c : HeldCall), s.calls[i]? = some c ∧ c.Waits id

variable {s : Session} {e : Engine}

/-- A list after one of its items was replaced. -/
theorem getElem?_set_eq_some {α : Type} {l : List α} {i j : Nat} {a b x : α} (hi : l[i]? = some a) :
    (l.set i b)[j]? = some x ↔ i = j ∧ x = b ∨ i ≠ j ∧ l[j]? = some x := by
  obtain ⟨hlt, -⟩ := List.getElem?_eq_some_iff.mp hi
  rw [List.getElem?_set]
  by_cases heq : i = j
  · subst heq
    simp [hlt, eq_comm]
  · simp [heq]

/-- One of the other calls waits. -/
def OtherWaits (calls : List HeldCall) (i : Nat) (id : ExecutionId) : Prop :=
  ∃ (j : Nat) (d : HeldCall), i ≠ j ∧ calls[j]? = some d ∧ d.Waits id

theorem waits_set {calls : List HeldCall} {i : Nat} {c c' : HeldCall} (hc : calls[i]? = some c)
    (id : ExecutionId) :
    (∃ (j : Nat) (d : HeldCall), (calls.set i c')[j]? = some d ∧ d.Waits id) ↔
      c'.Waits id ∨ OtherWaits calls i id := by
  simp only [getElem?_set_eq_some hc]
  constructor
  · rintro ⟨j, d, ⟨-, rfl⟩ | ⟨hne, hd⟩, hwaits⟩
    · exact .inl hwaits
    · exact .inr ⟨j, d, hne, hd, hwaits⟩
  · rintro (hwaits | ⟨j, d, hne, hd, hwaits⟩)
    · exact ⟨i, c', .inl ⟨rfl, rfl⟩, hwaits⟩
    · exact ⟨j, d, .inr ⟨hne, hd⟩, hwaits⟩

theorem waits_iff {calls : List HeldCall} {i : Nat} {c : HeldCall} (hc : calls[i]? = some c)
    (id : ExecutionId) :
    (∃ (j : Nat) (d : HeldCall), calls[j]? = some d ∧ d.Waits id) ↔
      c.Waits id ∨ OtherWaits calls i id := by
  constructor
  · rintro ⟨j, d, hd, hwaits⟩
    by_cases heq : i = j
    · subst heq
      cases hc.symm.trans hd
      exact .inl hwaits
    · exact .inr ⟨j, d, heq, hd, hwaits⟩
  · rintro (hwaits | ⟨j, d, -, hd, hwaits⟩)
    · exact ⟨i, c, hc, hwaits⟩
    · exact ⟨j, d, hd, hwaits⟩

/-- What is suspended after an advance was so before, or has just begun. -/
theorem suspended_of_advances {before slot : SetCall}
    {executions executions' : List (ExecutionId × Execution)} {started started' : Nat}
    (h : Engine.Advances before executions started slot executions' started') {id : ExecutionId}
    (hid : slot = .suspended id) :
    before = .suspended id ∨ id = ⟨started + 1⟩ ∧ started' = started + 1 := by
  cases h with
  | unmoved => exact .inl hid
  | begun => exact .inr ⟨(SetCall.suspended.inj hid).symm, rfl⟩
  | missed hslot => rw [hid] at hslot; cases hslot
  | dropped => cases hid
  | ended other hslot => rw [hid] at hslot; cases hslot

theorem started_le_of_advances {before slot : SetCall}
    {executions executions' : List (ExecutionId × Execution)} {started started' : Nat}
    (h : Engine.Advances before executions started slot executions' started') :
    started ≤ started' := by
  cases h <;> omega

/-- Which executions there are after an advance, in terms of the call that has advanced and of
whether another one waits. -/
theorem executions_of_advances {c : HeldCall} {slot : SetCall}
    {executions executions' : List (ExecutionId × Execution)} {started started' : Nat}
    (h : Engine.Advances c.slot executions started slot executions' started') {id : ExecutionId}
    {Other : Prop} (hother : Other → c.slot ≠ .suspended id)
    (hbefore : (∃ x, (id, x) ∈ executions) ↔ c.Waits id ∨ Other) :
    (∃ x, (id, x) ∈ executions') ↔ (c.moved slot).Waits id ∨ Other := by
  obtain ⟨before, current⟩ := c
  unfold HeldCall.Waits HeldCall.moved at *
  dsimp only at h hother hbefore ⊢
  cases h with
  | unmoved =>
    rw [hbefore]
    cases slot <;> simp
  | begun x =>
    -- the new execution is that of the call, and of no other
    by_cases hid : id = ⟨started + 1⟩
    · subst hid
      simp
    · have hold : (∃ y, (id, y) ∈ (⟨started + 1⟩, x) :: executions) ↔
          ∃ y, (id, y) ∈ executions := by simp [hid]
      rw [hold, hbefore]
      simp [Ne.symm hid]
  | missed hslot =>
    rw [hbefore]
    cases slot with
    | done => simp
    | failed => simp
    | _ => cases hslot
  | dropped =>
    rw [hbefore]
    simp
  | ended other hslot =>
    have hleft : (∃ x, (id, x) ∈ executions.filter fun x => decide (x.1 ≠ other)) ↔
        (∃ x, (id, x) ∈ executions) ∧ id ≠ other := by simp [List.mem_filter]
    rw [hleft, hbefore]
    have hfinished : slot ≠ .suspended id := fun heq => by rw [heq] at hslot; cases hslot
    simp only [SetCall.suspended.injEq, hfinished, false_and, false_or]
    constructor
    · rintro ⟨⟨rfl, -⟩ | hothers, hne⟩
      · exact absurd rfl hne
      · exact hothers
    · exact fun hothers => ⟨.inr hothers, fun heq => hother hothers (by rw [heq])⟩

/-- Whatever happens to one call leaves the others alone. -/
theorem Coherent.advance (h : s.Coherent) {i : Nat} {c : HeldCall} (hc : s.calls[i]? = some c)
    {slot : SetCall} (hs : e.Sound [])
    (hadvances : Engine.Advances c.slot s.engine.executions s.engine.started slot e.executions
      e.started) :
    Coherent { engine := e, calls := s.calls.set i (c.moved slot) } := by
  have hle := started_le_of_advances hadvances
  -- the other calls have other names than the one that has advanced
  have hother : ∀ (j : Nat) (d : HeldCall) (id : ExecutionId), i ≠ j → s.calls[j]? = some d →
      d.slot = .suspended id → slot ≠ .suspended id := fun j d id hne hd hid hid' => by
    rcases suspended_of_advances hadvances hid' with hbefore | ⟨rfl, -⟩
    · exact hne (h.distinct i j c d id hc hd hbefore hid)
    · exact Nat.not_succ_le_self _ (h.numbered j d _ hd hid)
  refine ⟨hs, fun j d id hd hid => ?_, fun j k d f id hd hf hid hid' => ?_, fun id => ?_⟩
  · show id.number ≤ e.started
    rcases (getElem?_set_eq_some hc).mp hd with ⟨-, rfl⟩ | ⟨-, hd⟩
    · rcases suspended_of_advances hadvances hid with hbefore | ⟨rfl, hstarted⟩
      · exact Nat.le_trans (h.numbered i c id hc hbefore) hle
      · exact Nat.le_of_eq hstarted.symm
    · exact Nat.le_trans (h.numbered j d id hd hid) hle
  · rcases (getElem?_set_eq_some hc).mp hd with ⟨rfl, rfl⟩ | ⟨hne, hd⟩
    · rcases (getElem?_set_eq_some hc).mp hf with ⟨rfl, -⟩ | ⟨hne, hf⟩
      · rfl
      · exact absurd hid (hother k f id hne hf hid')
    · rcases (getElem?_set_eq_some hc).mp hf with ⟨rfl, rfl⟩ | ⟨-, hf⟩
      · exact absurd hid' (hother j d id hne hd hid)
      · exact h.distinct j k d f id hd hf hid hid'
  · rw [waits_set hc]
    refine executions_of_advances hadvances ?_ ((h.waiting id).trans (waits_iff hc id))
    rintro ⟨j, d, hne, hd, hslot, -⟩
    exact fun heq => hne (h.distinct i j c d id hc hd heq hslot)

/-- Something else happens that leaves executions alone. -/
theorem Coherent.elsewhere (h : s.Coherent) (hs : e.Sound [])
    (hexecutions : e.executions = s.engine.executions) (hstarted : e.started = s.engine.started) :
    Coherent { s with engine := e } where
  sound := hs
  numbered i c id hc hid := by
    show id.number ≤ e.started
    rw [hstarted]
    exact h.numbered i c id hc hid
  distinct := h.distinct
  waiting id := by
    show (∃ x, (id, x) ∈ e.executions) ↔ _
    rw [hexecutions]
    exact h.waiting id

/-- A new slot does not wait. -/
theorem Coherent.hold (h : s.Coherent) :
    Coherent { s with calls := s.calls ++ [({} : HeldCall)] } := by
  have hold : ∀ (i : Nat) (c : HeldCall) (id : ExecutionId),
      (s.calls ++ [({} : HeldCall)])[i]? = some c → c.slot = .suspended id →
        s.calls[i]? = some c := by
    intro i c id hc hid
    rcases Nat.lt_or_ge i s.calls.length with hlt | hge
    · rwa [List.getElem?_append_left hlt] at hc
    · rw [List.getElem?_append_right hge] at hc
      obtain rfl := List.mem_singleton.mp (List.mem_of_getElem? hc)
      cases hid
  refine ⟨h.sound, fun i c id hc hid => h.numbered i c id (hold i c id hc hid) hid,
    fun i j c d id hc hd hid hid' =>
      h.distinct i j c d id (hold i c id hc hid) (hold j d id hd hid') hid hid', fun id => ?_⟩
  refine (h.waiting id).trans ⟨?_, ?_⟩
  · rintro ⟨i, c, hc, hwaits⟩
    refine ⟨i, c, ?_, hwaits⟩
    rw [List.getElem?_append_left (List.getElem?_eq_some_iff.mp hc).1]
    exact hc
  · rintro ⟨i, c, hc, hwaits⟩
    exact ⟨i, c, hold i c id hc hwaits.1, hwaits⟩

/-- At the end of a transaction no call waits in it any more. -/
theorem Coherent.onTransaction (h : s.Coherent) (event : TransactionEvent) :
    (s.step (.onTransaction event)).Coherent := by
  show Coherent
    { engine := (s.engine.onTransaction event).2, calls := if event.drains then _ else _ }
  unfold Engine.onTransaction
  by_cases hdrains : event.drains = true
  · rw [if_pos hdrains, if_pos hdrains]
    -- the slots keep the names of executions that are gone
    obtain ⟨hsound, -, hexecutions, -, hstarted⟩ := Engine.drain_spec h.sound
    have hcall : ∀ (i : Nat) (c : HeldCall),
        (s.calls.map fun c => { c with current := false })[i]? = some c →
        ∃ d, s.calls[i]? = some d ∧ d.slot = c.slot ∧ c.current = false := by
      intro i c hc
      rw [List.getElem?_map, Option.map_eq_some_iff] at hc
      obtain ⟨d, hd, rfl⟩ := hc
      exact ⟨d, hd, rfl, rfl⟩
    refine ⟨hsound, fun i c id hc hid => ?_, fun i j c d id hc hd hid hid' => ?_, fun id => ?_⟩
    · obtain ⟨c', hc', hslot, -⟩ := hcall i c hc
      show id.number ≤ s.engine.drain.2.started
      rw [hstarted]
      exact h.numbered i c' id hc' (hslot.trans hid)
    · obtain ⟨c', hc', hslot, -⟩ := hcall i c hc
      obtain ⟨d', hd', hslot', -⟩ := hcall j d hd
      exact h.distinct i j c' d' id hc' hd' (hslot.trans hid) (hslot'.trans hid')
    · show (∃ x, (id, x) ∈ s.engine.drain.2.executions) ↔ _
      rw [hexecutions]
      constructor
      · rintro ⟨x, hx⟩
        exact absurd hx List.not_mem_nil
      · rintro ⟨i, c, hc, -, hcurrent⟩
        obtain ⟨-, -, -, hnone⟩ := hcall i c hc
        rw [hcurrent] at hnone
        cases hnone
  · rw [if_neg hdrains, if_neg hdrains]
    exact h

/-- Every step of the host keeps slots and executions together. -/
theorem Coherent.step (h : s.Coherent) (a : Step) : (s.step a).Coherent := by
  cases a with
  | hold => exact h.hold
  | next i id args =>
    show Coherent (match s.calls[i]? with | none => s | some c => _)
    cases hc : s.calls[i]? with
    | none => exact h
    | some c =>
      -- a request advances one slot, and the executions with it
      have hworked := Engine.next_worked h.sound id c.slot args
      exact h.advance hc hworked.sound hworked.state
  | abandon i =>
    show Coherent (match s.calls[i]? with | none => s | some c => _)
    cases hc : s.calls[i]? with
    | none => exact h
    | some c =>
      obtain ⟨hsound, -, hadvances⟩ := Engine.abandon_spec h.sound c.slot
      exact h.advance hc hsound hadvances
  | onTransaction event => exact h.onTransaction event
  | call id args =>
    -- what is no request of a slot leaves slots and executions alone
    have hworked := Engine.call_worked h.sound id args
    exact h.elsewhere hworked.sound hworked.state.1 hworked.state.2
  | fire id t =>
    have hworked := Engine.fire_worked h.sound id t
    exact h.elsewhere hworked.sound hworked.state.1 hworked.state.2
  | validate id =>
    obtain ⟨hsound, hfollows, -⟩ := Engine.validate_spec h.sound id
    exact h.elsewhere hsound hfollows.executions hfollows.started
  | invalidate id => exact h.elsewhere (Engine.invalidate_sound h.sound id) rfl rfl
  | host host hw => exact h.elsewhere (h.sound.anyHost hw) rfl rfl

/-- So does every run. -/
theorem Coherent.run (h : s.Coherent) (steps : List Step) : (s.run steps).Coherent := by
  induction steps generalizing s with
  | nil => exact h
  | cons a rest ih => exact ih (h.step a)

end Session

namespace Engine

variable {e : Engine} {stack : List FrameId}

/-- The entries of the registry that would drop an execution. -/
def entriesOf (e : Engine) (id : ExecutionId) : List (CleanupId × CleanupAction) :=
  e.cleanups.entries.filter fun x =>
    match x.2 with
    | .dropExecution other => decide (other = id)
    | .closeCursor _ => false

end Engine

namespace Session

/-- What holds of the calls of a host at any time. A slot is ready, suspended, done or failed, and
only a suspended one names an execution; that is so by its type. -/
structure Lawful (s : Session) : Prop where
  /-- Two slots never name one execution. -/
  separate : ∀ (i j : Nat) (c d : HeldCall) (id : ExecutionId), s.calls[i]? = some c →
    s.calls[j]? = some d → c.slot = .suspended id → d.slot = .suspended id → i = j
  /-- There is an execution if a slot names it and no transaction has ended since its call was
  started, and in no other case. -/
  waiting : ∀ id : ExecutionId, (∃ x, (id, x) ∈ s.engine.executions) ↔
    ∃ (i : Nat) (c : HeldCall), s.calls[i]? = some c ∧ c.slot = .suspended id ∧ c.current = true
  /-- The table has at most one execution of a name. -/
  named : (s.engine.executions.map (·.1)).Nodup
  /-- The registry has exactly one entry for each execution. -/
  registered : ∀ (id : ExecutionId) (x : Execution), (id, x) ∈ s.engine.executions →
    s.engine.entriesOf id = [(x.cleanup, .dropExecution id)]
  /-- The registry has no entries for executions beside these. -/
  unregistered : ∀ id : ExecutionId, (∀ x, (id, x) ∉ s.engine.executions) →
    s.engine.entriesOf id = []
  /-- Every request is answered by the way in which its coroutine stops. -/
  served : ∀ (id : TypeId) (r : CompiledRoutine) (e₁ : Engine), s.engine.Opens id r e₁ →
    ∀ (slot : SetCall) (args : Row), Engine.RequestLaw r args e₁ slot
  /-- The engine answers what the request does, unless it is poisoned by then. -/
  answered : ∀ (id : TypeId) (r : CompiledRoutine) (e₁ : Engine), s.engine.Opens id r e₁ →
    ∀ (slot : SetCall) (args : Row),
      (s.engine.next id slot args).1.2 = (Engine.request args slot r e₁).1.2 ∧
      (s.engine.next id slot args).2.executions = (Engine.request args slot r e₁).2.executions ∧
      (s.engine.next id slot args).2.cleanups = (Engine.request args slot r e₁).2.cleanups ∧
      ((s.engine.next id slot args).2.poisoned = false →
        (s.engine.next id slot args).1.1 = (Engine.request args slot r e₁).1.1)
  /-- An abandoned call is over, and its execution is forgotten. -/
  abandoned : ∀ id : ExecutionId, (s.engine.abandon (.suspended id)).1 = .done ∧
    (s.engine.abandon (.suspended id)).2.Forgot id

end Session

end StoredRoutine
