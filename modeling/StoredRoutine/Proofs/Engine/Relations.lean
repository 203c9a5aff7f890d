import StoredRoutine.Engine.Transaction
import StoredRoutine.Proofs.Engine.Reach
import StoredRoutine.Proofs.Engine.Records

/-!
# `StoredRoutine.Proofs.Engine.Relations`: the relation that a trigger function is shown

The table of a relation is made once, by the first event of the relation whose function is found,
and kept under the identifier of the relation. Nothing but an event makes such a table, and none is
taken away (`Engine.SameRelations`). So the first event of an identifier shows exactly its own
relation, whatever happened before. Every later one shows the same table again, also if the relation
has another name or other columns by then (`History.relation_shown`). What scripts have written into
the table in between is still there.

It is not true that each event shows its own relation (`relation_not_always_own`): two events cannot
do so that have one identifier and different names.
-/

set_option autoImplicit false

namespace StoredRoutine

open Script (Heap Key TableId Value)

/-- A trigger function is about to start: the record of its event is complete, and becomes the
global `trigger` next. -/
structure TriggerStart where
  event : TriggerEvent
  record : TableId
  engine : Engine

namespace TriggerStart

/-- The record has the table of a relation. -/
def Shows (s : TriggerStart) (relation : TableId) : Prop :=
  s.engine.heap.rawGet s.record (.ofText "relation") = .table relation

/-- The engine in which the function starts. -/
def begun (s : TriggerStart) : Engine :=
  { s.engine with heap := s.engine.heap.setGlobal Serving.triggerGlobal (.table s.record) }

end TriggerStart

namespace Engine

variable {e e' : Engine} {id : TypeId} {t : TriggerEvent} {s : TriggerStart}
  {past : List TriggerStart}

/-- The start of a trigger function, if the routine is found. -/
def starts (e : Engine) (id : TypeId) (t : TriggerEvent) : Option TriggerStart :=
  match Serving.routineFor .trigger id e with
  | (.error _, _) => none
  | (.ok _, e) =>
    match Serving.makeRecord t e.entered with
    | (.error _, _) => none
    | (.ok (record, _), engine) => some { event := t, record, engine }

/-! ### The tables of relations -/

/-- The engine has the tables of the same relations. -/
def SameRelations (e e' : Engine) : Prop := e'.relations = e.relations

instance : Reserved SameRelations where
  elsewhere h := h.relations
  trans h h' := h'.trans h
  reach h := h.relations

/-- Calls make no tables of relations, but for those of triggers. -/
instance : Law SameRelations where
  serve hcall s args e := Reserved.serve hcall s args e
  value v e := (Serving.keepsTo_toValue v).kept e
  opened _ := rfl
  ended id e := by
    unfold endExecution
    cases e.execution? id <;> exact Indifferent.refl (R := SameRelations) e

theorem relations_onTransaction (e : Engine) (event : TransactionEvent) :
    (e.onTransaction event).2.relations = e.relations := by
  have hsame (entries : List (CleanupId × CleanupAction)) (e : Engine) :
      (entries.foldl (fun e entry => e.clean entry.2) e).relations = e.relations := by
    induction entries generalizing e with
    | nil => rfl
    | cons entry rest ih =>
      rw [List.foldl_cons, ih]
      cases entry.2 <;> rfl
  unfold onTransaction
  split
  · exact hsame e.cleanups.entries _
  · rfl

/-- The function starts if the routine is found. -/
theorem exists_starts (hfound : (Serving.routineFor .trigger id e).1.isOk = true)
    (t : TriggerEvent) : ∃ s, e.starts id t = some s := by
  unfold starts
  generalize Serving.routineFor .trigger id e = found at hfound ⊢
  obtain ⟨f | r, e'⟩ := found
  · cases hfound
  · obtain ⟨record, tuple, -, engine, hmade, -⟩ := Serving.makeRecord_spec t e'.entered
    simp only [hmade]
    exact ⟨_, rfl⟩

/-- The record is made in the frame of the call, once the routine is found. -/
theorem starts_spec (hs : e.starts id t = some s) :
    ∃ r e' tuple, Serving.routineFor .trigger id e = (.ok r, e') ∧
      Serving.makeRecord t e'.entered = (.ok (s.record, tuple), s.engine) ∧ s.event = t := by
  unfold starts at hs
  generalize hfound : Serving.routineFor .trigger id e = found at hs
  obtain ⟨f | r, e'⟩ := found
  · cases hs
  · obtain ⟨record, tuple, -, engine, hmade, -⟩ := Serving.makeRecord_spec t e'.entered
    simp only [hmade] at hs
    cases hs
    exact ⟨r, e', tuple, rfl, hmade, rfl⟩

/-- The function starts with the record as a global. -/
theorem runTrigger_of_makeRecord {r : CompiledRoutine} {tuple : Option TupleId}
    (hmade : Serving.makeRecord t e = (.ok (s.record, tuple), s.engine)) :
    Serving.runTrigger t r e = (Serving.runRaising r.function (t.args.map Value.ofText) >>=
      fun _ => Serving.rowLeft t s.record tuple) s.begun := by
  unfold Serving.runTrigger
  rw [Serving.publishEvent_eq, run_bind, run_bind, hmade]
  rfl

/-- What the engine knows of relations when a function starts, it knows when the call is over. -/
theorem relations_fire (hs : e.starts id t = some s) :
    (e.fire id t).2.relations = s.engine.relations := by
  obtain ⟨r, e', tuple, hfound, hmade, -⟩ := starts_spec hs
  obtain ⟨arena, poisoned, hframe⟩ :=
    inFrame_engine (plainWork (Serving.callTrigger t r)) e'
  have hfire : (e.fire id t).2 = (e'.inFrame (plainWork (Serving.callTrigger t r))).2 := by
    unfold fire invoke
    rw [hfound]
  have hran := Serving.KeepsTo.kept (R := SameRelations)
    (x := Serving.runRaising r.function (t.args.map Value.ofText) >>= fun _ =>
      Serving.rowLeft t s.record tuple) s.begun
  rw [← runTrigger_of_makeRecord hmade] at hran
  have hcalled : (Serving.callTrigger t r e'.entered).2.relations =
      (Serving.runTrigger t r e'.entered).2.relations := by
    unfold Serving.callTrigger Serving.attempt
    rw [run_bind]
    generalize Serving.runTrigger t r e'.entered = done
    obtain ⟨f | row, e''⟩ := done <;> rfl
  rw [hfire, hframe]
  exact hcalled.trans hran

/-- A trigger whose routine is not found makes no table. -/
theorem relations_fire_refused (hs : e.starts id t = none) :
    (e.fire id t).2.relations = e.relations := by
  have hkept := Serving.KeepsTo.kept (R := SameRelations)
    (x := Serving.routineFor .trigger id) e
  unfold starts at hs
  unfold fire invoke
  generalize hfound : Serving.routineFor .trigger id e = found at hkept hs
  obtain ⟨f | r, e'⟩ := found
  · exact hkept
  · obtain ⟨record, tuple, -, engine, hmade, -⟩ := Serving.makeRecord_spec t e'.entered
    simp only [hmade] at hs
    cases hs

/-! ### Histories -/

/-- What a host has done with an engine since it started, and the trigger functions that were
started meanwhile, the newest first. -/
inductive History : Engine → List TriggerStart → Prop where
  | start {options : Options} {host host' : Host} {e : Engine}
    (hstart : start options host = (.ok e, host')) : History e []
  /-- The host has changed. -/
  | host {e : Engine} {past : List TriggerStart} (h : History e past) (host : Host) :
    History { e with host } past
  | call {e : Engine} {past : List TriggerStart} (h : History e past) (id : TypeId) (args : Row) :
    History (e.call id args).2 past
  | next {e : Engine} {past : List TriggerStart} (h : History e past) (id : TypeId)
    (slot : SetCall) (args : Row) : History (e.next id slot args).2 past
  | abandon {e : Engine} {past : List TriggerStart} (h : History e past) (slot : SetCall) :
    History (e.abandon slot).2 past
  | validate {e : Engine} {past : List TriggerStart} (h : History e past) (id : TypeId) :
    History (e.validate id).2 past
  | invalidate {e : Engine} {past : List TriggerStart} (h : History e past) (id : TypeId) :
    History (e.invalidate id).2 past
  | onTransaction {e : Engine} {past : List TriggerStart} (h : History e past)
    (event : TransactionEvent) : History (e.onTransaction event).2 past
  /-- A trigger was fired, and its routine was not found. -/
  | refused {e : Engine} {past : List TriggerStart} (h : History e past) (id : TypeId)
    (t : TriggerEvent) (hs : e.starts id t = none) : History (e.fire id t).2 past
  | fired {e : Engine} {past : List TriggerStart} {s : TriggerStart} (h : History e past)
    (id : TypeId) (t : TriggerEvent) (hs : e.starts id t = some s) :
    History (e.fire id t).2 (s :: past)

/-- A start is the first one for the identifier of its relation. -/
def FirstOf (s : TriggerStart) (past : List TriggerStart) : Prop :=
  ∃ later earlier, past = later ++ s :: earlier ∧
    ∀ x ∈ earlier, x.event.relation.id ≠ s.event.relation.id

/-- The table of a relation and that of its positions are what they were in another engine. -/
structure Unchanged (e e₀ : Engine) (table : TableId) : Prop where
  relation : e.heap.table table = e₀.heap.table table
  positions : ∀ positions, e₀.heap.rawGet table (.ofText "attributes") = .table positions →
    e.heap.table positions = e₀.heap.table positions

/-- The tables of relations are those that were shown first. -/
structure Remembers (relations : List (TypeId × TableId)) (past : List TriggerStart) : Prop where
  unknown : ∀ id, relations.lookup id = none ↔ ∀ s ∈ past, s.event.relation.id ≠ id
  first : ∀ s, FirstOf s past → ∃ table, relations.lookup s.event.relation.id = some table ∧
    s.Shows table ∧ s.engine.heap.Describes table s.event.relation

/-- The first start in front of others is that of others, or the new one. -/
theorem FirstOf.of_cons {x : TriggerStart} (h : FirstOf s (x :: past)) :
    FirstOf s past ∨ s = x ∧ ∀ y ∈ past, y.event.relation.id ≠ s.event.relation.id := by
  obtain ⟨later, earlier, heq, hnone⟩ := h
  cases later with
  | nil =>
    obtain ⟨rfl, rfl⟩ := List.cons.inj heq
    exact .inr ⟨rfl, hnone⟩
  | cons y later =>
    obtain ⟨-, rfl⟩ := List.cons.inj heq
    exact .inl ⟨later, earlier, rfl, hnone⟩

theorem FirstOf.mem (h : FirstOf s past) : s ∈ past := by
  obtain ⟨later, earlier, rfl, -⟩ := h
  simp

/-- An identifier that has been there has a first start. -/
theorem exists_firstOf {relation : TypeId} (hpast : ∃ x ∈ past, x.event.relation.id = relation) :
    ∃ first, FirstOf first past ∧ first.event.relation.id = relation := by
  induction past with
  | nil => exact absurd hpast (by simp)
  | cons x rest ih =>
    by_cases hrest : ∃ y ∈ rest, y.event.relation.id = relation
    · obtain ⟨first, ⟨later, earlier, rfl, hnone⟩, hid⟩ := ih hrest
      exact ⟨first, ⟨x :: later, earlier, rfl, hnone⟩, hid⟩
    · obtain ⟨y, hy, hid⟩ := hpast
      rcases List.mem_cons.mp hy with rfl | hy
      · refine ⟨y, ⟨[], rest, rfl, fun z hz heq => hrest ⟨z, hz, heq.trans hid⟩⟩, hid⟩
      · exact absurd ⟨y, hy, hid⟩ hrest

/-- What a start finds in the engine, or adds to it. -/
theorem relations_starts (hs : e.starts id t = some s) :
    ∃ table, s.Shows table ∧
      (e.relations.lookup t.relation.id = some table ∧ s.engine.relations = e.relations ∨
        e.relations.lookup t.relation.id = none ∧
          s.engine.relations = (t.relation.id, table) :: e.relations ∧
          s.engine.heap.Describes table t.relation) := by
  obtain ⟨r, e', tuple, hfound, hmade, -⟩ := starts_spec hs
  have hsame : e'.relations = e.relations := by
    have hkept := Serving.KeepsTo.kept (R := SameRelations) (x := Serving.routineFor .trigger id) e
    rw [hfound] at hkept
    exact hkept
  obtain ⟨record, tuple', table, engine, hmade', hshown, hcases⟩ :=
    Serving.makeRecord_spec t e'.entered
  cases hmade.symm.trans hmade'
  rw [show e'.entered.relations = e.relations from hsame] at hcases
  exact ⟨table, hshown, hcases⟩

/-- One more start, of an identifier that is known or of a new one. -/
theorem Remembers.step (hr : Remembers e.relations past) (hs : e.starts id t = some s) :
    Remembers s.engine.relations (s :: past) := by
  obtain ⟨-, -, -, -, -, rfl⟩ := starts_spec hs
  obtain ⟨table, hshown, ⟨hknown, hsame⟩ | ⟨hunknown, hadded, hdescribes⟩⟩ := relations_starts hs
  · -- the identifier has been there
    have hmem : ∃ x ∈ past, x.event.relation.id = s.event.relation.id := by
      by_contra hnone
      have hlookup := (hr.unknown s.event.relation.id).mpr fun x hx heq => hnone ⟨x, hx, heq⟩
      cases hlookup.symm.trans hknown
    obtain ⟨x, hx, hid⟩ := hmem
    rw [hsame]
    refine ⟨fun id => ?_, fun y hy => ?_⟩
    · rw [hr.unknown, List.forall_mem_cons]
      exact ⟨fun hall => ⟨hid ▸ hall x hx, hall⟩, And.right⟩
    · rcases hy.of_cons with hy | ⟨rfl, hnone⟩
      · exact hr.first y hy
      · exact absurd hid (hnone x hx)
  · rw [hadded]
    refine ⟨fun id => ?_, fun y hy => ?_⟩
    · rw [List.forall_mem_cons, List.lookup_cons, ← hr.unknown]
      by_cases hid : id = s.event.relation.id
      · subst hid
        simp
      · rw [beq_false_of_ne hid]
        exact ⟨fun hnone => ⟨Ne.symm hid, hnone⟩, And.right⟩
    · rcases hy.of_cons with hy | ⟨rfl, -⟩
      · have hid : y.event.relation.id ≠ s.event.relation.id := by
          intro heq
          exact (hr.unknown s.event.relation.id).mp hunknown y hy.mem heq
        rw [List.lookup_cons, beq_false_of_ne hid]
        exact hr.first y hy
      · exact ⟨table, by rw [List.lookup_cons_self], hshown, hdescribes⟩

theorem History.remembers (h : History e past) : Remembers e.relations past := by
  induction h with
  | @start options host host' e hstart =>
    have hsame : e.relations = [] := Law.start (R := SameRelations) hstart
    rw [hsame]
    refine ⟨fun id => ⟨fun _ s hs => absurd hs List.not_mem_nil, fun _ => rfl⟩, fun s hs => ?_⟩
    exact absurd hs.mem List.not_mem_nil
  | host _ _ ih => exact ih
  -- requests other than a firing do not look at relations
  | @call e _ _ id args ih =>
    rw [show (e.call id args).2.relations = e.relations from
      Law.call (R := SameRelations) id args e]
    exact ih
  | @next e _ _ id slot args ih =>
    rw [show (e.next id slot args).2.relations = e.relations from
      Law.next (R := SameRelations) id slot args e]
    exact ih
  | @abandon e _ _ slot ih =>
    rw [show (e.abandon slot).2.relations = e.relations from
      Law.abandon (R := SameRelations) slot e]
    exact ih
  | @validate e _ _ id ih =>
    rw [show (e.validate id).2.relations = e.relations from
      Law.validate (R := SameRelations) id e]
    exact ih
  | invalidate _ _ ih => exact ih
  | onTransaction _ event ih =>
    rw [relations_onTransaction]
    exact ih
  | refused _ id t hs ih =>
    rw [relations_fire_refused hs]
    exact ih
  | fired _ id t hs ih =>
    rw [relations_fire hs]
    exact ih.step hs

/-! ### What is shown -/

/-- The first start of an identifier shows its own relation, whatever has been done with the engine
before. A later one shows the very table of the first, and with it what the first has shown if no
script has changed it since. -/
theorem History.relation_shown (h : History e past) (hs : e.starts id t = some s) :
    ∃ table, s.Shows table ∧
      ((∀ x ∈ past, x.event.relation.id ≠ t.relation.id) ∧
          s.engine.heap.Describes table t.relation ∨
        ∃ first, FirstOf first past ∧ first.event.relation.id = t.relation.id ∧
          first.Shows table ∧ first.engine.heap.Describes table first.event.relation ∧
          (s.engine.Unchanged first.engine table →
            s.engine.heap.Describes table first.event.relation)) := by
  have hr := h.remembers
  obtain ⟨table, hshown, ⟨hknown, -⟩ | ⟨hunknown, -, hdescribes⟩⟩ := relations_starts hs
  · refine ⟨table, hshown, .inr ?_⟩
    have hpast : ∃ x ∈ past, x.event.relation.id = t.relation.id := by
      by_contra hnone
      have hlookup := (hr.unknown t.relation.id).mpr fun x hx heq => hnone ⟨x, hx, heq⟩
      cases hlookup.symm.trans hknown
    obtain ⟨first, hfirst, hid⟩ := exists_firstOf hpast
    obtain ⟨table', hlookup, hshown', hdescribes⟩ := hr.first first hfirst
    rw [hid] at hlookup
    cases hknown.symm.trans hlookup
    exact ⟨first, hfirst, hid, hshown', hdescribes, fun hsame =>
      hdescribes.of_same hsame.relation hsame.positions⟩
  · exact ⟨table, hshown, .inl ⟨(hr.unknown t.relation.id).mp hunknown, hdescribes⟩⟩

/-- A statement has inserted rows into a relation with the identifier 5. -/
def inserted (name : String) : TriggerEvent where
  name := "audit"
  time := .after
  level := .statement
  operation := .insert
  relation := ⟨5, name, ⟨9, []⟩⟩

/-- A new engine, and a trigger function that does nothing. -/
def auditing : Engine :=
  let body : RoutineDefinition :=
    { id := 0, name := "f", source := "", argNames := [], argTypes := [],
      resultType := TypeId.trigger, returnsSet := false, stamp := .ofTransaction 0 }
  { bare {} Host.new with host := (Host.new.createRoutine body).2 }

theorem history_auditing : History auditing [] := by
  have hstart : start {} Host.new = (.ok (bare {} Host.new), Host.new) := rfl
  exact .host (.start hstart) _

/-- The engine after its first event. -/
def audited : Engine := (auditing.fire Host.firstId (inserted "orders")).2

theorem found_auditing : (Serving.routineFor .trigger Host.firstId auditing).1.isOk = true := by
  decide +kernel

theorem found_audited : (Serving.routineFor .trigger Host.firstId audited).1.isOk = true := by
  decide +kernel

/-- The relation has been renamed since the first event. -/
theorem relation_shown_renamed : ∃ first s table,
    auditing.starts Host.firstId (inserted "orders") = some first ∧
      (auditing.fire Host.firstId (inserted "orders")).2.starts Host.firstId
        (inserted "invoices") = some s ∧ first.Shows table ∧ s.Shows table := by
  obtain ⟨first, hfirst⟩ := exists_starts found_auditing (inserted "orders")
  obtain ⟨s, hs⟩ := exists_starts found_audited (inserted "invoices")
  obtain ⟨-, -, -, -, -, hevent⟩ := starts_spec hfirst
  obtain ⟨table, hshown, ⟨hnone, -⟩ | ⟨x, hx, -, hshown', -⟩⟩ :=
    (history_auditing.fired _ _ hfirst).relation_shown hs
  · refine absurd ?_ (hnone first List.mem_cons_self)
    rw [hevent]
    rfl
  · obtain rfl := List.mem_singleton.mp hx.mem
    exact ⟨x, s, table, hfirst, hs, hshown', hshown⟩

/-- The table of a relation that the engine has is the same at each start that may come next. -/
theorem table_starts {relation : TableId} (hs : e.starts id t = some s)
    (hknown : e.relations.lookup t.relation.id = some relation)
    (hthere : relation.index < (Serving.routineFor .trigger id e).2.heap.tables.size) :
    s.Shows relation ∧ s.engine.heap.table relation =
      (Serving.routineFor .trigger id e).2.heap.table relation := by
  obtain ⟨r, e', tuple, hfound, hmade, -⟩ := starts_spec hs
  have hsame := Serving.KeepsTo.kept (R := SameRelations) (x := Serving.routineFor .trigger id) e
  rw [hfound] at hsame hthere ⊢
  have hknown' : e'.entered.relations.lookup t.relation.id = some relation := by
    rw [show e'.entered.relations = e.relations from hsame]
    exact hknown
  obtain ⟨record, tuple', engine, fields, hmade', hshown, -, hheap⟩ :=
    Serving.makeRecord_of_relationTable (Serving.relationTable_known hknown')
  cases hmade.symm.trans hmade'
  refine ⟨hshown, ?_⟩
  rw [hheap]
  exact Heap.table_tableOf_of_lt fields hthere

/-- Two events with one identifier and different names cannot both show their own relation. -/
theorem relation_not_always_own :
    ¬ ∀ (e : Engine) (past : List TriggerStart) (id : TypeId) (t : TriggerEvent) (s : TriggerStart),
      History e past → e.starts id t = some s →
        ∃ table, s.Shows table ∧ s.engine.heap.Describes table t.relation := by
  intro hown
  obtain ⟨first, hfirst⟩ := exists_starts found_auditing (inserted "orders")
  have hpast : History audited [first] := history_auditing.fired _ _ hfirst
  have hknown : audited.relations.lookup 5 = some ⟨12⟩ := by decide +kernel
  have hthere : 12 < (Serving.routineFor .trigger Host.firstId audited).2.heap.tables.size := by
    decide +kernel
  -- whatever the name is, it is read from one and the same table
  have hname (name : String) :
      (Serving.routineFor .trigger Host.firstId audited).2.heap.rawGet ⟨12⟩ (.ofText "name") =
        .ofText name := by
    obtain ⟨s, hs⟩ := exists_starts found_audited (inserted name)
    obtain ⟨table, hshown, hdescribes⟩ := hown audited [first] _ _ s hpast hs
    obtain ⟨hshown', hsame⟩ := table_starts hs hknown hthere
    cases hshown.symm.trans hshown'
    have hshows := hdescribes.name
    unfold Heap.rawGet at hshows ⊢
    rw [← hsame]
    exact hshows
  have hsame := (hname "invoices").symm.trans (hname "receipts")
  exact absurd (Value.string.inj hsame) (by decide)

end Engine

end StoredRoutine
