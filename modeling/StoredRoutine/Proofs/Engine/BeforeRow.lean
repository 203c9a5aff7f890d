import StoredRoutine.Proofs.Engine.Later
import StoredRoutine.Proofs.Engine.Records
import StoredRoutine.Proofs.Engine.Triggers
import StoredRoutine.Proofs.Engine.Tuples

/-!
# `StoredRoutine.Proofs.Engine.BeforeRow`: the row that a trigger goes on with

A trigger that fires for a row before it is written has the row in a field of its record, as a tuple
that it may change, and the row before an update in another field, as one that it may not. What
becomes of the former is a matter of the assignments that the function makes
(`RowFiring.rowAfter`).

`RowFiring.Law` says what such a firing comes to, if its function does nothing but read and set
fields: the row to go on with is that of the host if nothing was assigned, and otherwise has in each
column what was assigned to it last, converted to the type of the column, or else the value that
was there. Assignments that fail leave no trace, and nothing happens to the row before the update.
-/

set_option autoImplicit false

namespace StoredRoutine

open Script (Heap Key ObjectId TableId Value lastField)

/-! ### Fields -/

namespace Script

/-- To set a global makes no difference to fields of other names, whatever table they are in. -/
theorem Heap.rawGet_setGlobal (h : Heap) {name field : String} (v : Value) (id : TableId)
    (hne : Key.ofText name ≠ .ofText field) :
    (h.setGlobal name v).rawGet id (.ofText field) = h.rawGet id (.ofText field) := by
  show ((h.setGlobal name v).table id).getKey (.ofText field) = (h.table id).getKey (.ofText field)
  unfold setGlobal
  rw [table_modifyTable]
  split
  next heq => rw [Table.getKey_setKey, if_neg (by simpa using hne), heq.1]
  · rfl

end Script

namespace Engine

variable {e e' : Engine} {stack : List FrameId}

/-- A field of a table shows a tuple. -/
def ShowsTuple (e : Engine) (table : TableId) (field : String) (id : TupleId) (t : Tuple) : Prop :=
  ∃ object, e.heap.rawGet table (.ofText field) = .object .tuple object ∧
    e.object? object = some (.tuple id) ∧ e.tuple? id = some t

theorem ShowsTuple.tuple? {table : TableId} {field : String} {id : TupleId} {t : Tuple}
    (h : e.ShowsTuple table field id t) : e.tuple? id = some t := by
  obtain ⟨-, -, -, ht⟩ := h
  exact ht

/-- The engine with a new tuple of a row, and an object that shows it. -/
def withTuple (e : Engine) (row : RowValue) (state : TupleState) : Engine :=
  { e with
    arena := (e.arena.allocate row.layout).2
    tuples := e.tuples.push
      { handle := (e.arena.allocate row.layout).1, values := row.values, state }
    objects := e.objects.push (.tuple ⟨e.tuples.size⟩) }

section WithTuple

variable (e) (row : RowValue) (state : TupleState)

theorem object?_withTuple :
    (e.withTuple row state).object? ⟨e.objects.size⟩ = some (.tuple ⟨e.tuples.size⟩) :=
  Array.getElem?_push_size

theorem tuple?_withTuple : (e.withTuple row state).tuple? ⟨e.tuples.size⟩ =
    some { handle := (e.arena.allocate row.layout).1, values := row.values, state } :=
  Array.getElem?_push_size

end WithTuple

/-- Objects, tuples and layouts that were there are still there. -/
structure Adds (e e' : Engine) : Prop where
  objects : ∀ {id o}, e.object? id = some o → e'.object? id = some o
  tuples : ∀ {id t}, e.tuple? id = some t → e'.tuple? id = some t
  layouts : ∀ {h layout}, e.arena.layout? h = some layout → e'.arena.layout? h = some layout

theorem Sound.adds_withTuple (hs : e.Sound stack) (row : RowValue) (state : TupleState) :
    e.Adds (e.withTuple row state) where
  objects {id o} ho := by
    obtain ⟨hlt, -⟩ := Array.getElem?_eq_some_iff.mp ho
    exact (Array.getElem?_push_lt hlt).trans ((Array.getElem?_eq_getElem hlt).symm.trans ho)
  tuples {id t} ht := by
    obtain ⟨hlt, -⟩ := Array.getElem?_eq_some_iff.mp ht
    exact (Array.getElem?_push_lt hlt).trans ((Array.getElem?_eq_getElem hlt).symm.trans ht)
  layouts {h layout} hlayout := by
    obtain ⟨x, hx, hlayout⟩ := Option.bind_eq_some_iff.mp hlayout
    obtain ⟨y, hy, hsame, -⟩ := (hs.arena.follows_allocate row.layout).kept hx
    exact Option.bind_eq_some_iff.mpr ⟨y, hy, hsame.trans hlayout⟩

theorem Sound.layout?_withTuple (hs : e.Sound stack) (row : RowValue) (state : TupleState) :
    (e.withTuple row state).arena.layout? (e.arena.allocate row.layout).1 = some row.layout := by
  show ((e.arena.allocate row.layout).2.handle? _).bind _ = _
  rw [Arena.handle?_allocate hs.arena.toCounted, if_pos rfl]
  rfl

end Engine

/-! ### Tuples stay where they are -/

/-- What was a tuple is the same tuple. -/
def Object.KeepsTuple (o p : Object) : Prop := ∀ id, o = .tuple id → p = .tuple id

theorem law_keepsTuple : Object.Law Object.KeepsTuple where
  refl _ _ ho := ho
  trans h h' id ho := h' id (h id ho)
  change h id ho := by
    subst ho
    cases h
    rfl
  shut o id ho := by
    subst ho
    rfl
  closed o id ho := by
    subst ho
    rfl

/-- A row with the columns of a layout is taken over. -/
theorem Marshal.toRow_same (b : Border) {row : RowValue} {layout : RowLayout}
    (hcolumns : row.layout.attributes = layout.attributes) (types : TypeCache) :
    toRow b (.tuple (some row)) layout types = (.ok ⟨layout, row.values⟩, types) := by
  have hrow : (liftExcept (rowOfTuple (some row)) : Resolving RowValue) types = (.ok row, types) :=
    rfl
  unfold toRow retype
  dsimp only
  rw [run_bind, hrow]
  dsimp only
  rw [if_pos hcolumns]
  rfl

namespace Serving

variable {e e' : Engine} {stack : List FrameId}

theorem rowField_some (name : String) (row : RowValue) (state : TupleState) (e : Engine) :
    rowField name (some row) state e =
      (.ok ([(name, .object .tuple ⟨e.objects.size⟩)], some ⟨e.tuples.size⟩),
        e.withTuple row state) := rfl

/-! ### The record of an event for a row -/

theorem relationTable_answers (r : Relation) (e : Engine) :
    ∃ relation e₁, relationTable r e = (.ok relation, e₁) := by
  cases hknown : e.relations.lookup r.id with
  | some id => exact ⟨_, _, relationTable_known hknown⟩
  | none =>
    obtain ⟨id, heap, hmade, -⟩ := relationTable_unknown hknown
    exact ⟨_, _, hmade⟩

instance (r : Relation) : Reading (relationTable r) := by
  unfold relationTable
  refine .bind fun e => ?_
  split
  · infer_instance
  · exact reading_of_same (fun _ => rfl) fun _ => rfl

instance (name : String) (row : Option RowValue) (state : TupleState) :
    Reading (rowField name row state) := by
  unfold rowField
  cases row <;> infer_instance

instance (t : TriggerEvent) : Reading (publishEvent t) := by
  unfold publishEvent
  refine .bind fun relation => .bind fun made => .bind fun made' => ?_
  exact reading_of_same (fun _ => rfl) fun _ => rfl

/-- The record of an event for a row has the fields of the event and those of its rows. -/
theorem publishEvent_fields {t : TriggerEvent} {record : TableId} {start tuple old : Option TupleId}
    {relation : Value} {rowFields oldFields : List (String × Value)} {e₁ e₂ e₃ : Engine}
    (hlevel : t.level = .row) (hrelation : relationTable t.relation e = (.ok relation, e₁))
    (hrow : rowField "row" t.currentRow .writable e₁ = (.ok (rowFields, tuple), e₂))
    (hold : rowField "old" t.oldRow .readOnly e₂ = (.ok (oldFields, old), e₃))
    (hpublished : publishEvent t e = (.ok (record, start), e')) :
    start = tuple ∧ ∃ heap, e' = { e₃ with heap } ∧
      ∀ field, Key.ofText triggerGlobal ≠ .ofText field → heap.rawGet record (.ofText field) =
        lastField (eventFields t relation ++ rowFields ++ oldFields) (.ofText field) := by
  have hforRow (row : Option RowValue) : (row.filter fun _ => t.level == .row) = row := by
    rw [hlevel]
    cases row <;> rfl
  rw [← hforRow t.currentRow] at hrow
  rw [← hforRow t.oldRow] at hold
  rw [publishEvent_eq, run_bind, makeRecord_eq hrelation hrow hold] at hpublished
  cases hpublished
  refine ⟨rfl, _, rfl, fun field hne => ?_⟩
  rw [Heap.rawGet_setGlobal _ _ _ hne, Heap.rawGet_tableOf]

/-- The record of an event for a row shows the row as a tuple that can be changed, and the row
before an update as one that cannot. -/
theorem publishEvent_row {t : TriggerEvent} {row : RowValue} {record : TableId}
    {start : Option TupleId} (hs : e.Sound stack) (hlevel : t.level = .row)
    (hrow : t.currentRow = some row) (hpublished : publishEvent t e = (.ok (record, start), e')) :
    (∃ id tuple, start = some id ∧ e'.ShowsTuple record "row" id tuple ∧
        tuple.values = row.values ∧ tuple.state = .writable ∧
        e'.layoutOf? tuple = some row.layout) ∧
      ∀ old, t.oldRow = some old → ∃ id tuple, e'.ShowsTuple record "old" id tuple ∧
        tuple.values = old.values ∧ tuple.state = .readOnly := by
  obtain ⟨relation, e₁, hrelation⟩ := relationTable_answers t.relation e
  have hs₁ : e₁.Sound stack := by
    have hkept := (keeps_relationTable t.relation).spec hs
    rw [hrelation] at hkept
    exact hkept.1
  let e₂ := e₁.withTuple row .writable
  have hs₂ : e₂.Sound stack := ((keeps_rowField "row" (some row) .writable).spec hs₁).1
  have hcurrent : rowField "row" t.currentRow .writable e₁ =
      (.ok ([("row", .object .tuple ⟨e₁.objects.size⟩)], some ⟨e₁.tuples.size⟩), e₂) := by
    rw [hrow]
    rfl
  have hrowTuple := Engine.tuple?_withTuple e₁ row .writable
  -- an old row is shown after the row itself, so it must not take the place of the row
  cases hold : t.oldRow with
  | none =>
    obtain ⟨hstart, heap, rfl, hfields⟩ :=
      publishEvent_fields hlevel hrelation hcurrent (by rw [hold]; rfl) hpublished
    refine ⟨⟨_, _, hstart, ⟨_, ?_, Engine.object?_withTuple e₁ row .writable, hrowTuple⟩, rfl, rfl,
      hs₁.layout?_withTuple row .writable⟩, fun old hold => by cases hold⟩
    refine (hfields "row" (by decide)).trans ?_
    rw [List.append_nil, Script.lastField_concat]
  | some old =>
    have hgiven := rowField_some "old" old .readOnly e₂
    rw [← hold] at hgiven
    obtain ⟨hstart, heap, rfl, hfields⟩ :=
      publishEvent_fields hlevel hrelation hcurrent hgiven hpublished
    have hadds := hs₂.adds_withTuple old .readOnly
    refine ⟨⟨_, _, hstart, ⟨_, ?_, hadds.objects (Engine.object?_withTuple e₁ row .writable),
      hadds.tuples hrowTuple⟩, rfl, rfl, hadds.layouts (hs₁.layout?_withTuple row .writable)⟩,
      fun old' hold' => ?_⟩
    · have hother : ∀ f ∈ [("old", Value.object .tuple ⟨e₂.objects.size⟩)],
          Key.ofText f.1 ≠ .ofText "row" := by
        intro f hf
        rw [List.mem_singleton.mp hf]
        exact show Key.ofText "old" ≠ .ofText "row" by decide
      refine (hfields "row" (by decide)).trans ?_
      rw [Script.lastField_append_of_ne hother, Script.lastField_concat]
    · cases hold'
      refine ⟨_, _, ⟨_, ?_, Engine.object?_withTuple e₂ old .readOnly,
        Engine.tuple?_withTuple e₂ old .readOnly⟩, rfl, rfl⟩
      exact (hfields "old" (by decide)).trans (Script.lastField_concat _ _ _)

/-! ### The function of a trigger -/

theorem runUnprotected_returned {call : Caller} {f : Value} {args results : List Value}
    (hran : runUnprotected call f args e = (.ok results, e')) : e' = (call f args e).2 := by
  obtain ⟨returned, e₁, hfunction, hgiven⟩ := run_bind_ok hran
  have hsame : (call f args e).2 = e₁ := by
    unfold runFunction at hfunction
    generalize call f args e = done at hfunction ⊢
    obtain ⟨ending, e₂⟩ := done
    cases ending <;> cases hfunction <;> rfl
  rw [hsame]
  cases returned with
  | ok values =>
    cases hgiven
    rfl
  | error raised =>
    -- what was raised is thrown, whatever its text is
    obtain ⟨_, _, -, hthrown⟩ := run_bind_ok hgiven
    cases hthrown

/-- A function that returns has run in one protected call. -/
theorem runRaising_returned {f : Value} {args results : List Value}
    (hran : runRaising f args e = (.ok results, e')) :
    e' = (Engine.callFunction (.builtin .pcall) (f :: args) e).2 := by
  obtain ⟨returned, e₁, hprotected, hgiven⟩ := run_bind_ok hran
  obtain ⟨outcome, e₂, hattempt, hanswer⟩ := run_bind_ok hprotected
  unfold attempt at hattempt
  generalize hunprotected :
    runUnprotected Engine.callFunction (.builtin .pcall) (f :: args) e = done at hattempt
  obtain ⟨result, e₃⟩ := done
  cases hattempt
  cases outcome with
  | error failure =>
    cases hanswer
    obtain ⟨_, _, -, hthrown⟩ := run_bind_ok hgiven
    cases hthrown
  | ok values =>
    rw [← runUnprotected_returned hunprotected]
    dsimp only at hanswer
    split at hanswer
    · cases hanswer
      cases hgiven
      rfl
    · cases hanswer
      obtain ⟨_, _, -, hthrown⟩ := run_bind_ok hgiven
      cases hthrown

/-! ### The row that is left -/

section RowLeft

variable {t : TriggerEvent} {record : TableId} {start : Option TupleId}

theorem rowLeft_nil (hreturns : t.returnsRow = true)
    (hrow : e.heap.rawGet record (.ofText "row") = .nil) :
    rowLeft t record start e = (.ok none, e) := by
  have hget : (get : Serving Engine) e = (.ok e, e) := rfl
  unfold rowLeft
  rw [hreturns]
  simp only [Bool.not_true, Bool.false_eq_true, if_false]
  rw [run_bind, hget]
  simp only [hrow]
  rfl

theorem rowLeft_tuple {id : TupleId} {object : ObjectId} (hreturns : t.returnsRow = true)
    (hfield : e.heap.rawGet record (.ofText "row") = .object .tuple object)
    (hobject : e.object? object = some (.tuple id)) :
    rowLeft t record start e =
      (if isUntouched e start id then pure t.currentRow
        else toRow (.object .tuple object) t.relation.layout >>= fun row => pure (some row)) e := by
  have hget : (get : Serving Engine) e = (.ok e, e) := rfl
  unfold rowLeft
  rw [hreturns]
  simp only [Bool.not_true, Bool.false_eq_true, if_false]
  rw [run_bind, hget]
  simp only [hfield, hobject]

/-- A tuple that was not changed stands for the row of the host. -/
theorem rowLeft_untouched {id : TupleId} {tuple : Tuple} (hreturns : t.returnsRow = true)
    (hrow : e.ShowsTuple record "row" id tuple) (hstart : start = some id)
    (hstate : tuple.state ≠ .modified) : rowLeft t record start e = (.ok t.currentRow, e) := by
  obtain ⟨object, hfield, hobject, htuple⟩ := hrow
  have huntouched : isUntouched e start id = true := by
    unfold isUntouched
    simp [hstart, htuple, hstate]
  rw [rowLeft_tuple hreturns hfield hobject, if_pos huntouched]
  rfl

/-- A tuple is taken over as it is, if it has the columns of the layout. -/
theorem toRow_tuple {id : TupleId} {object : ObjectId} {tuple : Tuple}
    {layout target : RowLayout} (hobject : e.object? object = some (.tuple id))
    (htuple : e.tuple? id = some tuple) (hlayout : e.layoutOf? tuple = some layout)
    (hcolumns : layout.attributes = target.attributes) :
    toRow (.object .tuple object) target e = (.ok ⟨target, tuple.values⟩, e) := by
  have hget : (get : Serving Engine) e = (.ok e, e) := rfl
  have hread : e.ofValue (.object .tuple object) = .ok (.tuple (some ⟨layout, tuple.values⟩)) := by
    unfold Engine.ofValue Engine.readValue
    simp only [hobject, htuple, Option.bind_some, Engine.rowOf?, hlayout, Option.map_some]
  have hvalue : ofValue (.object .tuple object) e =
      (.ok (.tuple (some ⟨layout, tuple.values⟩)), e) := by
    unfold ofValue
    rw [run_bind, hget]
    simp only [hread]
    rfl
  unfold toRow
  rw [run_bind, hvalue]
  unfold converting
  dsimp only
  rw [Marshal.toRow_same _ hcolumns]

/-- A tuple that was changed stands for a row of the relation. -/
theorem rowLeft_modified {id : TupleId} {tuple : Tuple} {layout : RowLayout}
    (hreturns : t.returnsRow = true) (hrow : e.ShowsTuple record "row" id tuple)
    (hstate : tuple.state = .modified) (hlayout : e.layoutOf? tuple = some layout)
    (hcolumns : layout.attributes = t.relation.layout.attributes) :
    rowLeft t record start e = (.ok (some ⟨t.relation.layout, tuple.values⟩), e) := by
  obtain ⟨object, hfield, hobject, htuple⟩ := hrow
  have htouched : ¬ isUntouched e start id = true := by
    unfold isUntouched
    simp [htuple, hstate]
  rw [rowLeft_tuple hreturns hfield hobject, if_neg htouched, run_bind,
    toRow_tuple hobject htuple hlayout hcolumns]
  rfl

end RowLeft

/-! ### Calls -/

/-- What a trigger function has left is what the call answers. The event is taken back. -/
theorem callTrigger_eq {t : TriggerEvent} {r : CompiledRoutine}
    {outcome : Outcome (Option RowValue)} (hran : runTrigger t r e = (outcome, e')) :
    callTrigger t r e =
      (outcome, { e' with heap := e'.heap.setGlobal triggerGlobal .nil }) := by
  unfold callTrigger attempt
  rw [run_bind, hran]
  cases outcome <;> rfl

/-- A trigger function runs when the event is published, and leaves a row. -/
theorem runTrigger_eq {t : TriggerEvent} {r : CompiledRoutine} {record : TableId}
    {start : Option TupleId} {begun ended : Engine} {results : List Value}
    (hpublished : publishEvent t e = (.ok (record, start), begun))
    (hran : runRaising r.function (t.args.map Value.ofText) begun = (.ok results, ended)) :
    runTrigger t r e = rowLeft t record start ended := by
  unfold runTrigger
  rw [run_bind, hpublished]
  dsimp only
  rw [run_bind, hran]

end Serving

namespace Engine

variable {e : Engine} {stack : List FrameId}

/-- The requests of a function that runs in a protected call. -/
def requestsOf (e : Engine) (f : Value) (args : List Value) : List Request :=
  e.requests maxTurns { focus := .call hostPosition (.builtin .pcall) (f :: args), level := 1 }

theorem asks_runRaising {e' : Engine} {f : Value} {args results : List Value}
    (hran : Serving.runRaising f args e = (.ok results, e')) :
    e.Asks (e.requestsOf f args) e' := by
  rw [Serving.runRaising_returned hran]
  exact asks_run _ _ e

/-- A call of a trigger whose function has left a row in an engine that can be used. -/
theorem fire_left (hs : e.Sound stack) {id : TypeId} {t : TriggerEvent} {r : CompiledRoutine}
    {found last : Engine} {outcome : Outcome (Option RowValue)}
    (hfound : Serving.routineFor .trigger id e = (.ok r, found))
    (hran : Serving.runTrigger t r found.entered = (outcome, last))
    (husable : last.poisoned = false) :
    (e.fire id t).1 = outcome := by
  have hroutine := (Serving.keeps_routineFor .trigger id).spec hs
  rw [hfound] at hroutine
  obtain ⟨hs', -, hr⟩ := hroutine
  have hcalled := Serving.callTrigger_eq hran
  have hdone : found.entered.Worked _ _ (plainWork (Serving.callTrigger t r) found.entered) :=
    worked_plainWork (Serving.keeps_callTrigger t hr) hs'.entered ⟨rfl, rfl⟩
  obtain ⟨arena, hframe⟩ := inFrame_usable hs' hdone (by
    unfold plainWork
    rw [hcalled]
    exact husable)
  unfold fire invoke
  rw [hfound]
  dsimp only
  rw [hframe]
  unfold plainWork
  rw [hcalled]

end Engine

/-- A trigger fires for a row before it is written. Its function does nothing but read and set
fields, and returns. -/
structure RowFiring (e : Engine) (id : TypeId) (t : TriggerEvent) where
  row : RowValue
  routine : CompiledRoutine
  /-- The engine in which the routine is found, -/
  found : Engine
  /-- the record of the event, with the tuple of the row, -/
  record : TableId
  start : Option TupleId
  /-- the engine in which the function starts, -/
  begun : Engine
  results : List Value
  /-- and the one in which it returns. -/
  ended : Engine
  returnsRow : t.returnsRow = true
  hasRow : t.currentRow = some row
  columns : row.layout.attributes = t.relation.layout.attributes
  finds : Serving.routineFor .trigger id e = (.ok routine, found)
  usable : found.poisoned = false
  publishes : Serving.publishEvent t found.entered = (.ok (record, start), begun)
  returns : Serving.runRaising routine.function (t.args.map Value.ofText) begun =
    (.ok results, ended)
  accesses : ∀ q ∈ begun.requestsOf routine.function (t.args.map Value.ofText),
    q.service.accessesFields = true

namespace RowFiring

variable {e : Engine} {id : TypeId} {t : TriggerEvent} {stack : List FrameId}

/-- What the function asks for, in its order. -/
def requests (f : RowFiring e id t) : List Request :=
  f.begun.requestsOf f.routine.function (t.args.map Value.ofText)

/-- The assignments to the row. -/
def assigned (f : RowFiring e id t) : List Assignment :=
  f.start.elim [] fun id => assignmentsTo id f.requests

/-- The row that the assignments make of that of the host. -/
def rowAfter (f : RowFiring e id t) : RowValue :=
  if f.assigned.isEmpty then f.row
  else ⟨t.relation.layout, overwritten f.assigned f.row.values⟩

/-- What a firing comes to. -/
structure Law (f : RowFiring e id t) : Prop where
  /-- A field is set by an assignment, -/
  succeeding : ∀ q ∈ f.requests, q.service = .writeField → ∀ (call : Caller) (values : List Value)
    (after : Engine), Serving.serve call q.service q.args q.engine = (.ok values, after) →
      ∃ a, q.assignment? = some a ∧ after.tuples = (q.engine.assign a).tuples
  /-- and where there is none to make, no tuple is changed. -/
  failing : ∀ q ∈ f.requests, q.service = .writeField → ∀ (call : Caller) (failure : Failure)
    (after : Engine), Serving.serve call q.service q.args q.engine = (.error failure, after) →
      q.assignment? = none ∧ after.tuples = q.engine.tuples
  /-- The row before an update is the same at all times. -/
  old : ∀ row, t.oldRow = some row → ∃ id tuple, f.begun.ShowsTuple f.record "old" id tuple ∧
    tuple.values = row.values ∧ tuple.state = .readOnly ∧
    (∀ q ∈ f.requests, q.engine.tuple? id = some tuple) ∧ f.ended.tuple? id = some tuple
  /-- The function finds the row as it is. -/
  shown : ∃ id tuple, f.start = some id ∧ f.begun.ShowsTuple f.record "row" id tuple ∧
    tuple.values = f.row.values ∧ tuple.state = .writable
  /-- If the tuple is left in its place, the row to go on with is what was assigned to it. -/
  row : f.ended.heap.rawGet f.record (.ofText "row") =
      f.begun.heap.rawGet f.record (.ofText "row") →
    (e.fire id t).1 = .ok (some f.rowAfter)
  /-- If it is taken away, there is no row. -/
  gone : f.ended.heap.rawGet f.record (.ofText "row") = .nil → (e.fire id t).1 = .ok none

section Course

variable (f : RowFiring e id t)

theorem asks : f.begun.Asks f.requests f.ended := Engine.asks_runRaising f.returns

theorem found_sound (hs : e.Sound stack) :
    f.found.Sound stack ∧ Serving.Callable f.found f.routine := by
  have hroutine := (Serving.keeps_routineFor .trigger id).spec hs
  rw [f.finds] at hroutine
  exact ⟨hroutine.1, hroutine.2.2⟩

/-- The layouts that there are when the function starts are still there when it returns. -/
theorem layoutOf?_ended (hs : e.Sound stack) {tuple : Tuple} {layout : RowLayout}
    (hlayout : f.begun.layoutOf? tuple = some layout) :
    f.ended.layoutOf? tuple = some layout := by
  obtain ⟨hs₁, hr⟩ := f.found_sound hs
  have hpublished := (Serving.keeps_publishEvent t).spec hs₁.entered
  rw [f.publishes] at hpublished
  obtain ⟨hs₂, hfollows, -⟩ := hpublished
  have hargs : Script.AllOf f.begun.Admits (t.args.map Value.ofText) := by
    intro v hv
    obtain ⟨text, -, rfl⟩ := List.mem_map.mp hv
    exact Engine.innate_admits f.begun _ rfl
  have hran := (Serving.keeps_runRaising (hfollows.admits hr) hargs).spec hs₂
  rw [f.returns] at hran
  obtain ⟨x, hx, hsome⟩ := Option.bind_eq_some_iff.mp hlayout
  obtain ⟨y, hy, hsame, -⟩ := hran.2.1.arena.kept hx
  exact Option.bind_eq_some_iff.mpr ⟨y, hy, hsame.trans hsome⟩

theorem poisoned_ended : f.ended.poisoned = false := by
  have hpublished := (Serving.Reading.reads (x := Serving.publishEvent t) f.found.entered).poisoned
  rw [f.publishes] at hpublished
  exact (f.asks.poisoned f.accesses).trans (hpublished.trans f.usable)

/-- A tuple that the record shows is shown there at the end, too, if its field is left alone. -/
theorem shows_ended {field : String} {place : TupleId} {tuple : Tuple}
    (hshown : f.begun.ShowsTuple f.record field place tuple)
    (hsame : f.ended.heap.rawGet f.record (.ofText field) =
      f.begun.heap.rawGet f.record (.ofText field)) :
    f.ended.ShowsTuple f.record field place (tuple.edited (assignmentsTo place f.requests)) := by
  obtain ⟨object, hfield, hobject, htuple⟩ := hshown
  have hmoves := Serving.Moving.moves
    (x := Serving.runRaising f.routine.function (t.args.map Value.ofText)) f.begun
  unfold Serving.MovesFrom at hmoves
  rw [f.returns] at hmoves
  obtain ⟨o, ho, hkept⟩ := hmoves.evolves law_keepsTuple object _ hobject
  refine ⟨object, hsame.trans hfield, ?_, f.asks.tuple? f.accesses htuple⟩
  rw [ho, hkept place rfl]

end Course

/-- What the script makes of the tuple of the row is what the trigger goes on with. -/
theorem rowLeft_eq (f : RowFiring e id t) (hs : e.Sound stack)
    (hsame : f.ended.heap.rawGet f.record (.ofText "row") =
      f.begun.heap.rawGet f.record (.ofText "row"))
    {place : TupleId} {tuple : Tuple} (hstart : f.start = some place)
    (hshown : f.begun.ShowsTuple f.record "row" place tuple) (hvalues : tuple.values = f.row.values)
    (hstate : tuple.state = .writable) (hlayout : f.begun.layoutOf? tuple = some f.row.layout) :
    Serving.rowLeft t f.record f.start f.ended = (.ok (some f.rowAfter), f.ended) := by
  have hended := f.shows_ended hshown hsame
  have hassigned : f.assigned = assignmentsTo place f.requests := by
    unfold assigned
    rw [hstart]
    rfl
  rw [← hassigned] at hended
  unfold rowAfter
  by_cases hnone : f.assigned = []
  · rw [hnone] at hended ⊢
    have hwritable : (tuple.edited []).state ≠ .modified := by
      rw [show tuple.edited [] = tuple from rfl, hstate]
      decide
    rw [Serving.rowLeft_untouched f.returnsRow hended hstart hwritable, f.hasRow]
    rfl
  · have hlast : f.ended.layoutOf? (tuple.edited f.assigned) = some f.row.layout := by
      unfold Engine.layoutOf?
      rw [Tuple.handle_edited]
      exact f.layoutOf?_ended hs hlayout
    rw [if_neg (by simpa using hnone), Serving.rowLeft_modified f.returnsRow hended
      (tuple.state_edited f.assigned hnone) hlast f.columns, Tuple.values_edited, hvalues]

/-- Every firing of this kind follows the law. -/
theorem law (f : RowFiring e id t) (hs : e.Sound stack) : f.Law := by
  have hlevel : t.level = .row := by
    have hboth := f.returnsRow
    unfold TriggerEvent.returnsRow at hboth
    exact eq_of_beq (Bool.and_eq_true_iff.mp hboth).2
  obtain ⟨⟨place, tuple, hstart, hshown, hvalues, hstate, hlayout⟩, hold⟩ :=
    Serving.publishEvent_row (f.found_sound hs).1.entered hlevel f.hasRow f.publishes
  have hran := Serving.runTrigger_eq f.publishes f.returns
  refine ⟨fun q _ hq call values after hserved => ?_, fun q _ hq call failure after hserved => ?_,
    fun row hrow => ?_, ⟨place, tuple, hstart, hshown, hvalues, hstate⟩, fun hsame => ?_,
    fun hnil => ?_⟩
  · rcases q.serve_writeField hq call with ⟨a, types, hmade, hdone⟩ | ⟨failure, types, -, hdone⟩
    · cases hdone.symm.trans hserved
      exact ⟨a, hmade, rfl⟩
    · cases hdone.symm.trans hserved
  · rcases q.serve_writeField hq call with ⟨a, types, -, hdone⟩ | ⟨failure', types, hnone, hdone⟩
    · cases hdone.symm.trans hserved
    · cases hdone.symm.trans hserved
      exact ⟨hnone, rfl⟩
  · obtain ⟨id', tuple', hshown', hvalues', hstate'⟩ := hold row hrow
    exact ⟨id', tuple', hshown', hvalues', hstate',
      f.asks.tuple?_readOnly f.accesses hshown'.tuple? hstate'⟩
  · rw [f.rowLeft_eq hs hsame hstart hshown hvalues hstate hlayout] at hran
    exact Engine.fire_left hs f.finds hran f.poisoned_ended
  · rw [Serving.rowLeft_nil f.returnsRow hnil] at hran
    exact Engine.fire_left hs f.finds hran f.poisoned_ended

/-- A function that sets a column of what it has in a variable from outside. -/
def assigningCode : Script.FunctionCode where
  params := 0
  variadic := false
  size := 2
  code := #[.setField (.outer 0) (.constant (.ofText "id")) (.constant (.ofInt 7)),
    .result 0 (some 0)]
  lines := #[1, 1]
  captures := #[]
  functions := #[]

/-- The function is compiled, and its variable has the object that the next row is going to get. -/
def assigningEngine : Engine :=
  let body : RoutineDefinition :=
    { id := 0, name := "f", source := "", argNames := [], argTypes := [],
      resultType := TypeId.trigger, returnsSet := false, stamp := .ofTransaction 0 }
  let (cell, heap) := Heap.newCell
    { tables := #[{}, {}], threads := #[.active], globals := ⟨0⟩, strings := ⟨1⟩ }
    (.object .tuple ⟨0⟩)
  let (function, heap) := heap.newClosure
    { code := assigningCode, outers := #[cell], chunk := [] }
  { options := {}
    host := (Host.new.createRoutine body).2
    heap
    routines := { entries := [(Host.firstId, .ofDefinition
      { body with stamp := Host.new.nextStamp.1 } (.closure function))] }
    reports := ⟨0⟩
    setBody := .nil }

theorem assigningEngine_sound : assigningEngine.Sound [] := by
  have own := Engine.innate_admits assigningEngine
  have hheap := (Script.Library.closed_empty.holdsAll own fun id _ => Engine.admits_table _ id)
    |>.newCell (Engine.admits_object .tuple ⟨0⟩)
  refine ⟨Arena.sound_empty, fun o ho => absurd ho (Array.not_mem_empty o), hheap.newClosure _,
    fun v hv => own v ?_, ⟨rfl, rfl⟩, Engine.Registered.empty⟩
  rcases List.mem_cons.mp hv with rfl | hv
  · rfl
  · rw [List.mem_singleton.mp hv]
    rfl

/-- A row with two columns is inserted. -/
def pairInserted : TriggerEvent :=
  let layout : RowLayout := ⟨5, [⟨"id", Scalar.int4.id, -1⟩, ⟨"count", Scalar.int4.id, -1⟩]⟩
  { name := "check", time := .before, level := .row, operation := .insert,
    relation := ⟨5, "items", layout⟩, row := some ⟨layout, [none, some (.int4 3)]⟩ }

/-- The first column is set. -/
def assigningFiring : RowFiring assigningEngine Host.firstId pairInserted where
  row := ⟨pairInserted.relation.layout, [none, some (.int4 3)]⟩
  routine := _
  found := assigningEngine
  record := ⟨4⟩
  start := some ⟨0⟩
  begun := (Serving.publishEvent pairInserted assigningEngine.entered).2
  results := []
  ended := (Serving.runRaising (.closure ⟨0⟩) []
    (Serving.publishEvent pairInserted assigningEngine.entered).2).2
  returnsRow := rfl
  hasRow := rfl
  columns := rfl
  finds := rfl
  usable := rfl
  publishes := by with_unfolding_all rfl
  returns := by with_unfolding_all rfl
  accesses := List.all_eq_true.mp (by decide +kernel)

/-- The column that was set is new in the row, and the other is as the host had it. -/
theorem law_assigning : assigningFiring.Law ∧
    (assigningEngine.fire Host.firstId pairInserted).1 =
      .ok (some ⟨pairInserted.relation.layout, [some (.int4 7), some (.int4 3)]⟩) := by
  have hlaw := law assigningFiring assigningEngine_sound
  have htables : assigningFiring.ended.heap.tables = assigningFiring.begun.heap.tables := by
    with_unfolding_all rfl
  refine ⟨hlaw, (hlaw.row ?_).trans (by with_unfolding_all rfl)⟩
  unfold Heap.rawGet Heap.table
  rw [htables]

end RowFiring

end StoredRoutine
