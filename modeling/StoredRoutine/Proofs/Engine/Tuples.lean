import StoredRoutine.Engine.Run
import StoredRoutine.Proofs.Engine.Routines

/-!
# `StoredRoutine.Proofs.Engine.Tuples`: what scripts do to tuples

A script sets a field of a tuple through a service. What comes of it is an `Assignment`, or a
failure (`Engine.assignment`); one that fails changes nothing but the descriptors that are kept
(`Serving.writeField_eq`). All other access to fields leaves the tuples that are there alone
(`Serving.Reading`).

A run asks for services one after the other (`Engine.requests`). If they are all of these kinds, a
tuple is at the end of the run what its assignments have made of it, in their order
(`Engine.Asks.tuple?`), and a tuple that is read-only is the same all the time
(`Engine.Asks.tuple?_readOnly`). Of several assignments to a column the last one counts
(`Tuple.values_edited`).
-/

set_option autoImplicit false

namespace StoredRoutine

open Script (Control Machine.advance ObjectId ObjectKind Service Table Value)

/-! ### Assignments -/

/-- A column of a tuple gets a value. -/
structure Assignment where
  tuple : TupleId
  column : Nat
  value : Option Datum

namespace Tuple

/-- The tuple with another value in a column. -/
def assign (t : Tuple) (column : Nat) (value : Option Datum) : Tuple :=
  { t with values := t.values.set column value, state := .modified }

/-- The tuple after assignments to it. -/
def edited (t : Tuple) (assigned : List Assignment) : Tuple :=
  assigned.foldl (fun t a => t.assign a.column a.value) t

end Tuple

/-- The value of the last assignment to a column. -/
def lastAssigned (assigned : List Assignment) (column : Nat) : Option (Option Datum) :=
  assigned.foldl (fun last a => if a.column = column then some a.value else last) none

/-- A row in which columns have the values that were assigned to them last. -/
def overwritten (assigned : List Assignment) (values : Row) : Row :=
  values.mapIdx fun column d => (lastAssigned assigned column).getD d

section Edited

variable (t : Tuple) (assigned : List Assignment)

theorem lastAssigned_concat (a : Assignment) (column : Nat) :
    lastAssigned (assigned ++ [a]) column =
      if a.column = column then some a.value else lastAssigned assigned column := by
  unfold lastAssigned
  rw [List.foldl_append]
  rfl

theorem Tuple.edited_append (more : List Assignment) :
    t.edited (assigned ++ more) = (t.edited assigned).edited more := List.foldl_append

theorem Tuple.edited_concat (a : Assignment) :
    t.edited (assigned ++ [a]) = (t.edited assigned).assign a.column a.value :=
  edited_append t assigned [a]

theorem Tuple.getElem?_edited (column : Nat) : (t.edited assigned).values[column]? =
    t.values[column]?.map fun d => (lastAssigned assigned column).getD d := by
  -- from the end, as the last assignment counts
  induction assigned using List.reverseRecOn with
  | nil => simp [edited, lastAssigned]
  | append_singleton assigned a ih =>
    rw [edited_concat, lastAssigned_concat, assign]
    by_cases hcolumn : a.column = column
    · rw [if_pos hcolumn, hcolumn, List.getElem?_set_self', ih]
      cases t.values[column]? <;> rfl
    · rw [if_neg hcolumn, List.getElem?_set_ne hcolumn, ih]

/-- Each column has the value that was assigned to it last, or else its own. -/
theorem Tuple.values_edited : (t.edited assigned).values = overwritten assigned t.values := by
  refine List.ext_getElem? fun column => ?_
  rw [getElem?_edited, overwritten, List.getElem?_mapIdx]

/-- A tuple is modified by its first assignment. -/
theorem Tuple.state_edited (hsome : assigned ≠ []) : (t.edited assigned).state = .modified := by
  induction assigned using List.reverseRecOn with
  | nil => exact absurd rfl hsome
  | append_singleton assigned a _ =>
    rw [edited_concat]
    rfl

theorem Tuple.handle_edited : (t.edited assigned).handle = t.handle := by
  induction assigned using List.reverseRecOn with
  | nil => rfl
  | append_singleton assigned a ih =>
    rw [edited_concat]
    exact ih

end Edited

namespace Engine

variable {e e' e'' : Engine}

/-- A tuple of the engine has another value in a column. -/
def assign (e : Engine) (a : Assignment) : Engine :=
  { e with tuples := e.tuples.modify a.tuple.index fun t => t.assign a.column a.value }

theorem tuple?_assign (e : Engine) (a : Assignment) (id : TupleId) :
    (e.assign a).tuple? id =
      (e.tuple? id).map fun t => if a.tuple = id then t.assign a.column a.value else t := by
  obtain ⟨⟨place⟩, column, value⟩ := a
  obtain ⟨index⟩ := id
  show (e.tuples.modify place _)[index]? = e.tuples[index]?.map _
  rw [Array.getElem?_modify]
  by_cases hid : place = index
  · simp [hid]
  · simp [hid]

/-- The column of a tuple that a script sets, with its attribute. -/
def columnIn (e : Engine) (t : Tuple) (name : String) : Outcome (Nat × Attribute) :=
  if t.state = .readOnly then .error (.runtime { message := "tuple is read-only" })
  else
    match e.layoutOf? t with
    | none => .error Marshal.lostLayout
    | some layout =>
      match layout.position? name with
      | none => .error (.fieldNotFound name)
      | some i => .ok (i, (layout.attributes[i]?).getD ⟨name, TypeId.record, -1⟩)

/-- The assignment of a value to a column of a tuple, or the failure. The value is converted to the
type of the column. -/
def assignmentIn (e : Engine) (id : TupleId) (t : Tuple) (name : String) (v : Value) :
    Outcome Assignment :=
  match e.columnIn t name with
  | .error f => .error f
  | .ok (column, a) =>
    (Serving.toDatum v a.typeId a.typeMod e).1.map fun value => { tuple := id, column, value }

/-- The assignment that a script makes by setting a field of an object. There is none for anything
but a tuple. -/
def assignment (e : Engine) (object : ObjectId) (key v : Value) : Outcome Assignment :=
  match e.object? object with
  | some (.tuple id) =>
    match Arguments.text key, e.tuple? id with
    | .error f, _ => .error f
    | .ok _, none => .error Serving.mismatch
    | .ok name, some t => e.assignmentIn id t name v
  | _ => .error Serving.mismatch

/-- The tuple is the one that was meant, and can be changed. -/
theorem writable_of_assignmentIn {id : TupleId} {t : Tuple} {name : String} {v : Value}
    {a : Assignment} (h : e.assignmentIn id t name v = .ok a) :
    a.tuple = id ∧ t.state ≠ .readOnly := by
  unfold assignmentIn at h
  cases hcolumn : e.columnIn t name with
  | error f =>
    rw [hcolumn] at h
    cases h
  | ok place =>
    obtain ⟨column, type⟩ := place
    simp only [hcolumn] at h
    have hstate : t.state ≠ .readOnly := by
      intro hreadOnly
      rw [columnIn, if_pos hreadOnly] at hcolumn
      cases hcolumn
    cases hvalue : (Serving.toDatum v type.typeId type.typeMod e).1 with
    | error f =>
      rw [hvalue] at h
      cases h
    | ok value =>
      rw [hvalue] at h
      cases h
      exact ⟨rfl, hstate⟩

/-- A tuple that gets an assignment is there, and can be changed. -/
theorem writable_of_assignment {object : ObjectId} {key v : Value} {a : Assignment}
    (h : e.assignment object key v = .ok a) :
    ∃ t, e.tuple? a.tuple = some t ∧ t.state ≠ .readOnly := by
  unfold assignment at h
  split at h
  next id _ =>
    split at h
    · cases h
    · cases h
    next t _ ht =>
      obtain ⟨rfl, hstate⟩ := writable_of_assignmentIn h
      exact ⟨t, ht, hstate⟩
  · cases h

end Engine

/-- The tuples that are there stay what they are. -/
structure Engine.Reads (e e' : Engine) : Prop where
  tuples : ∀ {id t}, e.tuple? id = some t → e'.tuple? id = some t
  poisoned : e'.poisoned = e.poisoned

namespace Engine.Reads

variable {e e' e'' : Engine}

theorem refl (e : Engine) : e.Reads e := ⟨id, rfl⟩

theorem trans (h : e.Reads e') (h' : e'.Reads e'') : e.Reads e'' :=
  ⟨fun ht => h'.tuples (h.tuples ht), h'.poisoned.trans h.poisoned⟩

theorem ofSame (htuples : e'.tuples = e.tuples) (hpoisoned : e'.poisoned = e.poisoned) :
    e.Reads e' := by
  refine ⟨fun ht => ?_, hpoisoned⟩
  unfold Engine.tuple? at ht ⊢
  rw [htuples]
  exact ht

theorem ofPush {added : Tuple} (htuples : e'.tuples = e.tuples.push added)
    (hpoisoned : e'.poisoned = e.poisoned) : e.Reads e' := by
  refine ⟨fun ht => ?_, hpoisoned⟩
  unfold Engine.tuple? at ht ⊢
  obtain ⟨hlt, -⟩ := Array.getElem?_eq_some_iff.mp ht
  rw [htuples, Array.getElem?_push_lt hlt, ← Array.getElem?_eq_getElem hlt, ht]

end Engine.Reads

namespace Serving

variable {α β : Type} {e : Engine}

/-! ### Reading -/

/-- A computation leaves the tuples that are there alone. -/
class Reading (x : Serving α) : Prop where
  reads : ∀ e : Engine, e.Reads (x e).2

/-- A computation that has nothing to do with tuples. -/
theorem reading_of_same {x : Serving α} (htuples : ∀ e : Engine, (x e).2.tuples = e.tuples)
    (hpoisoned : ∀ e : Engine, (x e).2.poisoned = e.poisoned) : Reading x :=
  ⟨fun e => .ofSame (htuples e) (hpoisoned e)⟩

instance (a : α) : Reading (pure a : Serving α) := ⟨.refl⟩

instance (f : Failure) : Reading (throw f : Serving α) := ⟨.refl⟩

theorem Reading.bind {x : Serving α} {k : α → Serving β} [hx : Reading x]
    (hk : ∀ a, Reading (k a)) : Reading (x >>= k) where
  reads e := by
    have hreads := hx.reads e
    rw [run_bind]
    generalize x e = done at hreads ⊢
    obtain ⟨r, e'⟩ := done
    cases r with
    | ok a => exact hreads.trans ((hk a).reads e')
    | error f => exact hreads

instance {x : Serving α} {k : α → Serving β} [Reading x] [hk : ∀ a, Reading (k a)] :
    Reading (x >>= k) := Reading.bind hk

instance {x y : Serving α} {c : Prop} [Decidable c] [hx : Reading x] [hy : Reading y] :
    Reading (if c then x else y) := by
  split
  · exact hx
  · exact hy

instance : Reading (get : Serving Engine) := ⟨.refl⟩

instance (f : Border → Resolving α) : Reading (converting f) :=
  reading_of_same (fun _ => rfl) fun _ => rfl

instance (o : Outcome α) : Reading (ofOutcome o) where
  reads e := by cases o <;> exact .refl e

instance {x : Serving α} {handler : Failure → Serving α} [hx : Reading x]
    [hh : ∀ f, Reading (handler f)] : Reading (tryCatch x handler : Serving α) where
  reads e := by
    have hreads := hx.reads e
    rw [run_tryCatch]
    generalize x e = done at hreads ⊢
    obtain ⟨r, e'⟩ := done
    cases r with
    | ok a => exact hreads
    | error f => exact hreads.trans ((hh f).reads e')

instance {f : α → Serving β} (l : List α) [hf : ∀ a, Reading (f a)] : Reading (l.mapM f) := by
  induction l with
  | nil => exact inferInstanceAs (Reading (pure []))
  | cons a rest ih =>
    rw [List.mapM_cons]
    infer_instance

/-! ### Services that read -/

instance (row : RowValue) (state : TupleState) : Reading (newTuple row state) :=
  ⟨fun _ => .ofPush rfl rfl⟩

instance (handle : HandleId) (values : Row) (state : TupleState) :
    Reading (tupleWith handle values state) := ⟨fun _ => .ofPush rfl rfl⟩

instance (kind : ObjectKind) (o : Object) : Reading (newObject kind o) :=
  reading_of_same (fun _ => rfl) fun _ => rfl

instance (id : TupleId) : Reading (showTuple id) :=
  inferInstanceAs (Reading (newObject .tuple (.tuple id)))

instance (name : String) : Reading (newCursor name) :=
  reading_of_same (fun _ => rfl) fun _ => rfl

mutual

theorem reading_toValue (v : ScriptValue) : Reading (toValue v) := by
  match v with
  | .nil | .bool _ | .int _ | .number _ | .string _ | .tuple none | .tuple (some _) | .cursor _ =>
    unfold toValue
    infer_instance
  | .table entries =>
    unfold toValue
    have := reading_toTable entries (Table.withRoom 0 entries.length)
    exact .bind fun _ => reading_of_same (fun _ => rfl) fun _ => rfl

theorem reading_toTable (entries : List (ScriptKey × ScriptValue)) (t : Table) :
    Reading (toTable entries t) := by
  match entries with
  | [] =>
    unfold toTable
    infer_instance
  | (key, v) :: rest =>
    unfold toTable
    have := reading_toValue v
    exact .bind fun _ => reading_toTable rest _

end

instance (v : ScriptValue) : Reading (toValue v) := reading_toValue v

instance (d : Option Datum) (id : TypeId) : Reading (ofDatum d id) := by
  unfold ofDatum
  infer_instance

instance (t : Tuple) (name : String) : Reading (readColumn t name) := by
  unfold readColumn
  refine .bind fun e => ?_
  split
  · infer_instance
  · split <;> infer_instance

instance (id : ObjectId) (set : ResultSet) (i : Nat) : Reading (rowAt id set i) := by
  unfold rowAt
  split
  · infer_instance
  · infer_instance
  · refine .bind fun t => @Reading.bind _ _ _ _ ?_ fun _ => inferInstance
    exact ⟨fun _ => .ofSame rfl rfl⟩

instance (id : ObjectId) (key : Value) : Reading (readField id key) := by
  unfold readField
  refine .bind fun e => ?_
  split
  · refine .bind fun name => ?_
    split <;> infer_instance
  · split
    · split <;> infer_instance
    · infer_instance
  · infer_instance

instance (id : ObjectId) : Reading (countRows id) := by
  unfold countRows
  refine .bind fun e => ?_
  split <;> infer_instance

instance (a : Attribute) (d : Option Datum) : Reading (columnText a d) := by
  cases d with
  | none => exact inferInstanceAs (Reading (pure ""))
  | some d =>
    unfold columnText
    infer_instance

instance (t : Tuple) : Reading (tupleText t) := by
  unfold tupleText
  refine .bind fun e => ?_
  split <;> infer_instance

instance (id : ObjectId) : Reading (objectText id) := by
  unfold objectText
  refine .bind fun e => ?_
  split
  next t _ =>
    cases e.tuple? t with
    | none => exact inferInstanceAs (Reading (throw mismatch))
    | some tuple => exact inferInstanceAs (Reading (tupleText tuple))
  all_goals infer_instance

/-! ### Assignments -/

/-- To set a column is to make the assignment. One that fails changes nothing but descriptors. -/
theorem writeColumn_eq (id : TupleId) (t : Tuple) (name : String) (v : Value) (e : Engine) :
    ∃ types, writeColumn id t name v e =
      match e.assignmentIn id t name v with
      | .ok a => (.ok (), ({ e with types } : Engine).assign a)
      | .error f => (.error f, { e with types }) := by
  have hget : (get : Serving Engine) e = (.ok e, e) := rfl
  unfold writeColumn Engine.assignmentIn Engine.columnIn
  by_cases hstate : t.state = .readOnly
  · rw [if_pos hstate, if_pos hstate]
    exact ⟨e.types, rfl⟩
  · rw [if_neg hstate, if_neg hstate]
    dsimp only
    rw [run_bind, hget]
    dsimp only
    cases e.layoutOf? t with
    | none => exact ⟨e.types, rfl⟩
    | some layout =>
      dsimp only
      cases layout.position? name with
      | none => exact ⟨e.types, rfl⟩
      | some i =>
        dsimp only
        -- the descriptor of the column's type is kept even if the value cannot be converted
        obtain ⟨r, types, hdatum⟩ := describes_toDatum v
          ((layout.attributes[i]?).getD ⟨name, TypeId.record, -1⟩).typeId
          ((layout.attributes[i]?).getD ⟨name, TypeId.record, -1⟩).typeMod e
        rw [run_bind, hdatum]
        refine ⟨types, ?_⟩
        cases r <;> rfl

/-- The same for a field of an object. -/
theorem writeField_eq (object : ObjectId) (key v : Value) (e : Engine) :
    ∃ types, writeField object key v e =
      match e.assignment object key v with
      | .ok a => (.ok (), ({ e with types } : Engine).assign a)
      | .error f => (.error f, { e with types }) := by
  have hget : (get : Serving Engine) e = (.ok e, e) := rfl
  unfold writeField Engine.assignment
  rw [run_bind, hget]
  dsimp only
  cases e.object? object with
  | none => exact ⟨e.types, rfl⟩
  | some o =>
    cases o with
    | tuple id =>
      dsimp only
      rw [run_bind]
      cases Arguments.text key with
      | error f => exact ⟨e.types, rfl⟩
      | ok name =>
        have hname : ofOutcome (.ok name : Outcome String) e = (.ok name, e) := rfl
        rw [hname]
        dsimp only
        cases e.tuple? id with
        | none => exact ⟨e.types, rfl⟩
        | some t => exact writeColumn_eq id t name v e
    | _ => exact ⟨e.types, rfl⟩

end Serving

/-! ### Requests -/

/-- Services that read objects, or set fields of them. -/
def Script.Service.accessesFields : Service → Bool
  | .readField | .writeField | .countRows | .objectText => true
  | _ => false

/-- A service is asked for in an engine. -/
structure Request where
  service : Service
  args : List Value
  engine : Engine

/-- The assignment that a script makes with a request. -/
def Request.assignment? (q : Request) : Option Assignment :=
  match q.service, q.args with
  | .writeField, .object _ id :: rest =>
    (q.engine.assignment id (Arguments.nth rest 0) (Arguments.nth rest 1)).toOption
  | _, _ => none

/-- The assignments to a tuple that a script makes with requests, in their order. -/
def assignmentsTo (id : TupleId) (requests : List Request) : List Assignment :=
  (requests.filterMap Request.assignment?).filter fun a => a.tuple = id

theorem assignmentsTo_cons (id : TupleId) (q : Request) (rest : List Request) :
    assignmentsTo id (q :: rest) = assignmentsTo id [q] ++ assignmentsTo id rest := by
  unfold assignmentsTo
  rw [← List.filter_append, ← List.filterMap_append]
  rfl

namespace Request

variable {q : Request} {call : Caller} {id : TupleId} {t : Tuple}

/-- A field is set, or nothing happens. -/
theorem serve_writeField (hq : q.service = .writeField) (call : Caller) :
    (∃ a types, q.assignment? = some a ∧ Serving.serve call q.service q.args q.engine =
        (.ok [], ({ q.engine with types } : Engine).assign a)) ∨
      ∃ f types, q.assignment? = none ∧
        Serving.serve call q.service q.args q.engine = (.error f, { q.engine with types }) := by
  obtain ⟨service, args, e⟩ := q
  obtain rfl : service = .writeField := hq
  cases args with
  | nil => exact .inr ⟨_, e.types, rfl, rfl⟩
  | cons v rest =>
    cases v with
    | object kind id =>
      unfold assignment? Serving.serve
      dsimp only
      obtain ⟨types, hwritten⟩ :=
        Serving.writeField_eq id (Arguments.nth rest 0) (Arguments.nth rest 1) e
      rw [run_bind, hwritten]
      cases e.assignment id (Arguments.nth rest 0) (Arguments.nth rest 1) with
      | ok a => exact .inl ⟨a, types, rfl, rfl⟩
      | error f => exact .inr ⟨f, types, rfl, rfl⟩
    -- anything but an object has no fields
    | _ => exact .inr ⟨_, e.types, rfl, rfl⟩

/-- Whatever does not set a field leaves all tuples alone. -/
theorem reads_serve (hq : q.service.accessesFields = true) (hw : q.service ≠ .writeField)
    (call : Caller) : q.engine.Reads (Serving.serve call q.service q.args q.engine).2 := by
  obtain ⟨service, args, e⟩ := q
  have hreading : Serving.Reading (Serving.serve call service args) := by
    cases service with
    | readField =>
      unfold Serving.serve
      dsimp only
      split <;> infer_instance
    | countRows =>
      unfold Serving.serve
      dsimp only
      split <;> infer_instance
    | objectText =>
      unfold Serving.serve
      dsimp only
      split <;> infer_instance
    | writeField => exact absurd rfl hw
    | _ => cases hq
  exact hreading.reads e

theorem assignment?_of_ne (hw : q.service ≠ .writeField) : q.assignment? = none := by
  unfold assignment?
  split
  next heq _ => exact absurd heq hw
  · rfl

/-- One request changes a tuple only by an assignment to it. -/
theorem tuple?_serve (hq : q.service.accessesFields = true) (call : Caller)
    (ht : q.engine.tuple? id = some t) :
    (Serving.serve call q.service q.args q.engine).2.tuple? id =
      some (t.edited (assignmentsTo id [q])) := by
  unfold assignmentsTo
  by_cases hw : q.service = .writeField
  · rcases serve_writeField hw call with ⟨a, types, hassigned, hserved⟩ | ⟨f, types, hnone, hserved⟩
    · have ht' : ({ q.engine with types } : Engine).tuple? id = some t := ht
      rw [hserved, Engine.tuple?_assign, ht', List.filterMap_cons_some hassigned, List.filter_cons]
      by_cases hid : a.tuple = id
      · simp [hid, Tuple.edited]
      · simp [hid, Tuple.edited]
    · rw [hserved, List.filterMap_cons_none hnone]
      exact ht
  · rw [List.filterMap_cons_none (assignment?_of_ne hw)]
    exact (reads_serve hq hw call).tuples ht

theorem poisoned_serve (hq : q.service.accessesFields = true) (call : Caller) :
    (Serving.serve call q.service q.args q.engine).2.poisoned = q.engine.poisoned := by
  by_cases hw : q.service = .writeField
  · rcases serve_writeField hw call with ⟨a, types, -, hserved⟩ | ⟨f, types, -, hserved⟩
    · rw [hserved]
      rfl
    · rw [hserved]
  · exact (reads_serve hq hw call).poisoned

/-- No assignment is made to a tuple that is read-only. -/
theorem assignmentsTo_readOnly (ht : q.engine.tuple? id = some t) (hstate : t.state = .readOnly) :
    assignmentsTo id [q] = [] := by
  refine List.filter_eq_nil_iff.mpr fun a hmem hid => ?_
  obtain rfl : a.tuple = id := of_decide_eq_true hid
  have ha : q.assignment? = some a := by simpa using hmem
  obtain ⟨service, args, e⟩ := q
  unfold assignment? at ha
  split at ha
  next object rest _ _ =>
    cases hmade : e.assignment object (Arguments.nth rest 0) (Arguments.nth rest 1) with
    | error f =>
      rw [hmade] at ha
      cases ha
    | ok b =>
      rw [hmade] at ha
      cases ha
      obtain ⟨t', ht', hwritable⟩ := Engine.writable_of_assignment hmade
      cases ht.symm.trans ht'
      exact hwritable hstate
  · cases ha

end Request

/-! ### Runs -/

namespace Engine

variable {e e' : Engine} {asked : List Request} {id : TupleId} {t : Tuple}

/-- The requests of a run, in their order. Those of functions that services call are not among
them. -/
def requests : Nat → Control → Engine → List Request
  | 0, _, _ => []
  | fuel + 1, c, e =>
    match Machine.advance stepsAtOnce e.instructionsDue e.heap c with
    | (left, .next heap c) =>
      let e := { e with heap }.countTurn left
      if left ≤ Script.Machine.ticks c then
        let (c, e) := e.look c
        requests fuel c e
      else requests fuel c e
    | (_, .ended ..) => []
    | (left, .request s args position heap c) =>
      let call : Caller := fun f args e => run fuel (nestedControl c position f args) e
      let e := { e with heap }.countTurn left
      ⟨s, args, e⟩ :: match Serving.serve call s args e with
        | (.ok values, e) => requests fuel (c.withFocus (.give values)) e
        | (.error f, e) => requests fuel (c.withFocus (.raise (.failure f))) e

/-- Between two engines a script made the requests, and took steps of its own. -/
inductive Asks : Engine → List Request → Engine → Prop where
  | done {e e' : Engine} (htuples : e'.tuples = e.tuples) (hpoisoned : e'.poisoned = e.poisoned) :
    Asks e [] e'
  | ask {e e' : Engine} {q : Request} {rest : List Request} (htuples : q.engine.tuples = e.tuples)
    (hpoisoned : q.engine.poisoned = e.poisoned) (call : Caller)
    (hrest : Asks (Serving.serve call q.service q.args q.engine).2 rest e') : Asks e (q :: rest) e'

/-- Steps of the script before the first request make no difference. -/
theorem Asks.before (htuples : e'.tuples = e.tuples) (hpoisoned : e'.poisoned = e.poisoned)
    {last : Engine} (h : e'.Asks asked last) : e.Asks asked last := by
  cases h with
  | done htuples' hpoisoned' => exact .done (htuples'.trans htuples) (hpoisoned'.trans hpoisoned)
  | ask htuples' hpoisoned' call hrest =>
    exact .ask (htuples'.trans htuples) (hpoisoned'.trans hpoisoned) call hrest

/-- A run makes its requests. By induction on the number of turns. -/
theorem asks_run (fuel : Nat) (c : Control) (e : Engine) :
    e.Asks (e.requests fuel c) (run fuel c e).2 := by
  induction fuel generalizing c e with
  | zero => exact .done rfl rfl
  | succ fuel ih =>
    unfold run requests
    simp only
    -- a turn is a block of steps, and at most one request at its end
    generalize Machine.advance stepsAtOnce _ _ c = turn
    obtain ⟨left, step⟩ := turn
    cases step with
    | next heap c' =>
      simp only
      split
      · have hlooked := ih (({ e with heap }.countTurn left).look c').1
          (({ e with heap }.countTurn left).look c').2
        exact hlooked.before (by rfl) (by rfl)
      · have hwent := ih c' ({ e with heap }.countTurn left)
        exact hwent.before (by rfl) (by rfl)
    | ended ending heap => exact .done rfl rfl
    | request s args position heap c' =>
      simp only
      refine .ask rfl rfl (fun f args e => run fuel (nestedControl c' position f args) e) ?_
      simp only
      generalize Serving.serve _ s args _ = served
      obtain ⟨r, e'⟩ := served
      cases r with
      | ok values => exact ih _ e'
      | error f => exact ih _ e'

/-- What is left of a tuple when a script has made its requests. -/
theorem Asks.tuple? (h : e.Asks asked e')
    (hfields : ∀ q ∈ asked, q.service.accessesFields = true) (ht : e.tuple? id = some t) :
    e'.tuple? id = some (t.edited (assignmentsTo id asked)) := by
  induction h generalizing t with
  | done htuples =>
    unfold Engine.tuple? at ht ⊢
    rw [htuples]
    exact ht
  | @ask e e' q rest htuples _ call _ ih =>
    obtain ⟨hq, hrest⟩ := List.forall_mem_cons.mp hfields
    have ht' : q.engine.tuple? id = some t := by
      unfold Engine.tuple? at ht ⊢
      rw [htuples]
      exact ht
    rw [ih hrest (Request.tuple?_serve hq call ht'), assignmentsTo_cons id q rest,
      Tuple.edited_append]

theorem Asks.poisoned (h : e.Asks asked e')
    (hfields : ∀ q ∈ asked, q.service.accessesFields = true) : e'.poisoned = e.poisoned := by
  induction h with
  | done _ hpoisoned => exact hpoisoned
  | ask _ hpoisoned call _ ih =>
    obtain ⟨hq, hrest⟩ := List.forall_mem_cons.mp hfields
    exact (ih hrest).trans ((Request.poisoned_serve hq call).trans hpoisoned)

/-- A tuple that is read-only is the same at all times. -/
theorem Asks.tuple?_readOnly (h : e.Asks asked e')
    (hfields : ∀ q ∈ asked, q.service.accessesFields = true) (ht : e.tuple? id = some t)
    (hstate : t.state = .readOnly) :
    (∀ q ∈ asked, q.engine.tuple? id = some t) ∧ e'.tuple? id = some t := by
  induction h with
  | done htuples =>
    unfold Engine.tuple? at ht ⊢
    rw [htuples]
    exact ⟨fun q hq => absurd hq List.not_mem_nil, ht⟩
  | @ask e e' q rest htuples _ call _ ih =>
    obtain ⟨hq, hrest⟩ := List.forall_mem_cons.mp hfields
    have ht' : q.engine.tuple? id = some t := by
      unfold Engine.tuple? at ht ⊢
      rw [htuples]
      exact ht
    have hserved := Request.tuple?_serve hq call ht'
    rw [Request.assignmentsTo_readOnly ht' hstate] at hserved
    obtain ⟨hall, hlast⟩ := ih hrest hserved
    exact ⟨List.forall_mem_cons.mpr ⟨ht', hall⟩, hlast⟩

end Engine

end StoredRoutine
