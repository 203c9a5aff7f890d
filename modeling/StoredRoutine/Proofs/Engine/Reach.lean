import StoredRoutine.Proofs.Engine.Laws

/-!
# `StoredRoutine.Proofs.Engine.Reach`: what services do not get at

Services make tuples, objects and tables, and change some of them. The executions of an engine and
the tables of relations that it keeps are not among what they can get at, whatever they are called
with and whether the engine is sound or not. So a relation that allows all changes but to these
covers every service (`Engine.Reserved.serve`).
-/

set_option autoImplicit false

namespace StoredRoutine

open Script (ObjectId ObjectKind Service TableId Value)

namespace Engine

/-- Executions and the tables of relations are the same. -/
structure OutOfReach (e e' : Engine) : Prop where
  executions : e'.executions = e.executions
  started : e'.started = e.started
  relations : e'.relations = e.relations

/-- A relation that minds nothing that services do. -/
class Reserved (R : Engine → Engine → Prop) : Prop extends Indifferent R where
  reach : ∀ {e e'}, e.OutOfReach e' → R e e'

instance : Reserved OutOfReach where
  elsewhere h := ⟨h.executions, h.started, h.relations⟩
  trans h h' := ⟨h'.executions.trans h.executions, h'.started.trans h.started,
    h'.relations.trans h.relations⟩
  reach h := h

/-- Executions are the same. -/
structure SameExecutions (e e' : Engine) : Prop where
  executions : e'.executions = e.executions
  started : e'.started = e.started

instance : Reserved SameExecutions where
  elsewhere h := ⟨h.executions, h.started⟩
  trans h h' := ⟨h'.executions.trans h.executions, h'.started.trans h.started⟩
  reach h := ⟨h.executions, h.started⟩

end Engine

namespace Serving

variable {α β : Type} {R : Engine → Engine → Prop} [hR : Engine.Reserved R]

theorem keepsTo_of_reach {x : Serving α} (hx : ∀ e : Engine, e.OutOfReach (x e).2) : KeepsTo R x :=
  ⟨fun e => hR.reach (hx e)⟩

/-! ### Tuples and objects -/

instance (layout : RowLayout) : KeepsTo R (allocate layout) :=
  keepsTo_of_reach fun _ => ⟨rfl, rfl, rfl⟩

instance (handle : HandleId) (values : Row) (state : TupleState) :
    KeepsTo R (tupleWith handle values state) := keepsTo_of_reach fun _ => ⟨rfl, rfl, rfl⟩

instance (row : RowValue) (state : TupleState) : KeepsTo R (newTuple row state) :=
  keepsTo_of_reach fun _ => ⟨rfl, rfl, rfl⟩

instance (kind : ObjectKind) (o : Object) : KeepsTo R (newObject kind o) :=
  keepsTo_of_reach fun _ => ⟨rfl, rfl, rfl⟩

instance (id : TupleId) : KeepsTo R (showTuple id) := by
  unfold showTuple
  infer_instance

instance (rows : RowSet) : KeepsTo R (newResult rows) := by
  unfold newResult
  infer_instance

instance (name : String) (wrap : Cursor → Object) : KeepsTo R (attachCursor name wrap) :=
  keepsTo_of_reach fun _ => ⟨rfl, rfl, rfl⟩

instance (name : String) : KeepsTo R (newCursor name) := by
  unfold newCursor
  infer_instance

instance (portal : String) : KeepsTo R (newIterator portal) := by
  unfold newIterator
  infer_instance

/-! ### Values -/

mutual

theorem keepsTo_toValue (v : ScriptValue) : KeepsTo R (toValue v) := by
  match v with
  | .nil | .bool _ | .int _ | .number _ | .string _ =>
    unfold toValue
    infer_instance
  | .table entries =>
    unfold toValue
    have := keepsTo_toTable entries (Script.Table.withRoom 0 entries.length)
    exact .bind fun _ => keepsTo_of_reach fun _ => ⟨rfl, rfl, rfl⟩
  | .tuple none =>
    unfold toValue
    infer_instance
  | .tuple (some row) =>
    unfold toValue
    infer_instance
  | .cursor name =>
    unfold toValue
    infer_instance

theorem keepsTo_toTable (entries : List (ScriptKey × ScriptValue)) (t : Script.Table) :
    KeepsTo R (toTable entries t) := by
  match entries with
  | [] =>
    unfold toTable
    infer_instance
  | (key, v) :: rest =>
    unfold toTable
    have := keepsTo_toValue v
    exact .bind fun _ => keepsTo_toTable rest _

end

/-! ### Columns and results -/

instance (t : Tuple) (name : String) : KeepsTo R (readColumn t name) := by
  have hmade (d : Option Datum) (id : TypeId) : KeepsTo R (ofDatum d id) := by
    unfold ofDatum
    exact .bind fun v => keepsTo_toValue v
  unfold readColumn
  refine .bind fun e => ?_
  split
  · infer_instance
  · split
    · infer_instance
    · infer_instance

instance (id : TupleId) (t : Tuple) (name : String) (v : Value) :
    KeepsTo R (writeColumn id t name v) := by
  unfold writeColumn
  split
  · infer_instance
  · refine .bind fun e => ?_
    split
    · infer_instance
    · split
      · infer_instance
      · exact .bind fun _ => keepsTo_of_reach fun _ => ⟨rfl, rfl, rfl⟩

instance (a : Attribute) (d : Option Datum) : KeepsTo R (columnText a d) := by
  cases d with
  | none => exact inferInstanceAs (KeepsTo R (pure ""))
  | some d =>
    unfold columnText
    infer_instance

instance (t : Tuple) : KeepsTo R (tupleText t) := by
  unfold tupleText
  refine .bind fun e => ?_
  split
  · infer_instance
  · infer_instance

instance (r : QueryResult) : KeepsTo R (resultOf r) := by
  unfold resultOf
  split
  · infer_instance
  · infer_instance

instance (id : ObjectId) (set : ResultSet) (i : Nat) : KeepsTo R (rowAt id set i) := by
  unfold rowAt
  split
  · infer_instance
  · infer_instance
  · exact .bind fun t =>
      @KeepsTo.bind _ _ R _ _ _ (keepsTo_of_reach fun _ => ⟨rfl, rfl, rfl⟩) inferInstance

instance (id : ObjectId) (key : Value) : KeepsTo R (readField id key) := by
  unfold readField
  refine .bind fun e => ?_
  split
  · refine .bind fun name => ?_
    split
    · infer_instance
    · infer_instance
  · split
    · split
      · infer_instance
      · infer_instance
    · infer_instance
  · infer_instance

instance (id : ObjectId) (key value : Value) : KeepsTo R (writeField id key value) := by
  unfold writeField
  refine .bind fun e => ?_
  split
  · refine .bind fun name => ?_
    split
    · infer_instance
    · infer_instance
  · infer_instance

instance (id : ObjectId) : KeepsTo R (countRows id) := by
  unfold countRows
  refine .bind fun e => ?_
  split
  · infer_instance
  · infer_instance

instance (id : ObjectId) : KeepsTo R (objectText id) := by
  unfold objectText
  refine .bind fun e => ?_
  split
  next t _ =>
    cases e.tuple? t with
    | none => exact inferInstanceAs (KeepsTo R (throw mismatch))
    | some tuple => exact inferInstanceAs (KeepsTo R (tupleText tuple))
  · infer_instance
  · infer_instance
  · infer_instance
  · infer_instance

/-! ### Cursors and iterators -/

instance (id : ObjectId) : KeepsTo R (openCursor id) := by
  unfold openCursor
  refine .bind fun e => ?_
  split
  · infer_instance
  · infer_instance

instance (id : ObjectId) (direction : FetchDirection) (count : Int64) :
    KeepsTo R (fetchRows id direction count) := by
  unfold fetchRows
  infer_instance

instance (id : ObjectId) (direction : FetchDirection) (count : Int64) :
    KeepsTo R (moveCursor id direction count) := by
  unfold moveCursor
  infer_instance

instance (id : ObjectId) (c : Cursor) : KeepsTo R (closePortal id c) := by
  unfold closePortal
  split
  · infer_instance
  · refine @KeepsTo.bind _ _ R _ _ _ (keepsTo_of_reach fun e => ?_) fun _ => inferInstance
    cases hcleanup : c.cleanup <;> exact ⟨rfl, rfl, rfl⟩

instance (id : ObjectId) : KeepsTo R (closeCursor id) := by
  unfold closeCursor
  refine .bind fun e => ?_
  split
  · infer_instance
  · infer_instance

instance (id : ObjectId) (f : RowIterator → RowIterator) : KeepsTo R (modifyIterator id f) :=
  keepsTo_of_reach fun _ => ⟨rfl, rfl, rfl⟩

instance (id : ObjectId) (i : RowIterator) : KeepsTo R (finishIterator id i) := by
  unfold finishIterator
  refine .bind fun _ => @KeepsTo.bind _ _ R _ _ _ (keepsTo_of_reach fun e => ?_) inferInstance
  cases hhandle : i.handle <;> exact ⟨rfl, rfl, rfl⟩

instance (i : RowIterator) (layout : RowLayout) : KeepsTo R (iteratorHandle i layout) := by
  unfold iteratorHandle
  split
  · infer_instance
  · infer_instance

instance (id : ObjectId) : KeepsTo R (nextRow id) := by
  unfold nextRow
  refine .bind fun e => ?_
  split
  · split
    · infer_instance
    · split
      · infer_instance
      · refine .bind fun e => .bind fun batch => ?_
        split
        · infer_instance
        · infer_instance
  · infer_instance

/-! ### Statements and plans -/

instance (sql : String) (params : Row) (readOnly : Bool) (limit : Nat) :
    KeepsTo R (execute sql params readOnly limit) := by
  unfold execute
  infer_instance

instance (sql : String) (params : Row) (name : Option String) (readOnly : Bool) :
    KeepsTo R (openPortal sql params name readOnly) := by
  unfold openPortal
  infer_instance

instance (name : String) : KeepsTo R (findCursor name) := by
  unfold findCursor
  infer_instance

instance (types : TableId) : KeepsTo R (paramTypes types) := by
  unfold paramTypes
  refine @KeepsTo.bind _ _ R _ _ _ (keepsTo_of_reach fun _ => ⟨rfl, rfl, rfl⟩) fun length => ?_
  refine .bind fun e => .mapM _ fun i => .bind fun name => ?_
  split
  · infer_instance
  · infer_instance

instance (sql : String) (types : Option TableId) : KeepsTo R (newPlan sql types) := by
  unfold newPlan
  cases types with
  | none => exact inferInstanceAs (KeepsTo R (pure _ >>= _))
  | some types => exact inferInstanceAs (KeepsTo R (paramTypes types >>= _))

instance (id : ObjectId) : KeepsTo R (planOf id) := by
  unfold planOf
  refine .bind fun e => ?_
  split
  · infer_instance
  · infer_instance

instance (p : Plan) (args : Option TableId) : KeepsTo R (bindParams p args) := by
  unfold bindParams
  split
  · infer_instance
  · split
    · infer_instance
    · infer_instance

instance (id : ObjectId) : KeepsTo R (savePlan id) := keepsTo_of_reach fun _ => ⟨rfl, rfl, rfl⟩

/-! ### Services -/

instance (kind : ObjectKind) (args : List Value) : KeepsTo R (ownArguments kind args) := by
  unfold ownArguments
  split
  · infer_instance
  · infer_instance

instance (s : Service) (args : List Value) : KeepsTo R (servePlan s args) := by
  unfold servePlan
  refine .bind fun (id, rest) => ?_
  cases s <;> infer_instance

instance (s : Service) (args : List Value) : KeepsTo R (serveCursor s args) := by
  unfold serveCursor
  refine .bind fun (id, rest) => ?_
  cases s <;> infer_instance

theorem keepsTo_serve {s : Service} (hs : s.callsBack = false) (args : List Value) :
    KeepsTo R (serve Engine.callFunction s args) := by
  unfold serve
  cases s with
  | announce | protectedCall => cases hs
  | setShared =>
    exact .bind fun _ => @KeepsTo.bind _ _ R _ _ _ (keepsTo_of_reach fun _ => ⟨rfl, rfl, rfl⟩)
      inferInstance
  | readField | writeField | countRows | objectText =>
    dsimp only
    split
    · infer_instance
    · infer_instance
  | _ => infer_instance

/-! ### Events -/

instance (name : String) (row : Option RowValue) (state : TupleState) :
    KeepsTo R (rowField name row state) := by
  unfold rowField
  split
  · infer_instance
  · infer_instance

/-- An event may make the table of its relation. -/
instance (r : Relation) : KeepsTo Engine.SameExecutions (relationTable r) := by
  unfold relationTable
  refine .bind fun e => ?_
  split
  · infer_instance
  · exact ⟨fun _ => ⟨rfl, rfl⟩⟩

instance (t : TriggerEvent) : KeepsTo Engine.SameExecutions (publishEvent t) := by
  unfold publishEvent
  refine .bind fun relation => .bind fun (rowFields, tuple) => .bind fun (oldFields, _) => ?_
  exact ⟨fun _ => ⟨rfl, rfl⟩⟩

end Serving

/-- Whatever the functions do that it calls, a service does not get at what is out of reach. -/
theorem Engine.Reserved.serve {R : Engine → Engine → Prop} [Engine.Reserved R] {call : Caller}
    (hcall : ∀ f args e, R e (call f args e).2) (s : Service) (args : List Value) (e : Engine) :
    R e (Serving.serve call s args e).2 :=
  serve_of_plain (fun _ args hs => Serving.keepsTo_serve hs args) hcall s args e

end StoredRoutine
