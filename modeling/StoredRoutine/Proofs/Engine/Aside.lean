import StoredRoutine.Engine.Triggers
import StoredRoutine.Proofs.Catalog.Resolution

/-!
# `StoredRoutine.Proofs.Engine.Aside`: computations that leave scripts aside

Most of what an engine does for a script is about the host, layouts, tuples and objects. The
values of scripts are elsewhere: in the heap, in compiled routines, and in the tables and functions
that the engine keeps for itself. `Engine.SameScripts` says that all of these are the same, and
`Serving.Aside` that they are the same after a computation. `Serving.Tableless` says that what a
computation answers is no table.

Both are classes: what a computation is put together from decides, and the search for instances goes
by just that. What is left is a modification of the engine here and there, and a match to be split.
-/

set_option autoImplicit false

namespace StoredRoutine

open Script (ObjectId ObjectKind Service TableId Value)

namespace Engine

/-- What has to do with the values of scripts is the same. -/
structure SameScripts (e e' : Engine) : Prop where
  options : e'.options = e.options
  heap : e'.heap = e.heap
  routines : e'.routines = e.routines
  relations : e'.relations = e.relations
  reports : e'.reports = e.reports
  setBody : e'.setBody = e.setBody

theorem SameScripts.refl (e : Engine) : e.SameScripts e := ⟨rfl, rfl, rfl, rfl, rfl, rfl⟩

theorem SameScripts.trans {e e' e'' : Engine} (h : e.SameScripts e') (h' : e'.SameScripts e'') :
    e.SameScripts e'' where
  options := h'.options.trans h.options
  heap := h'.heap.trans h.heap
  routines := h'.routines.trans h.routines
  relations := h'.relations.trans h.relations
  reports := h'.reports.trans h.reports
  setBody := h'.setBody.trans h.setBody

end Engine

namespace Serving

variable {α β : Type}

/-- A computation leaves scripts aside. -/
class Aside (x : Serving α) : Prop where
  same : ∀ e : Engine, e.SameScripts (x e).2

theorem same_of_aside (x : Serving α) [hx : Aside x] (e : Engine) : e.SameScripts (x e).2 :=
  hx.same e

/-- What a computation answers is no table. -/
class Tableless (x : Serving Value) : Prop where
  answer : ∀ (e : Engine) (v : Value), (x e).1 = .ok v → ∀ id, v ≠ .table id

/-! ### Parts of computations -/

instance (a : α) : Aside (pure a : Serving α) := ⟨Engine.SameScripts.refl⟩

instance (f : Failure) : Aside (throw f : Serving α) := ⟨Engine.SameScripts.refl⟩

theorem Aside.bind {x : Serving α} {k : α → Serving β} [hx : Aside x] (hk : ∀ a, Aside (k a)) :
    Aside (x >>= k) where
  same e := by
    have hsame := hx.same e
    rw [run_bind]
    generalize x e = done at hsame ⊢
    obtain ⟨r, e'⟩ := done
    cases r with
    | ok a => exact hsame.trans ((hk a).same e')
    | error f => exact hsame

instance {x : Serving α} {k : α → Serving β} [Aside x] [hk : ∀ a, Aside (k a)] :
    Aside (x >>= k) := Aside.bind hk

/-- After a failure nothing happens. -/
theorem aside_throw_bind (f : Failure) (k : α → Serving β) : Aside (throw f >>= k) :=
  ⟨Engine.SameScripts.refl⟩

instance {x y : Serving α} {c : Prop} [Decidable c] [hx : Aside x] [hy : Aside y] :
    Aside (if c then x else y) := by
  split
  · exact hx
  · exact hy

instance : Aside (get : Serving Engine) := ⟨Engine.SameScripts.refl⟩

instance (f : Host → Outcome α × Host) : Aside (onHost f) :=
  ⟨fun _ => ⟨rfl, rfl, rfl, rfl, rfl, rfl⟩⟩

instance (f : Border → Resolving α) : Aside (converting f) :=
  ⟨fun _ => ⟨rfl, rfl, rfl, rfl, rfl, rfl⟩⟩

instance (o : Outcome α) : Aside (ofOutcome o) where
  same e := by
    cases o with
    | ok a => exact Engine.SameScripts.refl e
    | error f => exact Engine.SameScripts.refl e

instance {x : Serving α} [hx : Aside x] : Aside (attempt x) := ⟨hx.same⟩

theorem Aside.tryCatch {x : Serving α} {handler : Failure → Serving α} (hx : Aside x)
    (hh : ∀ f, Aside (handler f)) : Aside (MonadExcept.tryCatch x handler) where
  same e := by
    have hsame := hx.same e
    rw [run_tryCatch]
    generalize x e = done at hsame ⊢
    obtain ⟨r, e'⟩ := done
    cases r with
    | ok a => exact hsame
    | error f => exact hsame.trans ((hh f).same e')

instance {f : α → Serving β} (l : List α) [hf : ∀ a, Aside (f a)] : Aside (l.mapM f) := by
  induction l with
  | nil => exact inferInstanceAs (Aside (pure []))
  | cons a rest ih =>
    rw [List.mapM_cons]
    infer_instance

instance {f : α → Serving Unit} (l : List α) [hf : ∀ a, Aside (f a)] : Aside (l.forM f) := by
  induction l with
  | nil => exact inferInstanceAs (Aside (pure ()))
  | cons a rest ih => exact inferInstanceAs (Aside (f a >>= fun _ => rest.forM f))

theorem aside_modify {f : Engine → Engine} (hf : ∀ e : Engine, e.SameScripts (f e)) :
    Aside (modify f : Serving PUnit) := ⟨hf⟩

theorem aside_modifyGet {f : Engine → α × Engine} (hf : ∀ e : Engine, e.SameScripts (f e).2) :
    Aside (modifyGet f : Serving α) := ⟨hf⟩

instance (k : ObjectKind) (id : ObjectId) : Tableless (pure (.object k id)) where
  answer _ _ hv _ := by
    cases hv
    exact nofun

instance : Tableless (pure .nil) where
  answer _ _ hv _ := by
    cases hv
    exact nofun

instance (s : Service) : Tableless (pure (.service s)) where
  answer _ _ hv _ := by
    cases hv
    exact nofun

instance (f : Failure) : Tableless (throw f : Serving Value) where
  answer _ _ hv := nomatch hv

/-- Only the last part of a computation answers. -/
theorem Tableless.bind {x : Serving α} {k : α → Serving Value} (hk : ∀ a, Tableless (k a)) :
    Tableless (x >>= k) where
  answer e v hv := by
    rw [run_bind] at hv
    generalize x e = done at hv
    obtain ⟨r, e'⟩ := done
    cases r with
    | ok a => exact (hk a).answer e' v hv
    | error f => cases hv

instance {x : Serving α} {k : α → Serving Value} [hk : ∀ a, Tableless (k a)] :
    Tableless (x >>= k) := Tableless.bind hk

instance {x y : Serving Value} {c : Prop} [Decidable c] [hx : Tableless x] [hy : Tableless y] :
    Tableless (if c then x else y) := by
  split
  · exact hx
  · exact hy

/-! ### Tuples and objects -/

instance (layout : RowLayout) : Aside (allocate layout) :=
  aside_modifyGet fun _ => ⟨rfl, rfl, rfl, rfl, rfl, rfl⟩

instance (handle : HandleId) (values : Row) (state : TupleState) :
    Aside (tupleWith handle values state) :=
  aside_modifyGet fun _ => ⟨rfl, rfl, rfl, rfl, rfl, rfl⟩

instance (row : RowValue) (state : TupleState) : Aside (newTuple row state) :=
  Aside.bind fun _ => aside_modifyGet fun _ => ⟨rfl, rfl, rfl, rfl, rfl, rfl⟩

instance (kind : ObjectKind) (o : Object) : Aside (newObject kind o) :=
  -- the value that scripts get is the number of the object, and not in the heap
  have := aside_modifyGet (f := fun e => e.addObject o) fun _ => ⟨rfl, rfl, rfl, rfl, rfl, rfl⟩
  Aside.bind fun _ => inferInstance

instance (kind : ObjectKind) (o : Object) : Tableless (newObject kind o) := by
  unfold newObject
  infer_instance

instance (id : TupleId) : Aside (showTuple id) := by
  unfold showTuple
  infer_instance

instance (id : TupleId) : Tableless (showTuple id) := by
  unfold showTuple
  infer_instance

theorem aside_modifyObject (id : ObjectId) (f : Object → Object) :
    Aside (modify fun e => e.modifyObject id f) :=
  aside_modify fun _ => ⟨rfl, rfl, rfl, rfl, rfl, rfl⟩

instance (v : Value) : Aside (ofValue v) := by
  unfold ofValue
  infer_instance

instance (v : Value) (id : TypeId) (typeMod : Int32) : Aside (toDatum v id typeMod) := by
  unfold toDatum
  infer_instance

instance (id : TupleId) (t : Tuple) (name : String) (v : Value) :
    Aside (writeColumn id t name v) := by
  unfold writeColumn
  split
  · exact aside_throw_bind _ _
  · refine .bind fun e => ?_
    split
    · infer_instance
    · split
      · infer_instance
      -- a tuple of the engine changes, of which scripts have the number only
      · exact .bind fun _ => aside_modify fun _ => ⟨rfl, rfl, rfl, rfl, rfl, rfl⟩

instance (a : Attribute) (d : Option Datum) : Aside (columnText a d) := by
  cases d with
  | none => exact inferInstanceAs (Aside (pure ""))
  | some d => exact Aside.tryCatch inferInstance inferInstance

instance (t : Tuple) : Aside (tupleText t) := by
  unfold tupleText
  refine .bind fun e => ?_
  split
  · infer_instance
  · infer_instance

/-! ### Results -/

instance (rows : RowSet) : Aside (newResult rows) := by
  unfold newResult
  infer_instance

instance (rows : RowSet) : Tableless (newResult rows) := by
  unfold newResult
  infer_instance

instance (r : QueryResult) : Aside (resultOf r) := by
  unfold resultOf
  split
  · infer_instance
  · infer_instance

instance (r : QueryResult) : Tableless (resultOf r) := by
  unfold resultOf
  split
  · infer_instance
  · infer_instance

instance (id : ObjectId) (set : ResultSet) (i : Nat) : Aside (rowAt id set i) := by
  unfold rowAt
  split
  · infer_instance
  · infer_instance
  · exact .bind fun _ => @Aside.bind _ _ _ _ (aside_modifyObject _ _) inferInstance

instance (id : ObjectId) (set : ResultSet) (i : Nat) : Tableless (rowAt id set i) := by
  unfold rowAt
  split
  · infer_instance
  · infer_instance
  · infer_instance

instance (id : ObjectId) (key value : Value) : Aside (writeField id key value) := by
  unfold writeField
  refine .bind fun e => ?_
  split
  · refine .bind fun name => ?_
    split
    · infer_instance
    · infer_instance
  · infer_instance

instance (id : ObjectId) : Aside (countRows id) := by
  unfold countRows
  refine .bind fun e => ?_
  split
  · infer_instance
  · infer_instance

instance (id : ObjectId) : Aside (objectText id) := by
  unfold objectText
  refine .bind fun e => ?_
  split
  next t _ =>
    cases e.tuple? t with
    | none => exact inferInstanceAs (Aside (throw mismatch))
    | some tuple => exact inferInstanceAs (Aside (tupleText tuple))
  · infer_instance
  · infer_instance
  · infer_instance
  · infer_instance

/-! ### Cursors and iterators -/

instance (name : String) (wrap : Cursor → Object) : Aside (attachCursor name wrap) :=
  aside_modifyGet fun _ => ⟨rfl, rfl, rfl, rfl, rfl, rfl⟩

instance (name : String) : Aside (newCursor name) := by
  unfold newCursor
  infer_instance

instance (name : String) : Tableless (newCursor name) := by
  unfold newCursor
  infer_instance

instance (id : ObjectId) : Aside (openCursor id) := by
  unfold openCursor
  refine .bind fun e => ?_
  split
  · infer_instance
  · infer_instance

instance (id : ObjectId) (direction : FetchDirection) (count : Int64) :
    Aside (fetchRows id direction count) := by
  unfold fetchRows
  infer_instance

instance (id : ObjectId) (direction : FetchDirection) (count : Int64) :
    Tableless (fetchRows id direction count) := by
  unfold fetchRows
  infer_instance

instance (id : ObjectId) (direction : FetchDirection) (count : Int64) :
    Aside (moveCursor id direction count) := by
  unfold moveCursor
  infer_instance

instance (id : ObjectId) (c : Cursor) : Aside (closePortal id c) := by
  unfold closePortal
  split
  · infer_instance
  · -- the portal is no longer to be closed at the end of the transaction
    refine @Aside.bind _ _ _ _ (aside_modify fun e => ?_) inferInstance
    cases c.cleanup <;> exact ⟨rfl, rfl, rfl, rfl, rfl, rfl⟩

instance (id : ObjectId) : Aside (closeCursor id) := by
  unfold closeCursor
  refine .bind fun e => ?_
  split
  · infer_instance
  · infer_instance

instance (portal : String) : Aside (newIterator portal) := by
  unfold newIterator
  infer_instance

instance (portal : String) : Tableless (newIterator portal) := by
  unfold newIterator
  infer_instance

instance (id : ObjectId) (f : RowIterator → RowIterator) : Aside (modifyIterator id f) :=
  aside_modifyObject id _

instance (id : ObjectId) (i : RowIterator) : Aside (finishIterator id i) := by
  unfold finishIterator
  refine .bind fun _ => @Aside.bind _ _ _ _ (aside_modify fun e => ?_) fun _ => ?_
  · cases i.handle <;> exact ⟨rfl, rfl, rfl, rfl, rfl, rfl⟩
  · exact Aside.tryCatch inferInstance inferInstance

instance (i : RowIterator) (layout : RowLayout) : Aside (iteratorHandle i layout) := by
  unfold iteratorHandle
  split
  · infer_instance
  · infer_instance

instance (id : ObjectId) : Aside (nextRow id) := by
  unfold nextRow
  refine .bind fun e => ?_
  split
  · split
    · infer_instance
    · split
      · infer_instance
      · refine .bind fun _ => .bind fun batch => ?_
        split
        · infer_instance
        · infer_instance
  · infer_instance

instance (id : ObjectId) : Tableless (nextRow id) := by
  unfold nextRow
  refine .bind fun e => ?_
  split
  · split
    · infer_instance
    · split
      · infer_instance
      · refine .bind fun _ => .bind fun batch => ?_
        split
        · infer_instance
        · infer_instance
  · infer_instance

/-! ### Statements and plans -/

instance (sql : String) (params : Row) (readOnly : Bool) (limit : Nat) :
    Aside (execute sql params readOnly limit) := by
  unfold execute
  infer_instance

instance (sql : String) (params : Row) (readOnly : Bool) (limit : Nat) :
    Tableless (execute sql params readOnly limit) := by
  unfold execute
  infer_instance

instance (sql : String) (params : Row) (name : Option String) (readOnly : Bool) :
    Aside (openPortal sql params name readOnly) := by
  unfold openPortal
  infer_instance

instance (name : String) : Aside (findCursor name) := by
  unfold findCursor
  infer_instance

instance (name : String) : Tableless (findCursor name) := by
  unfold findCursor
  infer_instance

instance (id : ObjectId) : Aside (planOf id) := by
  unfold planOf
  refine .bind fun e => ?_
  split
  · infer_instance
  · infer_instance

instance (p : Plan) (args : Option TableId) : Aside (bindParams p args) := by
  unfold bindParams
  split
  · infer_instance
  · split
    · infer_instance
    · infer_instance

instance (id : ObjectId) : Aside (savePlan id) := aside_modifyObject id _

/-! ### Calls -/

instance (kind : ObjectKind) (args : List Value) : Aside (ownArguments kind args) := by
  unfold ownArguments
  split
  · infer_instance
  · infer_instance

instance : Aside pushFrame := aside_modifyGet fun _ => ⟨rfl, rfl, rfl, rfl, rfl, rfl⟩

instance (frame : FrameId) (exit : FrameExit) : Aside (popFrame frame exit) where
  same e := by
    unfold popFrame Engine.popFrame
    split
    · exact ⟨rfl, rfl, rfl, rfl, rfl, rfl⟩
    · exact Engine.SameScripts.refl e

instance : Aside checkUsable := by
  unfold checkUsable
  infer_instance

instance (d : RoutineDefinition) : Aside (checkDefinition d) := by
  unfold checkDefinition
  infer_instance

instance (v : Value) (layout : RowLayout) : Aside (toRow v layout) := by
  unfold toRow
  infer_instance

instance (t : TriggerEvent) (table : TableId) (start : Option TupleId) :
    Aside (rowLeft t table start) := by
  unfold rowLeft
  split
  · infer_instance
  · refine .bind fun e => ?_
    dsimp only
    split
    · infer_instance
    · infer_instance
    · split
      · infer_instance
      · infer_instance
    · infer_instance

instance (r : CompiledRoutine) (v : Value) : Aside (resultDatum r v) := by
  unfold resultDatum
  infer_instance

end Serving

end StoredRoutine
