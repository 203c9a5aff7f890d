import Mathlib.Logic.Relation
import StoredRoutine.Engine.Triggers
import StoredRoutine.Proofs.Catalog.Resolution

/-!
# `StoredRoutine.Proofs.Engine.Moves`: what services do to objects

Scripts hold objects of the engine, and get at them through services only. `Engine.Move` lists
everything that one step of a service does to the objects and to the registry of cleanups: it makes
an object without a cursor, or one with a cursor that it registers; it changes a single object in
one of the ways of `Object.Change`; or it closes the cursor of an object, which leaves the registry.
All else leaves both alone.

So whatever a computation of an engine does is a sequence of such moves (`Serving.Moving`), and so
is a run of a script (`Engine.moves_run`). A law about objects is shown for one move, and holds of
every run.

Most computations move objects wherever they start, and the search for instances finds this from
their parts. A cursor that is closed and an iterator that goes on were looked up before, so what is
said of them is said of the engine in which they were found (`Serving.MovesFrom`).
-/

set_option autoImplicit false

namespace StoredRoutine

open Script (Announcer Control ObjectId ObjectKind Service TableId Value)

/-! ### Moves -/

/-- The cursor of an object. -/
def Object.cursor? : Object → Option Cursor
  | .cursor c => some c
  | .iterator i => some i.cursor
  | _ => none

/-- What services make of one object, apart from closing its cursor. -/
inductive Object.Change : Object → Object → Prop where
  | same (o : Object) : Change o o
  | saved (p : Plan) : Change (.plan p) (.plan { p with saved := true })
  /-- A row of a result has become a tuple. -/
  | shown (set : ResultSet) (entry : Nat × TupleId) :
    Change (.rows set) (.rows { set with tuples := entry :: set.tuples })
  /-- An iterator has given away a row that it had fetched before. -/
  | popped {i : RowIterator} {row : Row} {rest : List Row} (hqueue : i.queue = row :: rest) :
    Change (.iterator i) (.iterator { i with queue := rest })
  /-- An iterator has fetched rows. The first of them make its handle. -/
  | fetched {i : RowIterator} {handle : HandleId} (hdone : i.done = false)
    (hhandle : i.handle = none ∨ i.handle = some handle) (rest : List Row) :
    Change (.iterator i) (.iterator { i with handle := some handle, queue := rest })
  | finished {i : RowIterator} (hdone : i.done = false) :
    Change (.iterator i) (.iterator { i with done := true, handle := none })

/-- A cursor that is closed, and has left the registry. -/
def Cursor.shut (c : Cursor) : Cursor := { c with closed := true, cleanup := none }

namespace Engine

/-- One thing that happens to the objects and to the registry. -/
inductive Move (e e' : Engine) : Prop where
  | still (hobjects : e'.objects = e.objects) (hcleanups : e'.cleanups = e.cleanups)
  | made (o : Object) (ho : o.cursor? = none) (hobjects : e'.objects = e.objects.push o)
    (hcleanups : e'.cleanups = e.cleanups)
  | attached (o : Object) (name : String)
    (ho : o.cursor? = some { name, cleanup := some (e.cleanups.register
      (.closeCursor ⟨e.objects.size⟩)).1 })
    (hobjects : e'.objects = e.objects.push o)
    (hcleanups : e'.cleanups = (e.cleanups.register (.closeCursor ⟨e.objects.size⟩)).2)
  | changed (id : ObjectId) (o : Object) (f : Object → Object) (ho : e.object? id = some o)
    (hf : o.Change (f o)) (hobjects : e'.objects = e.objects.modify id.index f)
    (hcleanups : e'.cleanups = e.cleanups)
  | closed (id : ObjectId) (o : Object) (c : Cursor) (ho : e.object? id = some o)
    (hc : o.cursor? = some c) (hopen : c.closed = false)
    (hobjects : e'.objects = e.objects.modify id.index (.mapCursor .shut))
    (hcleanups : e'.cleanups =
      c.cleanup.elim e.cleanups fun cleanup => (e.cleanups.unregister cleanup).2)

/-- Any number of moves. -/
abbrev Moves : Engine → Engine → Prop := Relation.ReflTransGen Move

theorem moves_still {e e' : Engine} (hobjects : e'.objects = e.objects)
    (hcleanups : e'.cleanups = e.cleanups) : e.Moves e' := .single (.still hobjects hcleanups)

/-- To change an object that is not there changes nothing. -/
theorem modify_of_none {e : Engine} {id : ObjectId} (ho : e.object? id = none)
    (f : Object → Object) : e.objects.modify id.index f = e.objects := by
  have hsize : e.objects.size ≤ id.index := Array.getElem?_eq_none_iff.mp ho
  refine Array.ext_getElem? fun j => ?_
  rw [Array.getElem?_modify]
  split
  next heq => rw [Array.getElem?_eq_none (by omega)]; rfl
  · rfl

/-- A change that every object can undergo. -/
theorem moves_modifyObject (e : Engine) (id : ObjectId) {f : Object → Object}
    (hf : ∀ o, e.object? id = some o → o.Change (f o)) : e.Moves (e.modifyObject id f) := by
  cases ho : e.object? id with
  -- no object, no change
  | none => exact moves_still (modify_of_none ho f) rfl
  | some o => exact .single (.changed id o f ho (hf o ho) rfl rfl)

end Engine

namespace Serving

variable {α β : Type}

/-- A computation moves the objects of one engine. -/
def MovesFrom (e : Engine) (x : Serving α) : Prop := e.Moves (x e).2

/-- A computation is a sequence of moves. -/
class Moving (x : Serving α) : Prop where
  moves : ∀ e : Engine, MovesFrom e x

/-! ### Parts of computations -/

/-- A computation that has nothing to do with objects. -/
theorem moving_of_still {x : Serving α} (hobjects : ∀ e : Engine, (x e).2.objects = e.objects)
    (hcleanups : ∀ e : Engine, (x e).2.cleanups = e.cleanups) : Moving x :=
  ⟨fun e => Engine.moves_still (hobjects e) (hcleanups e)⟩

instance (a : α) : Moving (pure a : Serving α) := ⟨fun _ => .refl⟩

instance (f : Failure) : Moving (throw f : Serving α) := ⟨fun _ => .refl⟩

/-- A computation that goes on from what it has found. -/
theorem MovesFrom.bind {x : Serving α} {k : α → Serving β} {e : Engine} (hx : MovesFrom e x)
    (hk : ∀ a e', x e = (.ok a, e') → MovesFrom e' (k a)) : MovesFrom e (x >>= k) := by
  unfold MovesFrom at hx ⊢
  rw [run_bind]
  generalize hdone : x e = done at hx hk ⊢
  obtain ⟨r, e'⟩ := done
  cases r with
  | ok a => exact hx.trans (hk a e' rfl)
  | error f => exact hx

/-- A computation that starts by looking at the engine. -/
theorem movesFrom_get {k : Engine → Serving β} {e : Engine} (hk : MovesFrom e (k e)) :
    MovesFrom e (get >>= k) := hk

theorem Moving.bind {x : Serving α} {k : α → Serving β} [hx : Moving x]
    (hk : ∀ a, Moving (k a)) : Moving (x >>= k) :=
  ⟨fun e => (hx.moves e).bind fun a e' _ => (hk a).moves e'⟩

instance {x : Serving α} {k : α → Serving β} [Moving x] [hk : ∀ a, Moving (k a)] :
    Moving (x >>= k) := Moving.bind hk

/-- After a failure nothing happens. -/
instance (f : Failure) (k : α → Serving β) : Moving (throw f >>= k) := ⟨fun _ => .refl⟩

instance {x y : Serving α} {c : Prop} [Decidable c] [hx : Moving x] [hy : Moving y] :
    Moving (if c then x else y) := by
  split
  · exact hx
  · exact hy

instance : Moving (get : Serving Engine) := ⟨fun _ => .refl⟩

instance (f : Host → Outcome α × Host) : Moving (onHost f) :=
  moving_of_still (fun _ => rfl) fun _ => rfl

instance (f : Border → Resolving α) : Moving (converting f) :=
  moving_of_still (fun _ => rfl) fun _ => rfl

instance (o : Outcome α) : Moving (ofOutcome o) where
  moves e := by cases o <;> exact .refl

instance {x : Serving α} [hx : Moving x] : Moving (attempt x) := ⟨hx.moves⟩

theorem MovesFrom.tryCatch {x : Serving α} {handler : Failure → Serving α} {e : Engine}
    (hx : MovesFrom e x) (hh : ∀ f, Moving (handler f)) :
    MovesFrom e (MonadExcept.tryCatch x handler) := by
  unfold MovesFrom at hx ⊢
  rw [run_tryCatch]
  generalize x e = done at hx ⊢
  obtain ⟨r, e'⟩ := done
  cases r with
  | ok a => exact hx
  | error f => exact hx.trans ((hh f).moves e')

instance {x : Serving α} {handler : Failure → Serving α} [hx : Moving x]
    [hh : ∀ f, Moving (handler f)] : Moving (tryCatch x handler : Serving α) :=
  ⟨fun e => (hx.moves e).tryCatch hh⟩

theorem Moving.mapM {f : α → Serving β} (l : List α) (hf : ∀ a, Moving (f a)) :
    Moving (l.mapM f) := by
  induction l with
  | nil => exact inferInstanceAs (Moving (pure []))
  | cons a rest ih =>
    rw [List.mapM_cons]
    infer_instance

instance {f : α → Serving β} (l : List α) [hf : ∀ a, Moving (f a)] : Moving (l.mapM f) :=
  Moving.mapM l hf

theorem moving_modify {f : Engine → Engine} (hf : ∀ e : Engine, e.Moves (f e)) :
    Moving (modify f : Serving PUnit) := ⟨hf⟩

theorem moving_modifyGet {f : Engine → α × Engine} (hf : ∀ e : Engine, e.Moves (f e).2) :
    Moving (modifyGet f : Serving α) := ⟨hf⟩

/-! ### Tuples and objects -/

instance (layout : RowLayout) : Moving (allocate layout) :=
  moving_of_still (fun _ => rfl) fun _ => rfl

instance (handle : HandleId) (values : Row) (state : TupleState) :
    Moving (tupleWith handle values state) := moving_of_still (fun _ => rfl) fun _ => rfl

instance (row : RowValue) (state : TupleState) : Moving (newTuple row state) :=
  moving_of_still (fun _ => rfl) fun _ => rfl

/-- A new object without a cursor. -/
theorem moving_newObject (kind : ObjectKind) {o : Object} (ho : o.cursor? = none) :
    Moving (newObject kind o) :=
  have := moving_modifyGet (f := fun e => e.addObject o) fun _ => .single (.made o ho rfl rfl)
  Moving.bind fun _ => inferInstance

instance (id : TupleId) : Moving (showTuple id) := moving_newObject .tuple rfl

instance (rows : RowSet) : Moving (newResult rows) :=
  Moving.bind fun _ => moving_newObject .rows rfl

/-- A new object with a cursor that is registered. -/
theorem moving_attachCursor (name : String) (wrap : Cursor → Object)
    (hwrap : ∀ c, (wrap c).cursor? = some c) : Moving (attachCursor name wrap) :=
  moving_modifyGet fun _ => .single (.attached _ name (hwrap _) rfl rfl)

instance (name : String) : Moving (newCursor name) :=
  have := moving_attachCursor name .cursor fun _ => rfl
  Moving.bind fun _ => inferInstance

instance (portal : String) : Moving (newIterator portal) :=
  have := moving_attachCursor portal (fun c => .iterator { cursor := c }) fun _ => rfl
  Moving.bind fun _ => inferInstance

/-! ### Values -/

mutual

theorem moving_toValue (v : ScriptValue) : Moving (toValue v) := by
  match v with
  | .nil | .bool _ | .int _ | .number _ | .string _ =>
    unfold toValue
    infer_instance
  | .table entries =>
    unfold toValue
    have := moving_toTable entries (Script.Table.withRoom 0 entries.length)
    exact .bind fun _ => moving_of_still (fun _ => rfl) fun _ => rfl
  | .tuple none =>
    unfold toValue
    infer_instance
  | .tuple (some row) =>
    unfold toValue
    infer_instance
  | .cursor name =>
    unfold toValue
    infer_instance

theorem moving_toTable (entries : List (ScriptKey × ScriptValue)) (t : Script.Table) :
    Moving (toTable entries t) := by
  match entries with
  | [] =>
    unfold toTable
    infer_instance
  | (key, v) :: rest =>
    unfold toTable
    have := moving_toValue v
    exact .bind fun _ => moving_toTable rest _

end

instance (v : ScriptValue) : Moving (toValue v) := moving_toValue v

instance (v : Value) : Moving (ofValue v) := by
  unfold ofValue
  infer_instance

instance (v : Value) (id : TypeId) (typeMod : Int32) : Moving (toDatum v id typeMod) := by
  unfold toDatum
  infer_instance

instance (d : Option Datum) (id : TypeId) : Moving (ofDatum d id) := by
  unfold ofDatum
  infer_instance

/-! ### Columns and results -/

instance (t : Tuple) (name : String) : Moving (readColumn t name) := by
  unfold readColumn
  refine .bind fun e => ?_
  split
  · infer_instance
  · split
    · infer_instance
    · infer_instance

instance (id : TupleId) (t : Tuple) (name : String) (v : Value) :
    Moving (writeColumn id t name v) := by
  unfold writeColumn
  split
  · exact ⟨fun _ => .refl⟩
  · refine .bind fun e => ?_
    split
    · infer_instance
    · split
      · infer_instance
      · exact .bind fun _ => moving_of_still (fun _ => rfl) fun _ => rfl

instance (a : Attribute) (d : Option Datum) : Moving (columnText a d) := by
  cases d with
  | none => exact inferInstanceAs (Moving (pure ""))
  | some d =>
    unfold columnText
    infer_instance

instance (t : Tuple) : Moving (tupleText t) := by
  unfold tupleText
  refine .bind fun e => ?_
  split
  · infer_instance
  · infer_instance

instance (r : QueryResult) : Moving (resultOf r) := by
  unfold resultOf
  split
  · infer_instance
  · infer_instance

instance (id : ObjectId) (set : ResultSet) (i : Nat) : Moving (rowAt id set i) := by
  unfold rowAt
  split
  · infer_instance
  · infer_instance
  · refine .bind fun t => @Moving.bind _ _ _ _ (moving_modify fun e => ?_) inferInstance
    refine e.moves_modifyObject id fun o _ => ?_
    cases o with
    | rows set => exact .shown set (i, t)
    | _ => exact .same _

instance (id : ObjectId) (key : Value) : Moving (readField id key) := by
  unfold readField
  refine .bind fun e => ?_
  split
  · refine .bind fun name => ?_
    split
    · infer_instance
    · infer_instance
  · split
    · split
      · infer_instance
      · infer_instance
    · infer_instance
  · infer_instance

instance (id : ObjectId) (key value : Value) : Moving (writeField id key value) := by
  unfold writeField
  refine .bind fun e => ?_
  split
  · refine .bind fun name => ?_
    split
    · infer_instance
    · infer_instance
  · infer_instance

instance (id : ObjectId) : Moving (countRows id) := by
  unfold countRows
  refine .bind fun e => ?_
  split
  · infer_instance
  · infer_instance

instance (id : ObjectId) : Moving (objectText id) := by
  unfold objectText
  refine .bind fun e => ?_
  split
  next t _ =>
    cases e.tuple? t with
    | none => exact inferInstanceAs (Moving (throw mismatch))
    | some tuple => exact inferInstanceAs (Moving (tupleText tuple))
  · infer_instance
  · infer_instance
  · infer_instance
  · infer_instance

/-! ### Cursors -/

instance (id : ObjectId) : Moving (openCursor id) := by
  unfold openCursor
  refine .bind fun e => ?_
  split
  · infer_instance
  · infer_instance

instance (id : ObjectId) (direction : FetchDirection) (count : Int64) :
    Moving (fetchRows id direction count) := by
  unfold fetchRows
  infer_instance

instance (id : ObjectId) (direction : FetchDirection) (count : Int64) :
    Moving (moveCursor id direction count) := by
  unfold moveCursor
  infer_instance

/-- The cursor that is closed is that of the object. -/
theorem movesFrom_closePortal {e : Engine} {id : ObjectId} {o : Object} {c : Cursor}
    (ho : e.object? id = some o) (hc : o.cursor? = some c) :
    MovesFrom e (closePortal id c) := by
  unfold closePortal
  split
  · exact .refl
  next hclosed =>
    -- the mark and the registry change together; the portal is the host's
    refine MovesFrom.bind ?_ fun _ e' _ => Moving.moves e'
    refine .single (.closed id o c ho hc (by simpa using hclosed) ?_ ?_)
    · cases hcleanup : c.cleanup <;> rfl
    · cases hcleanup : c.cleanup <;> rfl

instance (id : ObjectId) : Moving (closeCursor id) where
  moves e := by
    unfold closeCursor
    refine movesFrom_get ?_
    split
    next c ho => exact movesFrom_closePortal ho rfl
    · exact .refl

/-! ### Iterators -/

/-- An iterator changes in one of its ways. -/
theorem movesFrom_modifyIterator {e : Engine} {id : ObjectId} {i : RowIterator}
    {f : RowIterator → RowIterator} (ho : e.object? id = some (.iterator i))
    (hf : (Object.iterator i).Change (.iterator (f i))) : MovesFrom e (modifyIterator id f) :=
  .single (.changed id _ (.mapIterator f) ho hf rfl rfl)

/-- The end of an iterator, which was not at its end before. -/
theorem movesFrom_finishIterator {e : Engine} {id : ObjectId} {i : RowIterator}
    (ho : e.object? id = some (.iterator i)) (hdone : i.done = false) :
    MovesFrom e (finishIterator id i) := by
  unfold finishIterator
  refine (movesFrom_modifyIterator ho (.finished hdone)).bind fun _ e₁ hfinished => ?_
  cases hfinished
  refine MovesFrom.bind ?_ fun _ e₂ hreleased => ?_
  · refine Engine.moves_still ?_ ?_
    · cases i.handle <;> rfl
    · cases i.handle <;> rfl
  · -- the cursor is still the same
    have hobjects : e₂.objects = e.objects.modify id.index
        (.mapIterator fun i => { i with done := true, handle := none }) := by
      cases hreleased
      cases i.handle <;> rfl
    have ho₂ : e₂.object? id = some (.iterator { i with done := true, handle := none }) := by
      unfold Engine.object? at ho ⊢
      rw [hobjects, Array.getElem?_modify, if_pos rfl, ho]
      rfl
    exact (movesFrom_closePortal ho₂ rfl).tryCatch fun _ => inferInstance

/-- A batch may make the handle of an iterator, and goes on with the one that there is. -/
theorem iteratorHandle_spec {e e' : Engine} {i : RowIterator} {layout : RowLayout}
    {handle : HandleId} (hrun : iteratorHandle i layout e = (.ok handle, e')) :
    e'.objects = e.objects ∧ e'.cleanups = e.cleanups ∧
      (i.handle = none ∨ i.handle = some handle) := by
  unfold iteratorHandle at hrun
  cases hhandle : i.handle with
  | none =>
    rw [hhandle] at hrun
    cases hrun
    exact ⟨rfl, rfl, .inl rfl⟩
  | some handle =>
    rw [hhandle] at hrun
    cases hrun
    exact ⟨rfl, rfl, .inr rfl⟩

instance (i : RowIterator) (layout : RowLayout) : Moving (iteratorHandle i layout) := by
  unfold iteratorHandle
  split
  · infer_instance
  · infer_instance

instance (id : ObjectId) : Moving (nextRow id) where
  moves e := by
    unfold nextRow
    refine movesFrom_get ?_
    split
    next i ho =>
      split
      next row rest handle hqueue hhandle =>
        exact (movesFrom_modifyIterator ho (.popped hqueue)).bind fun _ e₁ _ => Moving.moves e₁
      · split
        · exact .refl
        next hdone =>
          have hdone : i.done = false := by simpa using hdone
          refine movesFrom_get ?_
          refine (Moving.moves e).bind fun batch e₁ hbatch => ?_
          -- the host and the arena know nothing of the iterator
          have ho₁ : e₁.object? id = some (.iterator i) := by
            rw [show e₁ = _ from (congrArg Prod.snd hbatch).symm]
            exact ho
          split
          · exact (movesFrom_finishIterator ho₁ hdone).bind fun _ e₂ _ => .refl
          next row rest _ =>
            refine (Moving.moves e₁).bind fun handle e₂ hmade => ?_
            obtain ⟨hobjects, -, hhandle⟩ := iteratorHandle_spec hmade
            have ho₂ : e₂.object? id = some (.iterator i) := by
              unfold Engine.object?
              rw [hobjects]
              exact ho₁
            exact (movesFrom_modifyIterator ho₂ (.fetched hdone hhandle rest)).bind
              fun _ e₃ _ => Moving.moves e₃
    · exact .refl

/-! ### Statements and plans -/

instance (sql : String) (params : Row) (readOnly : Bool) (limit : Nat) :
    Moving (execute sql params readOnly limit) := by
  unfold execute
  infer_instance

instance (sql : String) (params : Row) (name : Option String) (readOnly : Bool) :
    Moving (openPortal sql params name readOnly) := by
  unfold openPortal
  infer_instance

instance (name : String) : Moving (findCursor name) := by
  unfold findCursor
  infer_instance

instance (types : TableId) : Moving (paramTypes types) := by
  unfold paramTypes
  refine @Moving.bind _ _ _ _ (moving_of_still (fun _ => rfl) fun _ => rfl) fun length => ?_
  refine .bind fun e => .mapM _ fun i => .bind fun name => ?_
  split
  · infer_instance
  · infer_instance

instance (sql : String) (types : Option TableId) : Moving (newPlan sql types) := by
  unfold newPlan
  cases types with
  | none => exact moving_newObject .plan rfl
  | some types => exact .bind fun _ => moving_newObject .plan rfl

instance (id : ObjectId) : Moving (planOf id) := by
  unfold planOf
  refine .bind fun e => ?_
  split
  · infer_instance
  · infer_instance

instance (p : Plan) (args : Option TableId) : Moving (bindParams p args) := by
  unfold bindParams
  split
  · infer_instance
  · split
    · infer_instance
    · infer_instance

instance (id : ObjectId) : Moving (savePlan id) := by
  refine moving_modify fun e => e.moves_modifyObject id fun o _ => ?_
  cases o with
  | plan p => exact .saved p
  | _ => exact .same _

instance (r : Report) : Moving (reportTable r) := moving_of_still (fun _ => rfl) fun _ => rfl

/-! ### Frames -/

instance : Moving pushFrame := moving_of_still (fun _ => rfl) fun _ => rfl

instance (frame : FrameId) (exit : FrameExit) : Moving (popFrame frame exit) where
  moves e := by
    show e.Moves (e.popFrame frame exit).2
    unfold Engine.popFrame
    split
    · exact Engine.moves_still rfl rfl
    · exact .refl

end Serving

/-- Whatever function a caller runs, it moves objects. -/
class Caller.Moving (call : Caller) : Prop where
  moves : ∀ (f : Value) (args : List Value) (e : Engine), e.Moves (call f args e).2

namespace Serving

variable {call : Caller} [hcall : call.Moving]

/-! ### Calls of functions -/

instance (f : Value) (args : List Value) : Moving (runFunction call f args) where
  moves e := by
    have hmoves := hcall.moves f args e
    unfold MovesFrom runFunction
    generalize call f args e = done at hmoves ⊢
    obtain ⟨ending, e'⟩ := done
    cases ending <;> exact hmoves

instance (left : Nat) (raised : Value) : Moving (raisedFailure call left raised) := by
  induction left generalizing raised with
  | zero =>
    unfold raisedFailure
    split
    · infer_instance
    · infer_instance
    next heq _ => cases heq
  | succ left ih =>
    unfold raisedFailure
    split
    · infer_instance
    next heq _ => cases heq
    next heq _ =>
      cases heq
      -- the text of what was raised may raise something itself
      refine .bind fun returned => ?_
      cases returned with
      | ok results => exact inferInstanceAs (Moving (pure _))
      | error other => exact ih other

instance (f : Value) (args : List Value) : Moving (runUnprotected call f args) := by
  unfold runUnprotected
  refine .bind fun returned => ?_
  cases returned with
  | ok results => exact inferInstanceAs (Moving (pure results))
  | error raised =>
    exact inferInstanceAs (Moving (raisedFailure call maxRaised raised >>= fun f => throw f))

instance (f : Value) (args : List Value) : Moving (runProtected call f args) := by
  unfold runProtected
  refine .bind fun outcome => ?_
  split
  · infer_instance
  · infer_instance

instance (a : Announcer) (args : List Value) : Moving (announce call a args) := by
  unfold announce
  refine .bind fun e => ?_
  dsimp only
  split
  · infer_instance
  · refine .bind fun parts => ?_
    exact moving_of_still (fun _ => rfl) fun _ => rfl

instance (raised : Value) : Moving (caught raised) := by
  unfold caught
  split
  · infer_instance
  · infer_instance

instance (frame : FrameId) (savepoint : Nat) (results : List Value) :
    Moving (keepWork frame savepoint results) := by
  unfold keepWork
  infer_instance

instance (frame : FrameId) (savepoint : Nat) (raised : Value) :
    Moving (undoWork frame savepoint raised) := by
  unfold undoWork
  refine .bind fun e => ?_
  dsimp only
  split
  · infer_instance
  · refine .bind fun outcome => ?_
    split
    · refine @Moving.bind _ _ _ _ (moving_of_still (fun _ => rfl) fun _ => rfl) fun _ => ?_
      infer_instance
    · infer_instance

instance (f : Value) (args : List Value) : Moving (underSavepoint call f args) := by
  unfold underSavepoint
  refine .bind fun frame => .bind fun begun => ?_
  split
  · infer_instance
  · refine .bind fun returned => ?_
    split
    · infer_instance
    · infer_instance

instance (args : List Value) : Moving (protectedCall call args) := by
  unfold protectedCall
  split
  · infer_instance
  · dsimp only
    split
    · infer_instance
    · refine .bind fun e => ?_
      split
      · infer_instance
      · infer_instance

/-! ### Services -/

instance (kind : ObjectKind) (args : List Value) : Moving (ownArguments kind args) := by
  unfold ownArguments
  split
  · infer_instance
  · infer_instance

instance (s : Service) (args : List Value) : Moving (servePlan s args) := by
  unfold servePlan
  refine .bind fun (id, rest) => ?_
  cases s <;> infer_instance

instance (s : Service) (args : List Value) : Moving (serveCursor s args) := by
  unfold serveCursor
  refine .bind fun (id, rest) => ?_
  cases s <;> infer_instance

/-- Every service moves objects, and does nothing else to them. -/
instance (s : Service) (args : List Value) : Moving (serve call s args) := by
  unfold serve
  cases s with
  | setShared =>
    exact .bind fun _ =>
      @Moving.bind _ _ _ _ (moving_of_still (fun _ => rfl) fun _ => rfl) inferInstance
  | readField | writeField | countRows | objectText =>
    dsimp only
    split
    · infer_instance
    · infer_instance
  | _ => infer_instance

/-! ### Events -/

instance (r : Relation) : Moving (relationTable r) := by
  unfold relationTable
  refine .bind fun e => ?_
  split
  · infer_instance
  · exact moving_of_still (fun _ => rfl) fun _ => rfl

instance (name : String) (row : Option RowValue) (state : TupleState) :
    Moving (rowField name row state) := by
  unfold rowField
  split
  · infer_instance
  · infer_instance

instance (t : TriggerEvent) : Moving (publishEvent t) := by
  unfold publishEvent
  refine .bind fun relation => .bind fun (rowFields, tuple) => .bind fun (oldFields, _) => ?_
  exact moving_of_still (fun _ => rfl) fun _ => rfl

end Serving

/-! ### Runs -/

/-- Whatever a script does, it moves objects. -/
theorem Engine.moves_run (fuel : Nat) (c : Control) (e : Engine) : e.Moves (run fuel c e).2 := by
  -- on the turns; between the services a script does not come near objects
  induction fuel generalizing c e with
  | zero => exact .refl
  | succ fuel ih =>
    unfold run
    simp only
    generalize Script.Machine.advance stepsAtOnce _ _ c = turn
    obtain ⟨left, step⟩ := turn
    have hcounted (heap : Script.Heap) : e.Moves ({ e with heap }.countTurn left) :=
      moves_still rfl rfl
    cases step with
    | next heap c' =>
      simp only
      split
      · have hlooked : e.Moves (({ e with heap }.countTurn left).look c').2 := moves_still rfl rfl
        exact hlooked.trans (ih _ _)
      · exact (hcounted heap).trans (ih _ _)
    | ended ending heap => exact hcounted heap
    | request s args position heap c' =>
      -- the functions that the service calls have fewer turns
      have : Caller.Moving fun f args e => run fuel (nestedControl c' position f args) e :=
        ⟨fun f args e => ih _ e⟩
      have hserved := Serving.Moving.moves (x := Serving.serve
        (fun f args e => run fuel (nestedControl c' position f args) e) s args)
        ({ e with heap }.countTurn left)
      unfold Serving.MovesFrom at hserved
      simp only
      generalize Serving.serve _ s args _ = served at hserved ⊢
      obtain ⟨r, e'⟩ := served
      cases r with
      | ok values => exact ((hcounted heap).trans hserved).trans (ih _ _)
      | error f => exact ((hcounted heap).trans hserved).trans (ih _ _)

end StoredRoutine
