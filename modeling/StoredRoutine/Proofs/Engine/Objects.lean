import StoredRoutine.Engine.Queries
import StoredRoutine.Engine.Raised
import StoredRoutine.Proofs.Engine.Sound

/-!
# `StoredRoutine.Proofs.Engine.Objects`: values, tuples and results

Everything that turns values of marshaling into values of scripts, or the other way, keeps the
invariant, and so do reads and writes of tuples and results. What they answer is admitted.

Most of it happens in steps each of which keeps the invariant. A tuple with a handle of its own
(`keeps_newTuple`) and a result (`keeps_newResult`) are made in two: the arena has a new handle
before anything refers to it. They are proved from the engine in which both steps are done.
-/

set_option autoImplicit false

namespace StoredRoutine

open Outcome (Catchable)
open Script (AllOf ObjectId ObjectKind Value)

/-! ### Reading values -/

/-- A fold of steps whose failures can be caught. -/
theorem catchable_foldlM {α β : Type} {f : β → α → Outcome β} (hf : ∀ b a, Catchable (f b a))
    (l : List α) (b : β) : Catchable (l.foldlM f b) := by
  induction l generalizing b with
  | nil => exact catchable_ok b
  | cons a rest ih =>
    rw [List.foldlM_cons]
    exact (hf b a).bind fun b' _ => ih b'

namespace Engine

theorem catchable_keyOf (v : Value) : Catchable (keyOf v) := by
  unfold keyOf
  split
  · split <;> exact catchable_ok _
  · split
    · exact catchable_ok _
    · exact catchable_error rfl
  · exact catchable_error rfl

theorem catchable_readValue (e : Engine) (left : Nat) (v : Value) :
    Catchable (e.readValue left v) := by
  -- on the depth to which tables are read
  induction left generalizing v with
  | zero =>
    cases v with
    | nil | bool | string => exact catchable_ok _
    | number n => cases n <;> exact catchable_ok _
    | object kind id =>
      unfold readValue
      split
      · exact catchable_ok _
      · exact catchable_ok _
      · exact catchable_error rfl
    | _ => exact catchable_error rfl
  | succ left ih =>
    cases v with
    | nil | bool | string => exact catchable_ok _
    | number n => cases n <;> exact catchable_ok _
    | table id =>
      unfold readValue
      refine (catchable_foldlM (fun entries entry => ?_) _ _).bind fun _ _ => catchable_ok _
      exact (catchable_keyOf entry.1).bind fun _ _ => (ih entry.2).bind fun _ _ => catchable_ok _
    | object kind id =>
      unfold readValue
      split
      · exact catchable_ok _
      · exact catchable_ok _
      · exact catchable_error rfl
    | _ => exact catchable_error rfl

end Engine

/-! ### Arguments -/

namespace Arguments

theorem catchable_bytes (v : Value) : Catchable (bytes v) := by
  unfold bytes
  split
  · exact catchable_ok _
  · exact catchable_error rfl

theorem catchable_text (v : Value) : Catchable (text v) := by
  unfold text
  refine (catchable_bytes v).bind fun b _ => ?_
  split
  · exact catchable_ok _
  · exact catchable_error rfl

theorem catchable_optional {α : Type} {read : Value → Outcome α}
    (hread : ∀ v, Catchable (read v)) (v : Value) : Catchable (optional read v) := by
  unfold optional
  split
  · exact catchable_ok _
  · exact (hread v).map some

theorem catchable_whole (v : Value) : Catchable (whole v) := by
  unfold whole
  split
  · exact catchable_ok _
  · simp only
    split
    · exact catchable_ok _
    · exact catchable_error rfl

theorem catchable_table (v : Value) : Catchable (table v) := by
  unfold table
  split
  · exact catchable_ok _
  · exact catchable_error rfl

theorem catchable_limit (v : Value) : Catchable (limit v) :=
  (catchable_optional catchable_whole v).bind fun _ _ => catchable_ok _

end Arguments

namespace Serving

variable {e : Engine} {stack : List FrameId}

/-! ### Objects and tuples -/

/-- An object changes, but not in its references. -/
theorem keeps_modifyObject (id : ObjectId) {f : Object → Object}
    (hf : ∀ o, e.object? id = some o → Engine.Harmless f o) :
    Keeps stack e (modify fun e => e.modifyObject id f) fun e' _ => e' = e.modifyObject id f :=
  fun hs => ⟨hs.modifyObject id hf, Engine.Follows.ofSame rfl rfl rfl rfl rfl, rfl⟩

theorem keeps_newObject (kind : ObjectKind) {o : Object} (ho : o.handles = [])
    (hp : o.passing = []) (hc : o.cleanups = []) :
    Keeps stack e (newObject kind o) Engine.Admits := by
  refine Keeps.bind (R := Any) ?_ fun id _ _ _ => keeps_pure (Engine.admits_object kind id)
  refine keeps_modifyGet fun hs => ⟨hs.pushObject ?_ hp ?_, ?_, trivial⟩
  · rw [ho]
    exact hs.arena
  · rw [hc]
    exact fun c hin => absurd hin List.not_mem_nil
  · exact Engine.Follows.ofSame rfl rfl rfl rfl rfl

theorem keeps_showTuple (id : TupleId) : Keeps stack e (showTuple id) Engine.Admits :=
  keeps_newObject .tuple rfl rfl rfl

/-- A tuple that shares a handle to which there is a reference. -/
theorem keeps_tupleWith {handle : HandleId} (hin : handle ∈ e.held) (values : Row)
    (state : TupleState) : Keeps stack e (tupleWith handle values state) Any :=
  keeps_modifyGet fun hs => ⟨hs.pushTuple (t := { handle, values, state }) (hs.arena.retain hin),
    Engine.Follows.ofArena (Arena.follows_retain _ _) rfl rfl rfl rfl, trivial⟩

/-- A tuple with a handle of its own. -/
theorem keeps_newTuple (row : RowValue) (state : TupleState) :
    Keeps stack e (newTuple row state) Any := by
  intro hs
  have hrun : newTuple row state e = (.ok ⟨e.tuples.size⟩,
      { e with
        arena := (e.arena.allocate row.layout).2
        tuples := e.tuples.push
          { handle := (e.arena.allocate row.layout).1, values := row.values, state } }) := rfl
  rw [hrun]
  exact ⟨hs.pushTuple (hs.arena.allocate row.layout),
    Engine.Follows.ofArena (hs.arena.follows_allocate _) rfl rfl rfl rfl, trivial⟩

/-- A new cursor refers to no handle, and names the entry that it has just got. -/
theorem keeps_attachCursor (name : String) {wrap : Cursor → Object}
    (hw : ∀ c, (wrap c).handles = [] ∧ (wrap c).passing = [] ∧
      (wrap c).cleanups = c.cleanup.toList) :
    Keeps stack e (attachCursor name wrap) Any := by
  refine keeps_modifyGet fun hs =>
    ⟨?_, Engine.Follows.ofSame rfl rfl rfl rfl rfl, trivial⟩
  obtain ⟨hregistered, hnew⟩ := hs.registered.registerCursor ⟨e.objects.size⟩
  have hentered : Engine.Sound
      { e with cleanups := (e.cleanups.register (.closeCursor ⟨e.objects.size⟩)).2 } stack :=
    ⟨hs.arena, hs.shared, hs.heap, hs.functions, hs.host, hregistered⟩
  refine hentered.pushObject ?_ (hw _).2.1 fun c hc => ?_
  · rw [(hw _).1]
    exact hs.arena
  · rw [(hw _).2.2] at hc
    exact List.mem_singleton.mp hc ▸ hnew

theorem keeps_newCursor (name : String) : Keeps stack e (newCursor name) Engine.Admits :=
  (keeps_attachCursor name fun _ => ⟨rfl, rfl, rfl⟩).bind fun id _ _ _ =>
    keeps_pure (Engine.admits_object .cursor id)

/-! ### Values -/

mutual

theorem keeps_toValue (e : Engine) (v : ScriptValue) :
    Keeps stack e (toValue v) Engine.Admits := by
  match v with
  | .nil | .bool _ | .int _ | .number _ | .string _ =>
    unfold toValue
    exact keeps_pure (Engine.innate_admits e _ rfl)
  | .table entries =>
    unfold toValue
    refine (keeps_toTable e entries (Script.Table.holds_withRoom _ _)).bind fun table e' _ ht => ?_
    exact keeps_modifyGet fun hs => ⟨hs.withHeap (hs.heap.newTable ht),
      Engine.Follows.ofSame rfl rfl rfl rfl rfl, Engine.admits_table _ _⟩
  | .tuple none =>
    unfold toValue
    exact keeps_pure (Engine.innate_admits e _ rfl)
  | .tuple (some row) =>
    unfold toValue
    exact (keeps_newTuple row .readOnly).bind fun id _ _ _ => keeps_showTuple id
  | .cursor name =>
    unfold toValue
    exact keeps_newCursor name

theorem keeps_toTable (e : Engine) (entries : List (ScriptKey × ScriptValue)) {t : Script.Table}
    (ht : t.Holds e.Admits) :
    Keeps stack e (toTable entries t) fun e' t => t.Holds e'.Admits := by
  match entries with
  | [] =>
    unfold toTable
    exact keeps_pure ht
  | (key, v) :: rest =>
    unfold toTable
    refine (keeps_toValue e v).bind fun value e' hfollows hvalue => ?_
    -- what the table holds so far is still admitted
    have ht' : t.Holds e'.Admits := fun k w hw =>
      ⟨hfollows.admits (ht k w hw).1, hfollows.admits (ht k w hw).2⟩
    refine keeps_toTable e' rest (ht'.set (Engine.innate_admits e') ?_ hvalue)
    cases key <;> exact Engine.innate_admits e' _ rfl

end

theorem keeps_ofValue (v : Value) : Keeps stack e (ofValue v) Any :=
  keeps_get (keeps_ofOutcome (e.catchable_readValue _ v) fun _ _ => trivial)

theorem keeps_toDatum (v : Value) (id : TypeId) (typeMod : Int32) :
    Keeps stack e (toDatum v id typeMod) Any :=
  (keeps_ofValue v).bind fun v _ _ _ =>
    keeps_converting fun _ hcat => Marshal.catchable_toRelational hcat v id typeMod

theorem keeps_ofDatum (d : Option Datum) (id : TypeId) :
    Keeps stack e (ofDatum d id) Engine.Admits :=
  (keeps_converting fun _ hcat => Marshal.catchable_optionToScript hcat d id).bind
    fun v e' _ _ => keeps_toValue e' v

/-! ### Columns -/

theorem keeps_readColumn (t : Tuple) (name : String) :
    Keeps stack e (readColumn t name) Engine.Admits := by
  unfold readColumn
  refine keeps_get ?_
  split
  · exact keeps_pure (Engine.innate_admits e _ rfl)
  · split
    · exact keeps_pure (Engine.innate_admits e _ rfl)
    · exact keeps_ofDatum _ _

theorem map_handle_modify (tuples : Array Tuple) (i : Nat) {f : Tuple → Tuple}
    (hf : ∀ t, (f t).handle = t.handle) :
    (tuples.modify i f).toList.map (·.handle) = tuples.toList.map (·.handle) := by
  apply List.ext_getElem?
  intro j
  rw [List.getElem?_map, List.getElem?_map, Array.getElem?_toList, Array.getElem?_toList,
    Array.getElem?_modify]
  split
  · rw [Option.map_map]
    exact congrArg (Option.map · _) (funext hf)
  · rfl

theorem keeps_writeColumn (id : TupleId) (t : Tuple) (name : String) (v : Value) :
    Keeps stack e (writeColumn id t name v) Any := by
  unfold writeColumn
  split
  · exact keeps_throw_bind rfl _
  · refine keeps_get ?_
    split
    · exact keeps_throw rfl
    · split
      · exact keeps_throw rfl
      · refine (keeps_toDatum _ _ _).bind fun d e' _ _ => keeps_modify fun hs => ?_
        exact ⟨hs.withTuples (map_handle_modify _ _ fun _ => rfl),
          Engine.Follows.ofSame rfl rfl rfl rfl rfl⟩

theorem keeps_columnText (a : Attribute) (d : Option Datum) :
    Keeps stack e (columnText a d) Any := by
  cases d with
  | none => exact keeps_pure trivial
  | some d =>
    refine Keeps.tryCatch ?_ fun _ _ _ => keeps_pure trivial
    exact (keeps_converting fun _ hcat =>
      Resolving.catchable_descriptor hcat _).bind fun _ e' _ _ =>
      keeps_ofOutcome d.catchable_toText fun _ _ => trivial

theorem keeps_tupleText (t : Tuple) : Keeps stack e (tupleText t) Any := by
  unfold tupleText
  refine keeps_get ?_
  split
  · exact keeps_pure trivial
  · refine Keeps.bind (keeps_mapM (S := Any) (fun _ _ _ _ _ => trivial) fun c _ e' _ => ?_)
      fun _ _ _ _ => keeps_pure trivial
    exact keeps_columnText c.1 c.2

/-! ### Results -/

/-- The rows of a result, with a handle of their own. -/
theorem keeps_newResult (rows : RowSet) : Keeps stack e (newResult rows) Engine.Admits := by
  intro hs
  have hrun : newResult rows e = (.ok (.object .rows ⟨e.objects.size⟩),
      { e with
        arena := (e.arena.allocate rows.layout).2
        objects := e.objects.push
          (.rows { handle := (e.arena.allocate rows.layout).1, rows := rows.rows.toArray }) }) :=
    rfl
  rw [hrun]
  exact ⟨hs.pushObject (hs.arena.allocate rows.layout) rfl fun c hc => absurd hc List.not_mem_nil,
    Engine.Follows.ofArena (hs.arena.follows_allocate _) rfl rfl rfl rfl, Engine.admits_object _ _⟩

theorem keeps_resultOf (r : QueryResult) : Keeps stack e (resultOf r) Engine.Admits := by
  unfold resultOf
  split
  · split
    · exact keeps_newResult _
    · exact keeps_pure (Engine.innate_admits e _ rfl)
  · exact keeps_pure (Engine.innate_admits e _ rfl)

/-- The tuple of a row shares the handle of the result. -/
theorem keeps_rowAt {id : ObjectId} {set : ResultSet} (ho : e.object? id = some (.rows set))
    (i : Nat) : Keeps stack e (rowAt id set i) Engine.Admits := by
  unfold rowAt
  split
  · exact keeps_showTuple _
  · exact keeps_pure (Engine.innate_admits e _ rfl)
  · have hin : set.handle ∈ e.held := Engine.mem_held_of_object ho (List.mem_singleton_self _)
    refine (keeps_tupleWith hin _ _).bind fun t e₁ _ _ => ?_
    refine Keeps.bind (keeps_modifyObject id fun o _ => ?_) fun _ e₂ _ _ => keeps_showTuple t
    cases o <;> exact ⟨rfl, rfl, List.Subset.refl _⟩

/-! ### Fields -/

theorem keeps_readField (id : ObjectId) (key : Value) :
    Keeps stack e (readField id key) Engine.Admits := by
  unfold readField
  refine keeps_get ?_
  split
  · refine (keeps_ofOutcome (R := Any) (Arguments.catchable_text key) fun _ _ => trivial).bind
      fun name e' _ _ => ?_
    split
    · exact keeps_readColumn _ name
    · exact keeps_pure (Engine.innate_admits e' _ rfl)
  next set ho =>
    split
    · split
      · split
        · exact keeps_rowAt ho _
        · exact keeps_pure (Engine.innate_admits e _ rfl)
      · exact keeps_pure (Engine.innate_admits e _ rfl)
    · exact keeps_pure (Engine.innate_admits e _ rfl)
  · exact keeps_throw rfl

theorem keeps_writeField (id : ObjectId) (key value : Value) :
    Keeps stack e (writeField id key value) Any := by
  unfold writeField
  refine keeps_get ?_
  split
  · refine (keeps_ofOutcome (R := Any) (Arguments.catchable_text key) fun _ _ => trivial).bind
      fun name e' _ _ => ?_
    split
    · exact keeps_writeColumn _ _ name value
    · exact keeps_throw rfl
  · exact keeps_throw rfl

theorem keeps_countRows (id : ObjectId) : Keeps stack e (countRows id) Any := by
  unfold countRows
  refine keeps_get ?_
  split
  · exact keeps_pure trivial
  · exact keeps_throw rfl

theorem keeps_objectText (id : ObjectId) : Keeps stack e (objectText id) Any := by
  unfold objectText
  refine keeps_get ?_
  split
  next t _ =>
    cases e.tuple? t with
    | none => exact keeps_throw rfl
    | some tuple => exact keeps_tupleText tuple
  · exact keeps_pure trivial
  · exact keeps_pure trivial
  · exact keeps_pure trivial
  · exact keeps_throw rfl

end Serving

end StoredRoutine
