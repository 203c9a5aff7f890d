import StoredRoutine.Engine.Triggers
import StoredRoutine.Proofs.Engine.Calls

/-!
# `StoredRoutine.Proofs.Engine.Triggers`: triggers keep the invariant

A trigger publishes what it was fired for in a global table, and reads the row that its function
left there or returned. The table is taken away again whatever happened in between.
-/

set_option autoImplicit false

namespace StoredRoutine

open Script (AllOf Innate TableId Value)

namespace Serving

variable {e : Engine} {stack : List FrameId}

/-! ### The fields of tables that describe an event -/

section Fields

variable {Q : Value → Prop} (own : Innate Q)
include own

theorem positions_all (r : Relation) :
    ∀ f ∈ r.layout.attributes.zipIdx.map fun a => (a.1.name, Value.ofNat (a.2 + 1)), Q f.2 := by
  intro f hf
  obtain ⟨a, -, rfl⟩ := List.mem_map.mp hf
  exact own _ rfl

theorem relationFields_all (r : Relation) {attributes : TableId} (hid : Q (.table attributes)) :
    ∀ f ∈ [("name", Value.ofText r.name), ("oid", .ofNat r.id.toNat),
      ("attributes", .table attributes)], Q f.2 := by
  intro f hf
  simp only [List.mem_cons, List.not_mem_nil, or_false] at hf
  rcases hf with rfl | rfl | rfl
  · exact own _ rfl
  · exact own _ rfl
  · exact hid

theorem eventFields_all (t : TriggerEvent) {relation : Value} (hrelation : Q relation)
    {rowFields oldFields : List (String × Value)} (hrow : ∀ f ∈ rowFields, Q f.2)
    (hold : ∀ f ∈ oldFields, Q f.2) :
    ∀ f ∈ [("name", Value.ofText t.name), ("when", .ofText t.time.word),
      ("level", .ofText t.level.word), ("operation", .ofText t.operation.word),
      ("relation", relation)] ++ rowFields ++ oldFields, Q f.2 := by
  intro f hf
  rcases List.mem_append.mp hf with hf | hf
  · rcases List.mem_append.mp hf with hf | hf
    · simp only [List.mem_cons, List.not_mem_nil, or_false] at hf
      rcases hf with rfl | rfl | rfl | rfl | rfl
      · exact own _ rfl
      · exact own _ rfl
      · exact own _ rfl
      · exact own _ rfl
      · exact hrelation
    · exact hrow f hf
  · exact hold f hf

end Fields

/-! ### Events -/

theorem keeps_relationTable (r : Relation) : Keeps stack e (relationTable r) Engine.Admits := by
  unfold relationTable
  refine keeps_get ?_
  split
  · exact keeps_pure (Engine.admits_table e _)
  · refine keeps_modifyGet fun hs => ⟨?_, Engine.Follows.ofSame rfl rfl rfl rfl rfl,
      Engine.admits_table _ _⟩
    have own := Engine.innate_admits e
    have hattributes := hs.heap.tableOf own (positions_all own r)
    exact ⟨hs.arena, hs.shared,
      hattributes.tableOf own (relationFields_all own r (Engine.admits_table e _)), hs.functions,
      hs.host, hs.registered⟩

/-- The values of fields are admitted. -/
abbrev Fields (e : Engine) (fields : List (String × Value)) : Prop := ∀ f ∈ fields, e.Admits f.2

theorem keeps_rowField (name : String) (row : Option RowValue) (state : TupleState) :
    Keeps stack e (rowField name row state) fun e' made => Fields e' made.1 := by
  cases row with
  | none => exact keeps_pure fun f hf => absurd hf List.not_mem_nil
  | some row =>
    exact (keeps_newTuple row state).bind fun t _ _ _ => (keeps_showTuple t).bind
      fun v _ _ hv => keeps_pure (List.forall_mem_singleton.mpr hv)

theorem keeps_publishEvent (t : TriggerEvent) : Keeps stack e (publishEvent t) Any := by
  refine (keeps_relationTable t.relation).bind fun relation e₁ _ hrelation => ?_
  refine (keeps_rowField _ _ _).bind fun (rowFields, tuple) e₂ h₂ hrow => ?_
  refine (keeps_rowField _ _ _).bind fun (oldFields, _) e₃ h₃ hold => ?_
  have own := Engine.innate_admits e₃
  have hfields := eventFields_all own t (h₃.admits (h₂.admits hrelation))
    (fun f hf => h₃.admits (hrow f hf)) hold
  exact keeps_modifyGet fun hs => ⟨hs.withHeap ((hs.heap.tableOf own hfields).setGlobal own _
    (Engine.admits_table e₃ _)), Engine.Follows.ofSame rfl rfl rfl rfl rfl, trivial⟩

theorem keeps_toRow (v : Value) (layout : RowLayout) : Keeps stack e (toRow v layout) Any :=
  (keeps_ofValue v).bind fun v _ _ _ =>
    keeps_converting fun _ hcat => Marshal.catchable_toRow hcat v layout

theorem keeps_rowLeft (t : TriggerEvent) (table : Script.TableId) (start : Option TupleId) :
    Keeps stack e (rowLeft t table start) Any := by
  have hconvert (v : Value) (e : Engine) :
      Keeps stack e (do return some (← toRow v t.relation.layout)) Any :=
    (keeps_toRow v t.relation.layout).bind fun _ _ _ _ => keeps_pure trivial
  unfold rowLeft
  split
  · exact keeps_pure trivial
  · refine keeps_get ?_
    dsimp only
    split
    · exact keeps_pure trivial
    · exact hconvert _ e
    · split
      · split
        · exact keeps_pure trivial
        · exact hconvert _ e
      · exact keeps_throw rfl
    · exact keeps_throw rfl

theorem keeps_runTrigger (t : TriggerEvent) {r : CompiledRoutine} (hr : Callable e r) :
    Keeps stack e (runTrigger t r) Any := by
  refine (keeps_publishEvent t).bind fun (table, start) e₁ h₁ _ => ?_
  have hargs : AllOf e₁.Admits (t.args.map Value.ofText) := by
    intro v hv
    obtain ⟨text, -, rfl⟩ := List.mem_map.mp hv
    exact Engine.innate_admits e₁ _ rfl
  exact (keeps_runRaising (h₁.admits hr) hargs).bind fun _ _ _ _ => keeps_rowLeft t table start

theorem keeps_callTrigger (t : TriggerEvent) {r : CompiledRoutine} (hr : Callable e r) :
    Keeps stack e (callTrigger t r) Any := by
  refine (keeps_runTrigger t hr).attempt.bind fun result e₁ _ hresult => ?_
  refine Keeps.bind (R := Any) (keeps_modify fun hs => ?_) fun _ e₂ h₂ _ hs => ?_
  · have own := Engine.innate_admits e₁
    exact ⟨hs.withHeap (hs.heap.setGlobal own _ (own _ rfl)),
      Engine.Follows.ofSame rfl rfl rfl rfl rfl⟩
  · cases result with
    | ok row => exact ⟨hs, Engine.Follows.refl e₂, trivial⟩
    | error f => exact ⟨hs, Engine.Follows.refl e₂, h₂.admits hresult⟩

end Serving

namespace Engine

variable {e : Engine} {stack : List FrameId}

theorem fire_worked (hs : e.Sound stack) (id : TypeId) (t : TriggerEvent) :
    e.Worked stack e.Undisturbed
      (e.invoke .trigger id () fun r => plainWork (Serving.callTrigger t r)) :=
  invoke_worked .trigger id () hs ⟨rfl, rfl⟩ fun _ _ _ hs' hr hsame =>
    worked_plainWork (Serving.keeps_callTrigger t hr) hs' hsame

theorem fire_sound (hs : e.Sound stack) (id : TypeId) (t : TriggerEvent) :
    (e.fire id t).2.Sound stack := (fire_worked hs id t).sound

end Engine

end StoredRoutine
