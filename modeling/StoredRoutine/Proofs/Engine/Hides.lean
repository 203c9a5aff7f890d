import StoredRoutine.Proofs.Engine.Aside
import StoredRoutine.Proofs.Engine.Start

/-!
# `StoredRoutine.Proofs.Engine.Hides`: no script gets hold of the guard of the globals

The globals of trusted scripts have a guard. `Engine.Hides guard e` says that no value in the engine
is the guard, and with it that the guard is still in its place (`Script.Heap.Conforms`). A service
keeps this if the functions that it calls do, for the values that it answers are those that it was
given, new tables, or no tables at all. Most computations leave scripts aside altogether
(`Serving.Aside`), so what is left here are those that touch the heap or hand values on.

A run keeps this by induction on the number of its turns (`Engine.run_hides`).
-/

set_option autoImplicit false

namespace StoredRoutine

open Script (AllOf Control Ending Heap Innate ObjectId Service TableId Value)

variable {guard : Option TableId}

/-- The value is not the guard of the globals, if there is one. -/
def Script.Value.Shown (guard : Option TableId) (v : Value) : Prop :=
  ∀ id, guard = some id → v ≠ .table id

theorem shown_of_ne {v : Value} (hv : ∀ id, v ≠ .table id) : v.Shown guard := fun id _ => hv id

theorem innate_shown (guard : Option TableId) : Innate (Value.Shown guard) := by
  rintro v hv id - rfl
  cases hv

theorem shown_failure (f : Failure) : (Value.failure f).Shown guard := shown_of_ne fun _ => nofun

namespace Engine

/-- The globals have the guard if scripts are trusted, and no value is the guard. -/
structure Hides (guard : Option TableId) (e : Engine) : Prop where
  trusted : e.options.trusted = guard.isSome
  heap : e.heap.Conforms (Value.Shown guard)
  functions : AllOf (Value.Shown guard) e.functions
  relations : ∀ r ∈ e.relations, (Value.table r.2).Shown guard
  reports : (Value.table e.reports).Shown guard

variable {e e' : Engine}

theorem Hides.ofSame (he : e.Hides guard) (h : e.SameScripts e') : e'.Hides guard where
  trusted := h.options ▸ he.trusted
  heap := h.heap ▸ he.heap
  functions := by
    unfold Engine.functions
    rw [h.routines, h.setBody]
    exact he.functions
  relations := h.relations ▸ he.relations
  reports := h.reports ▸ he.reports

theorem Hides.withHeap (he : e.Hides guard) {heap : Heap} (hh : heap.Conforms (Value.Shown guard)) :
    ({ e with heap } : Engine).Hides guard :=
  ⟨he.trusted, hh, he.functions, he.relations, he.reports⟩

end Engine

/-- A caller does not come by the guard, whatever function it runs. -/
def Caller.Hides (guard : Option TableId) (call : Caller) : Prop :=
  ∀ (e : Engine) (f : Value) (args : List Value), e.Hides guard → f.Shown guard →
    AllOf (Value.Shown guard) args →
    (call f args e).2.Hides guard ∧ (call f args e).1.Holds (Value.Shown guard)

namespace Serving

variable {α β : Type} {e : Engine} {call : Caller} {f : Value} {args : List Value} {R : α → Prop}
  {S : β → Prop}

/-- The guard stays hidden, and the answer has a property. -/
def Hides (guard : Option TableId) (e : Engine) (x : Serving α) (R : α → Prop) : Prop :=
  e.Hides guard → (x e).2.Hides guard ∧ ∀ a, (x e).1 = .ok a → R a

/-! ### Parts of computations -/

theorem hides_pure {a : α} (ha : R a) : Hides guard e (pure a) R := by
  intro he
  refine ⟨he, fun b hb => ?_⟩
  cases hb
  exact ha

theorem hides_throw (f : Failure) : Hides guard e (throw f) R := fun he => ⟨he, nofun⟩

theorem hides_throw_bind (f : Failure) (k : α → Serving β) : Hides guard e (throw f >>= k) S :=
  fun he => ⟨he, nofun⟩

/-- Nothing is said of what a computation answers that leaves scripts aside. -/
theorem hides_aside {x : Serving α} [hx : Aside x] : Hides guard e x fun _ => True :=
  fun he => ⟨he.ofSame (hx.same e), fun _ _ => trivial⟩

theorem hides_tableless {x : Serving Value} [hx : Aside x] [hv : Tableless x] :
    Hides guard e x (Value.Shown guard) :=
  fun he => ⟨he.ofSame (hx.same e), fun v hanswer => shown_of_ne (hv.answer e v hanswer)⟩

theorem Hides.bind {x : Serving α} {k : α → Serving β} (hx : Hides guard e x R)
    (hk : ∀ a e', R a → Hides guard e' (k a) S) : Hides guard e (x >>= k) S := by
  intro he
  have hdone := hx he
  rw [run_bind]
  generalize x e = done at hdone ⊢
  obtain ⟨r, e'⟩ := done
  cases r with
  | error f => exact ⟨hdone.1, nofun⟩
  | ok a => exact hk a e' (hdone.2 a rfl) hdone.1

theorem Hides.any {x : Serving α} (hx : Hides guard e x R) : Hides guard e x fun _ => True :=
  fun he => ⟨(hx he).1, fun _ _ => trivial⟩

/-- First a part that leaves scripts aside. -/
theorem hides_bind {x : Serving α} [Aside x] {k : α → Serving β}
    (hk : ∀ a e', Hides guard e' (k a) S) : Hides guard e (x >>= k) S :=
  hides_aside.bind fun a e' _ => hk a e'

/-- A computation that starts by looking at the engine. -/
theorem hides_get {k : Engine → Serving β} (hk : Hides guard e (k e) S) :
    Hides guard e (get >>= k) S := hk

/-- What is known of the engine may be used to show that it stays so. -/
theorem hides_ofHides {x : Serving α} (hx : e.Hides guard → Hides guard e x R) :
    Hides guard e x R := fun he => hx he he

theorem hides_modify {f : Engine → Engine} (hf : e.Hides guard → (f e).Hides guard) :
    Hides guard e (modify f) fun _ => True := fun he => ⟨hf he, fun _ _ => trivial⟩

theorem hides_modifyGet {f : Engine → α × Engine}
    (hf : e.Hides guard → (f e).2.Hides guard ∧ R (f e).1) : Hides guard e (modifyGet f) R := by
  intro he
  refine ⟨(hf he).1, fun a ha => ?_⟩
  cases ha
  exact (hf he).2

theorem Hides.attempt {x : Serving α} (hx : Hides guard e x R) :
    Hides guard e (attempt x) fun o => ∀ a, o = .ok a → R a := by
  intro he
  refine ⟨(hx he).1, fun o ho => ?_⟩
  cases ho
  exact (hx he).2

theorem hides_mapM {f : α → Serving β} {l : List α} (hf : ∀ a ∈ l, ∀ e, Hides guard e (f a) S) :
    Hides guard e (l.mapM f) fun bs => ∀ b ∈ bs, S b := by
  induction l generalizing e with
  | nil => exact hides_pure fun b hb => absurd hb List.not_mem_nil
  | cons a rest ih =>
    rw [List.mapM_cons]
    refine (hf a List.mem_cons_self e).bind fun b e₁ hb => ?_
    refine (ih fun a ha => hf a (List.mem_cons_of_mem _ ha)).bind fun bs e₂ hbs => hides_pure ?_
    exact List.forall_mem_cons.mpr ⟨hb, hbs⟩

theorem hides_forM {f : α → Serving Unit} {l : List α}
    (hf : ∀ a e, Hides guard e (f a) fun _ => True) :
    Hides guard e (l.forM f) fun _ => True := by
  induction l generalizing e with
  | nil => exact hides_pure trivial
  | cons a rest ih => exact (hf a e).bind fun _ _ _ => ih

/-! ### Values -/

mutual

theorem hides_toValue (e : Engine) (v : ScriptValue) :
    Hides guard e (toValue v) (Value.Shown guard) := by
  match v with
  | .nil | .bool _ | .int _ | .number _ | .string _ =>
    unfold toValue
    exact hides_pure (innate_shown guard _ rfl)
  | .table entries =>
    unfold toValue
    refine (hides_toTable e entries (Script.Table.holds_withRoom _ _) rfl).bind fun t e' ht => ?_
    exact hides_modifyGet fun he => ⟨he.withHeap (he.heap.newTable ht.1 ht.2), he.heap.fresh⟩
  | .tuple none =>
    unfold toValue
    exact hides_pure (innate_shown guard _ rfl)
  | .tuple (some row) =>
    unfold toValue
    exact hides_tableless
  | .cursor name =>
    unfold toValue
    exact hides_tableless

theorem hides_toTable (e : Engine) (entries : List (ScriptKey × ScriptValue)) {t : Script.Table}
    (ht : t.Holds (Value.Shown guard)) (hmeta : t.metatable = none) :
    Hides guard e (toTable entries t) fun t =>
      t.Holds (Value.Shown guard) ∧ t.metatable = none := by
  match entries with
  | [] =>
    unfold toTable
    exact hides_pure ⟨ht, hmeta⟩
  | (key, v) :: rest =>
    unfold toTable
    refine (hides_toValue e v).bind fun value e' hvalue => ?_
    refine hides_toTable e' rest (ht.set (innate_shown guard) ?_ hvalue) ?_
    · -- keys are strings and numbers
      cases key <;> exact innate_shown guard _ rfl
    · rw [Script.Table.metatable_set, hmeta]

end

theorem hides_ofDatum (d : Option Datum) (id : TypeId) :
    Hides guard e (ofDatum d id) (Value.Shown guard) :=
  hides_bind fun v e' => hides_toValue e' v

theorem hides_readColumn (t : Tuple) (name : String) :
    Hides guard e (readColumn t name) (Value.Shown guard) := by
  unfold readColumn
  refine hides_get ?_
  split
  · exact hides_tableless
  · split
    · exact hides_tableless
    · exact hides_ofDatum _ _

theorem hides_readField (id : ObjectId) (key : Value) :
    Hides guard e (readField id key) (Value.Shown guard) := by
  unfold readField
  refine hides_get ?_
  split
  · refine hides_bind fun name e' => ?_
    split
    · exact hides_readColumn _ name
    · exact hides_tableless
  · split
    · split
      · exact hides_tableless
      · exact hides_tableless
    · exact hides_tableless
  · exact hides_tableless

theorem hides_newPlan (sql : String) (types : Option TableId) :
    Hides guard e (newPlan sql types) (Value.Shown guard) := by
  cases types with
  | none => exact hides_tableless (x := newObject .plan _)
  | some types =>
    have htypes : Hides guard e (paramTypes types) fun _ => True := by
      refine Hides.bind (R := fun _ => True) (hides_modifyGet fun he =>
        ⟨he.withHeap (he.heap.length types), trivial⟩) fun length e₁ _ => ?_
      refine hides_get (Hides.any (hides_mapM (S := fun _ => True) fun i _ e₂ => ?_))
      refine hides_bind fun name e₃ => ?_
      split
      · exact hides_aside
      · exact hides_aside
    exact htypes.bind fun _ _ _ => hides_tableless

/-- A report is a new table, and its metatable is that of all reports. -/
theorem hides_reportTable (r : Report) : Hides guard e (reportTable r) (Value.Shown guard) := by
  have hfields : ∀ f ∈ Engine.reportFields r, f.2.Shown guard := by
    intro f hf
    obtain ⟨text, heq⟩ := text_of_reportFields hf
    rw [heq]
    exact innate_shown guard _ rfl
  refine hides_modifyGet fun he => ?_
  obtain ⟨hheap, hid⟩ := he.heap.tableOf (innate_shown guard) hfields
  refine ⟨he.withHeap (hheap.setMetatable ?_ fun m hm => ?_), hid⟩
  · -- the new table has no metatable yet
    have hnone : ((e.heap.tableOf (Engine.reportFields r)).2.table
        (e.heap.tableOf (Engine.reportFields r)).1).metatable = none := by
      unfold Heap.tableOf
      rw [Heap.table_newTable, if_pos rfl, Heap.Conforms.metatable_foldl_setKey]
    rw [Heap.handler_of_metatable_eq_none hnone]
    rfl
  · cases hm
    exact he.reports

/-! ### Calls of functions -/

/-- What a function returns or raises is not the guard. -/
def HiddenFrom (guard : Option TableId) : Except Value (List Value) → Prop
  | .ok results => AllOf (Value.Shown guard) results
  | .error raised => raised.Shown guard

theorem hides_runFunction (hcall : call.Hides guard) (hf : f.Shown guard)
    (hargs : AllOf (Value.Shown guard) args) :
    Hides guard e (runFunction call f args) (HiddenFrom guard) := by
  intro he
  obtain ⟨he', hending⟩ := hcall e f args he hf hargs
  unfold runFunction
  generalize call f args e = done at he' hending ⊢
  obtain ⟨ending, e'⟩ := done
  refine ⟨?_, fun returned hreturned => ?_⟩
  · cases ending <;> exact he'
  · cases ending <;> cases hreturned <;> exact hending

theorem hides_raisedFailure (hcall : call.Hides guard) (left : Nat) {raised : Value}
    (hr : raised.Shown guard) :
    Hides guard e (raisedFailure call left raised) fun _ => True := by
  -- `tostring` is asked for the text of what was raised, and may raise something itself
  induction left generalizing e raised with
  | zero =>
    unfold raisedFailure
    split
    · exact hides_aside
    · exact hides_aside
    next heq _ => cases heq
  | succ left ih =>
    unfold raisedFailure
    split
    · exact hides_aside
    next heq _ => cases heq
    next heq _ =>
      cases heq
      have htext : (Value.builtin .toText).Shown guard := innate_shown guard _ rfl
      refine (hides_runFunction hcall htext (AllOf.single hr)).bind
        fun returned e' hreturned => ?_
      cases returned with
      | ok results => exact hides_aside
      | error other => exact ih hreturned

theorem hides_runUnprotected (hcall : call.Hides guard) (hf : f.Shown guard)
    (hargs : AllOf (Value.Shown guard) args) :
    Hides guard e (runUnprotected call f args) (AllOf (Value.Shown guard)) := by
  refine (hides_runFunction hcall hf hargs).bind fun returned e₁ hreturned => ?_
  cases returned with
  | ok results => exact hides_pure hreturned
  | error raised =>
    -- what was raised becomes a failure, which holds no value
    exact (hides_raisedFailure hcall maxRaised hreturned).bind fun failure _ _ => hides_throw _

theorem hides_runProtected (hcall : call.Hides guard) (hf : f.Shown guard)
    (hargs : AllOf (Value.Shown guard) args) :
    Hides guard e (runProtected call f args) (HiddenFrom guard) := by
  have hpcall : (Value.builtin .pcall).Shown guard := innate_shown guard _ rfl
  have hall : AllOf (Value.Shown guard) (f :: args) := AllOf.cons hf hargs
  refine (hides_runUnprotected hcall hpcall hall).attempt.bind fun outcome e₁ houtcome => ?_
  cases outcome with
  | error failure => exact hides_pure (shown_failure failure)
  | ok results =>
    have htail : AllOf (Value.Shown guard) results.tail := fun v hv =>
      houtcome results rfl v (List.mem_of_mem_tail hv)
    dsimp only
    split
    · exact hides_pure htail
    · exact hides_pure (R := HiddenFrom guard) (AllOf.headD (innate_shown guard) htail)

/-! ### Protected calls -/

theorem hides_caught {raised : Value} (hr : raised.Shown guard) :
    Hides guard e (caught raised) (Value.Shown guard) := by
  cases raised with
  | failure g => exact hides_reportTable g.report
  | _ => exact hides_pure hr

theorem hides_keepWork (frame : FrameId) (savepoint : Nat) {results : List Value}
    (hresults : AllOf (Value.Shown guard) results) :
    Hides guard e (keepWork frame savepoint results) (AllOf (Value.Shown guard)) :=
  hides_bind fun _ _ => hides_bind fun _ _ => hides_bind fun _ _ =>
    hides_pure (AllOf.cons (innate_shown guard _ rfl) hresults)

theorem hides_undoWork (frame : FrameId) (savepoint : Nat) {raised : Value}
    (hr : raised.Shown guard) :
    Hides guard e (undoWork frame savepoint raised) (AllOf (Value.Shown guard)) := by
  unfold undoWork
  refine hides_get ?_
  dsimp only
  split
  · exact hides_bind fun _ _ => hides_throw _
  · refine hides_bind fun rolled e₁ => ?_
    cases rolled with
    | error f =>
      -- the engine is poisoned
      refine Hides.bind (R := fun _ => True) (hides_modify fun he => ?_)
        fun _ e₂ _ => hides_bind fun _ _ => hides_throw _
      exact ⟨he.trusted, he.heap, he.functions, he.relations, he.reports⟩
    | ok _ =>
      refine hides_bind fun _ e₂ => (hides_caught hr).bind fun v e₃ hv => hides_pure ?_
      exact AllOf.cons (innate_shown guard _ rfl) (AllOf.single hv)

theorem hides_protectedCall (hcall : call.Hides guard) (hargs : AllOf (Value.Shown guard) args) :
    Hides guard e (protectedCall call args) (AllOf (Value.Shown guard)) := by
  unfold protectedCall
  split
  · exact hides_throw _
  next f rest =>
    obtain ⟨hf, hrest⟩ := List.forall_mem_cons.mp hargs
    split
    · exact hides_throw_bind _ _
    · refine hides_get ?_
      split
      · exact hides_throw_bind _ _
      · refine hides_bind fun frame e₁ => hides_bind fun begun e₂ => ?_
        cases begun with
        | error f => exact hides_bind fun _ _ => hides_throw _
        | ok savepoint =>
          refine (hides_runProtected hcall hf hrest).bind fun returned e₃ hreturned => ?_
          cases returned with
          | ok results => exact hides_keepWork frame savepoint hreturned
          | error raised => exact hides_undoWork frame savepoint hreturned

/-! ### Services -/

theorem hides_announce (hcall : call.Hides guard) (a : Script.Announcer)
    (hargs : AllOf (Value.Shown guard) args) :
    Hides guard e (announce call a args) fun _ => True := by
  refine hides_ofHides fun he => ?_
  have htext := he.heap.global (innate_shown guard) "tostring"
  unfold announce
  refine hides_get ?_
  dsimp only
  split
  · exact hides_throw_bind _ _
  · refine Hides.bind (hides_mapM (S := fun _ => True) fun v hv e₁ => ?_) fun parts e₂ _ =>
      hides_modify fun he₂ => ?_
    · have harg := AllOf.single (hargs v hv)
      refine (hides_runUnprotected hcall htext harg).bind fun results e₃ _ => ?_
      exact hides_aside
    · exact ⟨he₂.trusted, he₂.heap, he₂.functions, he₂.relations, he₂.reports⟩

/-- A service that answers one value. -/
theorem Hides.single {x : Serving Value} (hx : Hides guard e x (Value.Shown guard)) :
    Hides guard e (do return [← x]) (AllOf (Value.Shown guard)) :=
  hx.bind fun _ _ hv => hides_pure (AllOf.single hv)

/-- A service that answers nothing. -/
theorem Hides.silent {x : Serving Unit} (hx : Hides guard e x fun _ => True) :
    Hides guard e (do x; return ([] : List Value)) (AllOf (Value.Shown guard)) :=
  hx.bind fun _ _ _ => hides_pure AllOf.nil

theorem hides_servePlan (s : Service) (args : List Value) :
    Hides guard e (servePlan s args) (AllOf (Value.Shown guard)) := by
  unfold servePlan
  refine hides_bind fun (id, rest) e₁ => ?_
  cases s with
  | planExecute =>
    exact hides_bind fun _ _ => hides_bind fun _ _ => hides_bind fun _ _ => hides_bind fun _ _ =>
      hides_tableless.single
  | planCursor =>
    exact hides_bind fun _ _ => hides_bind fun _ _ => hides_bind fun _ _ => hides_bind fun _ _ =>
      hides_bind fun _ _ => hides_tableless.single
  | planRows =>
    exact hides_bind fun _ _ => hides_bind fun _ _ => hides_bind fun _ _ => hides_bind fun _ _ =>
      hides_tableless.single
  | planSave =>
    exact hides_bind fun _ _ =>
      hides_pure (AllOf.single (innate_shown guard _ rfl))
  | _ =>
    exact hides_bind fun _ _ =>
      hides_pure (AllOf.single (innate_shown guard _ rfl))

theorem hides_serveCursor (s : Service) (args : List Value) :
    Hides guard e (serveCursor s args) (AllOf (Value.Shown guard)) := by
  unfold serveCursor
  refine hides_bind fun (id, rest) e₁ => ?_
  cases s with
  | cursorFetch => exact hides_bind fun _ _ => hides_tableless.single
  | cursorMove => exact hides_bind fun _ _ => hides_aside.silent
  | cursorFetchAt => exact hides_bind fun _ _ => hides_tableless.single
  | cursorMoveTo => exact hides_bind fun _ _ => hides_aside.silent
  | _ => exact hides_aside.silent

/-- No service answers with the guard if the functions that it calls do not come by it. -/
theorem hides_serve (hcall : call.Hides guard) (s : Service)
    (hargs : AllOf (Value.Shown guard) args) :
    Hides guard e (serve call s args) (AllOf (Value.Shown guard)) := by
  unfold serve
  cases s with
  | announce a => exact (hides_announce hcall a hargs).silent
  | setShared =>
    refine hides_bind fun name e₁ => Hides.silent (hides_modify fun he => he.withHeap ?_)
    -- the guard is not among the values that a script can hold, so it cannot be the one to be
    -- stored
    exact he.heap.rawSet (innate_shown guard) he.heap.globals (innate_shown guard _ rfl)
      (AllOf.getD (innate_shown guard) hargs 1)
  | denyGlobal => exact hides_bind fun _ _ => hides_throw _
  | protectedCall _ => exact hides_protectedCall hcall hargs
  | execute => exact hides_bind fun _ _ => hides_bind fun _ _ => hides_tableless.single
  | openRows => exact hides_bind fun _ _ => hides_bind fun _ _ => hides_tableless.single
  | findCursor => exact hides_bind fun _ _ => hides_tableless.single
  | prepare => exact hides_bind fun _ _ => hides_bind fun _ _ => (hides_newPlan _ _).single
  | nextRow id => exact hides_tableless.single
  | readField =>
    dsimp only
    split
    · exact (hides_readField _ _).single
    · exact hides_throw _
  | writeField =>
    dsimp only
    split
    · exact hides_aside.silent
    · exact hides_throw _
  | countRows =>
    dsimp only
    split
    · exact hides_bind fun _ _ =>
        hides_pure (AllOf.single (innate_shown guard _ rfl))
    · exact hides_throw _
  | objectText =>
    dsimp only
    split
    · exact hides_bind fun _ _ =>
        hides_pure (AllOf.single (innate_shown guard _ rfl))
    · exact hides_throw _
  | planExecute | planCursor | planRows | planSave | planIsSaved => exact hides_servePlan _ args
  | cursorFetch | cursorMove | cursorFetchAt | cursorMoveTo | cursorClose =>
    exact hides_serveCursor _ args

end Serving

/-! ### Runs -/

namespace Engine

variable {e : Engine} {c : Control}

/-- The heap of a turn comes back to the engine, and the turn is counted. -/
theorem Hides.turn (he : e.Hides guard) {heap : Heap} (hh : heap.Conforms (Value.Shown guard))
    (left : Nat) : ({ e with heap }.countTurn left).Hides guard :=
  ⟨he.trusted, hh, he.functions, he.relations, he.reports⟩

/-- A run does not come by the guard. -/
theorem run_hides (fuel : Nat) (he : e.Hides guard) (hc : c.Holds (Value.Shown guard)) :
    (run fuel c e).2.Hides guard ∧ (run fuel c e).1.Holds (Value.Shown guard) := by
  induction fuel generalizing e c with
  | zero => exact ⟨he, shown_failure _⟩
  | succ fuel ih =>
    have hturn := Script.Machine.advance_holds (innate_shown guard) stepsAtOnce e.instructionsDue
      he.heap hc
    unfold run
    simp only
    generalize Script.Machine.advance stepsAtOnce e.instructionsDue e.heap c = turn at hturn ⊢
    obtain ⟨left, step⟩ := turn
    cases step with
    | next heap c' =>
      obtain ⟨hh, hc'⟩ := hturn
      have he₁ := he.turn hh left
      simp only
      split
      · exact ih ⟨he₁.trusted, he₁.heap, he₁.functions, he₁.relations, he₁.reports⟩
          (holds_look (shown_failure _) hc')
      · exact ih he₁ hc'
    | ended ending heap =>
      obtain ⟨hending, hh⟩ := hturn
      exact ⟨he.turn hh left, hending⟩
    | request s args position heap c' =>
      obtain ⟨-, hargs, hh, hc'⟩ := hturn
      have he₁ := he.turn hh left
      -- the functions that the service calls have fewer turns
      have hcall : Caller.Hides guard fun f args e =>
          run fuel (nestedControl c' position f args) e :=
        fun e f args he hf hargs =>
          ih he (holds_nestedControl (innate_shown guard) c' position hf hargs)
      have hserved := Serving.hides_serve hcall s hargs he₁
      simp only
      generalize Serving.serve _ s args _ = served at hserved ⊢
      obtain ⟨r, e₂⟩ := served
      obtain ⟨he₂, hanswer⟩ := hserved
      cases r with
      | ok values =>
        have hfocus : Script.Focus.Holds (Value.Shown guard) (.give values) := hanswer values rfl
        exact ih he₂ (hc'.withFocus hfocus)
      | error f =>
        have hfocus : Script.Focus.Holds (Value.Shown guard) (.raise (.failure f)) :=
          shown_failure f
        exact ih he₂ (hc'.withFocus hfocus)

theorem callFunction_hides : Caller.Hides guard callFunction := fun _ _ _ he hf hargs =>
  run_hides maxTurns he ⟨⟨fun _ hx => absurd hx List.not_mem_nil,
    fun _ hr => absurd hr List.not_mem_nil⟩, ⟨hf, hargs⟩⟩

end Engine

end StoredRoutine
