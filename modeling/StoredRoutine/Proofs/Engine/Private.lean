import StoredRoutine.Engine.SetCall
import StoredRoutine.Proofs.Engine.Routines
import StoredRoutine.Proofs.Marshal.Transparent

/-!
# `StoredRoutine.Proofs.Engine.Private`: what a call does that no other call notices

A call from the host converts its arguments and its result. The values that come of it are new
tables, tuples and objects, and descriptors are kept on the way. `Engine.Private` says that an
engine differs from another one in nothing but such things, and `Serving.Private` that this is so
after a computation.

Engines that `Engine.Agrees` relates have what conversions look at in common. A computation that is
`Serving.Plain` answers the same in all of them. The arguments of a call are no plain computation:
the identifiers of new tables depend on how many there are. But whether they can be converted, and
what goes wrong otherwise, is the same in all engines that agree (`Engine.Agrees.arguments`).
-/

set_option autoImplicit false

namespace StoredRoutine

open Resolving (Transparent)
open Script (ObjectKind Table Value)

/-! ### Engines -/

namespace Engine

variable {e e' e'' : Engine}

/-- What conversions look at is the same, and a descriptor that is kept in one of the engines only
is the one that the catalog answers. -/
structure Agrees (e e' : Engine) : Prop where
  host : e'.host = e.host
  options : e'.options = e.options
  types : e.types.Alike e.host.catalog e'.types

theorem Agrees.refl (e : Engine) : e.Agrees e := ⟨rfl, rfl, .refl _ _⟩

theorem Agrees.trans (h : e.Agrees e') (h' : e'.Agrees e'') : e.Agrees e'' where
  host := h'.host.trans h.host
  options := h'.options.trans h.options
  types := by
    have htypes := h'.types
    rw [h.host] at htypes
    exact h.types.trans htypes

theorem Agrees.symm (h : e.Agrees e') : e'.Agrees e where
  host := h.host.symm
  options := h.options.symm
  types := by
    rw [h.host]
    exact h.types.symm

theorem Agrees.border (h : e.Agrees e') : e'.border = e.border := by
  unfold Engine.border
  rw [h.host, h.options]

/-- Nothing has changed that another call could notice. -/
structure Private (e e' : Engine) : Prop extends Agrees e e' where
  poisoned : e'.poisoned = e.poisoned
  routines : e'.routines = e.routines
  executions : e'.executions = e.executions
  started : e'.started = e.started
  threads : e'.heap.threads = e.heap.threads

theorem Private.refl (e : Engine) : e.Private e := ⟨.refl e, rfl, rfl, rfl, rfl, rfl⟩

theorem Private.trans (h : e.Private e') (h' : e'.Private e'') : e.Private e'' where
  toAgrees := h.toAgrees.trans h'.toAgrees
  poisoned := h'.poisoned.trans h.poisoned
  routines := h'.routines.trans h.routines
  executions := h'.executions.trans h.executions
  started := h'.started.trans h.started
  threads := h'.threads.trans h.threads

/-- Whatever else has changed. -/
theorem Private.ofSame (hhost : e'.host = e.host) (hoptions : e'.options = e.options)
    (htypes : e'.types = e.types) (hpoisoned : e'.poisoned = e.poisoned)
    (hroutines : e'.routines = e.routines) (hexecutions : e'.executions = e.executions)
    (hstarted : e'.started = e.started) (hthreads : e'.heap.threads = e.heap.threads) :
    e.Private e' :=
  ⟨⟨hhost, hoptions, htypes ▸ .refl _ _⟩, hpoisoned, hroutines, hexecutions, hstarted, hthreads⟩

/-- Only descriptors are kept. -/
theorem Private.ofTypes {types : TypeCache} (h : e.types.Alike e.host.catalog types) :
    e.Private { e with types } :=
  ⟨⟨rfl, rfl, h⟩, rfl, rfl, rfl, rfl, rfl⟩

end Engine

/-! ### Computations -/

namespace Serving

variable {α β : Type}

/-- A computation is noticed by no other call. -/
class Private (x : Serving α) : Prop where
  change : ∀ e : Engine, e.Private (x e).2

/-- A computation answers the same wherever conversions would, and is noticed by no other call. -/
class Plain (x : Serving α) : Prop extends Private x where
  same : ∀ e e' : Engine, e.Agrees e' → (x e').1 = (x e).1

instance (a : α) : Plain (pure a : Serving α) where
  change := .refl
  same _ _ _ := rfl

instance (f : Failure) : Plain (throw f : Serving α) where
  change := .refl
  same _ _ _ := rfl

instance (o : Outcome α) : Plain (ofOutcome o) where
  change e := by cases o <;> exact .refl e
  same _ _ _ := by cases o <;> rfl

instance (f : Border → Resolving α) [hf : ∀ b : Border, Transparent b.catalog (f b)] :
    Plain (converting f) where
  change e := .ofTypes ((hf e.border).kept e.types)
  same e e' h := by
    show (f e'.border e'.types).1 = (f e.border e.types).1
    rw [h.border]
    exact ((hf e.border).same _ _ h.types).symm

instance private_bind {x : Serving α} {k : α → Serving β} [hx : Private x]
    [hk : ∀ a, Private (k a)] : Private (x >>= k) where
  change e := by
    have hchange := hx.change e
    rw [run_bind]
    generalize x e = done at hchange ⊢
    obtain ⟨f | a, e₁⟩ := done
    · exact hchange
    · exact hchange.trans ((hk a).change e₁)

instance plain_bind {x : Serving α} {k : α → Serving β} [hx : Plain x] [hk : ∀ a, Plain (k a)] :
    Plain (x >>= k) where
  same e e' h := by
    have hsame := hx.same e e' h
    -- the engines between the two parts agree, too
    have hmid := (hx.change e).toAgrees.symm.trans (h.trans (hx.change e').toAgrees)
    rw [run_bind, run_bind]
    generalize x e = done at hsame hmid ⊢
    generalize x e' = done' at hsame hmid ⊢
    obtain ⟨r, e₁⟩ := done
    obtain ⟨r', e₁'⟩ := done'
    obtain rfl : r' = r := hsame
    cases r' with
    | error f => rfl
    | ok a => exact (hk a).same e₁ e₁' hmid

instance {c : Prop} [Decidable c] {x y : Serving α} [hx : Plain x] [hy : Plain y] :
    Plain (if c then x else y) := by
  split
  · exact hx
  · exact hy

instance {f : α → Serving PUnit} (l : List α) [hf : ∀ a, Plain (f a)] : Plain (l.forM f) := by
  induction l with
  | nil => exact inferInstanceAs (Plain (pure PUnit.unit))
  | cons a rest ih => exact inferInstanceAs (Plain (f a >>= fun _ => rest.forM f))

instance {f : α → Serving β} (l : List α) [hf : ∀ a, Private (f a)] : Private (l.mapM f) := by
  induction l with
  | nil => exact inferInstanceAs (Private (pure []))
  | cons a rest ih =>
    rw [List.mapM_cons]
    infer_instance

theorem private_modifyGet {f : Engine → α × Engine} (hf : ∀ e : Engine, e.Private (f e).2) :
    Private (modifyGet f : Serving α) := ⟨hf⟩

instance (d : RoutineDefinition) : Plain (checkDefinition d) := by
  unfold checkDefinition
  infer_instance

/-! ### Values of scripts -/

instance (layout : RowLayout) : Private (allocate layout) :=
  private_modifyGet fun _ => .ofSame rfl rfl rfl rfl rfl rfl rfl rfl

instance (row : RowValue) (state : TupleState) : Private (newTuple row state) := by
  have hpushed (handle : HandleId) : Private (modifyGet fun e : Engine =>
      ((⟨e.tuples.size⟩ : TupleId),
        { e with tuples := e.tuples.push { handle, values := row.values, state } })) :=
    private_modifyGet fun _ => .ofSame rfl rfl rfl rfl rfl rfl rfl rfl
  unfold newTuple
  infer_instance

instance (kind : ObjectKind) (o : Object) : Private (newObject kind o) := by
  have hadded : Private (modifyGet fun e : Engine => e.addObject o) :=
    private_modifyGet fun _ => .ofSame rfl rfl rfl rfl rfl rfl rfl rfl
  unfold newObject
  infer_instance

instance (id : TupleId) : Private (showTuple id) := inferInstanceAs (Private (newObject _ _))

instance (name : String) (wrap : Cursor → Object) : Private (attachCursor name wrap) :=
  private_modifyGet fun _ => .ofSame rfl rfl rfl rfl rfl rfl rfl rfl

instance (name : String) : Private (newCursor name) := by
  unfold newCursor
  infer_instance

/-- A new table. -/
theorem private_newTable (table : Table) : Private (modifyGet fun e : Engine =>
    (Value.table (e.heap.newTable table).1, { e with heap := (e.heap.newTable table).2 })) :=
  private_modifyGet fun _ => .ofSame rfl rfl rfl rfl rfl rfl rfl rfl

mutual

instance private_toValue (v : ScriptValue) : Private (toValue v) := by
  match v with
  | .nil | .bool _ | .int _ | .number _ | .string _ => unfold toValue; infer_instance
  | .table entries =>
    have hentries := private_toTable entries
    unfold toValue
    exact @private_bind _ _ _ _ (hentries _) private_newTable
  | .tuple none => unfold toValue; infer_instance
  | .tuple (some row) => unfold toValue; infer_instance
  | .cursor name => unfold toValue; infer_instance

instance private_toTable (entries : List (ScriptKey × ScriptValue)) (t : Table) :
    Private (toTable entries t) := by
  match entries with
  | [] => unfold toTable; infer_instance
  | (key, v) :: rest =>
    have hvalue := private_toValue v
    have hrest := private_toTable rest
    unfold toTable
    infer_instance

end

/-- A value of the database becomes one of the script. -/
instance (d : Option Datum) (id : TypeId) : Private (ofDatum d id) := by
  unfold ofDatum
  infer_instance

instance (r : CompiledRoutine) (args : Row) : Private (arguments r args) := by
  unfold arguments
  dsimp only
  split <;> infer_instance

/-- A computation does not fail. -/
def Succeeds (x : Serving α) : Prop := ∀ e, ∃ a e', x e = (.ok a, e')

theorem Succeeds.bind {x : Serving α} {k : α → Serving β} (hx : Succeeds x)
    (hk : ∀ a, Succeeds (k a)) : Succeeds (x >>= k) := by
  intro e
  obtain ⟨a, e₁, hx⟩ := hx e
  rw [run_bind, hx]
  exact hk a e₁

theorem succeeds_pure (a : α) : Succeeds (pure a) := fun e => ⟨a, e, rfl⟩

theorem succeeds_modifyGet (f : Engine → α × Engine) : Succeeds (modifyGet f) :=
  fun e => ⟨(f e).1, (f e).2, rfl⟩

mutual

/-- To make a value of a script always goes well. -/
theorem succeeds_toValue (v : ScriptValue) : Succeeds (toValue v) := by
  match v with
  | .nil | .bool _ | .int _ | .number _ | .string _ => unfold toValue; exact succeeds_pure _
  | .table entries =>
    unfold toValue
    exact (succeeds_toTable entries _).bind fun table => succeeds_modifyGet _
  | .tuple none => unfold toValue; exact succeeds_pure _
  | .tuple (some row) =>
    unfold toValue
    refine Succeeds.bind ?_ fun id => (succeeds_modifyGet _).bind fun _ => succeeds_pure _
    exact (succeeds_modifyGet _).bind fun handle => succeeds_modifyGet _
  | .cursor name =>
    unfold toValue
    exact (succeeds_modifyGet _).bind fun _ => succeeds_pure _

theorem succeeds_toTable (entries : List (ScriptKey × ScriptValue)) (t : Table) :
    Succeeds (toTable entries t) := by
  match entries with
  | [] => unfold toTable; exact succeeds_pure _
  | (key, v) :: rest =>
    unfold toTable
    exact (succeeds_toValue v).bind fun _ => succeeds_toTable rest _

end

end Serving

namespace Engine

variable {α β : Type} {e e' : Engine}

/-- Two outcomes are the same, but for the values. -/
def SameEnd (o o' : Outcome α) : Prop := (o.map fun _ => ()) = o'.map fun _ => ()

/-- Two computations in two parts each, of which the second ones are compared only if the first ones
went well. -/
theorem SameEnd.bind {x y : Serving α} {k l : α → Serving β} (hx : SameEnd (x e).1 (y e').1)
    (hk : ∀ a a' e₁ e₁', x e = (.ok a, e₁) → y e' = (.ok a', e₁') →
      SameEnd (k a e₁).1 (l a' e₁').1) : SameEnd ((x >>= k) e).1 ((y >>= l) e').1 := by
  rw [run_bind, run_bind]
  generalize x e = done at hx hk ⊢
  generalize y e' = done' at hx hk ⊢
  obtain ⟨r, e₁⟩ := done
  obtain ⟨r', e₁'⟩ := done'
  cases r with
  | error f =>
    cases r' with
    | error f' =>
      obtain rfl : f = f' := Except.error.inj hx
      rfl
    | ok a' => cases hx
  | ok a =>
    cases r' with
    | error f' => cases hx
    | ok a' => exact hk a a' e₁ e₁' rfl rfl

/-- Whether a datum can be converted does not depend on what other calls have done. -/
theorem Agrees.ofDatum (h : e.Agrees e') (d : Option Datum) (id : TypeId) :
    SameEnd (Serving.ofDatum d id e).1 (Serving.ofDatum d id e').1 := by
  have hsame := (inferInstance : Serving.Plain
    (Serving.converting fun b => Marshal.optionToScript b d id)).same e e' h
  refine SameEnd.bind (congrArg _ hsame.symm) fun v v' e₁ e₁' _ _ => ?_
  obtain ⟨a, e₂, hvalue⟩ := Serving.succeeds_toValue v e₁
  obtain ⟨a', e₂', hvalue'⟩ := Serving.succeeds_toValue v' e₁'
  rw [hvalue, hvalue']
  rfl

/-- The members of a list, one after the other. -/
theorem Agrees.mapM {f : α → Serving β} [hprivate : ∀ a, Serving.Private (f a)]
    (hf : ∀ (a : α) {e e' : Engine}, e.Agrees e' → SameEnd (f a e).1 (f a e').1) (l : List α)
    (h : e.Agrees e') : SameEnd (l.mapM f e).1 (l.mapM f e').1 := by
  induction l generalizing e e' with
  | nil => rfl
  | cons a rest ih =>
    rw [List.mapM_cons]
    refine SameEnd.bind (hf a h) fun b b' e₁ e₁' hb hb' => ?_
    -- the engines between two members agree
    have hmid := ((hprivate a).change e).toAgrees.symm.trans
      (h.trans ((hprivate a).change e').toAgrees)
    rw [hb, hb'] at hmid
    exact SameEnd.bind (ih hmid) fun bs bs' e₂ e₂' _ _ => rfl

/-- Whether the arguments of a call can be converted. -/
theorem Agrees.arguments (h : e.Agrees e') (r : CompiledRoutine) (args : Row) :
    SameEnd (Serving.arguments r args e).1 (Serving.arguments r args e').1 := by
  unfold Serving.arguments
  dsimp only
  split
  · rfl
  · exact h.mapM (fun a {_ _} h => h.ofDatum a.1 a.2) _

end Engine

end StoredRoutine
