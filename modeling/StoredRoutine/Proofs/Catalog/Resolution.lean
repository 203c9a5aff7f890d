import Mathlib.Data.List.Forall2
import StoredRoutine.Catalog.TypeCache

/-!
# `StoredRoutine.Proofs.Catalog.Resolution`: lookups without the cache

A cache is `Coherent` when every descriptor that it keeps is the one that the catalog gives. From
such a cache a computation `Yields` one outcome, whatever the cache holds, and leaves a coherent
cache behind. So what a computation yields can be said by functions of the catalog alone:

* `TypeCache.resolve` for one type (`yields_descriptor`);
* `Catalog.underlying` and `Catalog.resolveDomain` for a chain of domains (`yields_resolveDomain`).
-/

set_option autoImplicit false

namespace StoredRoutine

/-- Every descriptor that is kept is the one that the catalog gives. -/
def TypeCache.Coherent (catalog : Catalog.Lookup) (c : TypeCache) : Prop :=
  ∀ id d, c.find? id = some d → TypeCache.resolve catalog id = .ok d

/-- A cache that was never used is coherent. -/
theorem TypeCache.coherent_empty (catalog : Catalog.Lookup) : Coherent catalog {} := by
  intro id d h
  exact nomatch h

namespace Catalog

/-- A description has the identifier and the kind of its entry. -/
theorem Entry.describe_ok {e : Entry} {type : TypeDescriptor} (h : e.describe = .ok type) :
    type.id = e.id ∧ e.kind = .ok type.kind := by
  unfold describe at h
  cases hkind : e.kind with
  | error f =>
    rw [hkind] at h
    exact nomatch h
  | ok kind =>
    rw [hkind] at h
    obtain rfl := Except.ok.inj h
    exact ⟨rfl, rfl⟩

variable (catalog : Lookup)

/-- Follows domains from a descriptor, at most `hops` of them. -/
def underlying (start : TypeId) : Nat → TypeDescriptor → Int32 → Outcome (TypeDescriptor × Int32)
  | hops, d, typeMod =>
    match d.kind with
    | .domain base baseMod =>
      match hops with
      | 0 => .error (.conversion s!"domain chain too deep for type {start}")
      | hops + 1 =>
        match TypeCache.resolve catalog base with
        | .error f => .error f
        | .ok next => underlying start hops next (if baseMod = -1 then typeMod else baseMod)
    | _ => .ok (d, typeMod)

/-- The type a domain stands for in the end, and the modifier in force there. -/
def resolveDomain (id : TypeId) (typeMod : Int32) : Outcome (TypeDescriptor × Int32) :=
  match TypeCache.resolve catalog id with
  | .error f => .error f
  | .ok d => underlying catalog id Resolving.maxDomainHops d typeMod

end Catalog

/-- The two parts of a computation run one after the other; a failure of the first one ends it. -/
theorem run_bind {ε σ α β : Type} (x : ExceptT ε (StateM σ) α) (k : α → ExceptT ε (StateM σ) β)
    (s : σ) :
    (x >>= k) s =
      match x s with
      | (.ok a, s) => k a s
      | (.error e, s) => (.error e, s) := by
  show (ExceptT.bind x k) s = _
  simp only [ExceptT.bind, ExceptT.mk, Bind.bind, StateT.bind]
  obtain ⟨r, s'⟩ := x s
  cases r <;> rfl

/-- Both parts of a computation went well. -/
theorem run_bind_ok {ε σ α β : Type} {x : ExceptT ε (StateM σ) α} {k : α → ExceptT ε (StateM σ) β}
    {s s' : σ} {b : β} (h : (x >>= k) s = (.ok b, s')) :
    ∃ a s₁, x s = (.ok a, s₁) ∧ k a s₁ = (.ok b, s') := by
  rw [run_bind] at h
  split at h
  next a s₁ hx => exact ⟨a, s₁, hx, h⟩
  · cases h

/-- A computation that starts by looking at the state. -/
theorem run_get_bind {ε σ α : Type} (k : σ → ExceptT ε (StateM σ) α) (s : σ) :
    (get >>= k) s = k s s := rfl

/-- A failure is handled in the state that it has left. -/
theorem run_tryCatch {ε σ α : Type} (x : ExceptT ε (StateM σ) α)
    (handler : ε → ExceptT ε (StateM σ) α) (s : σ) :
    (tryCatch x handler) s =
      match x s with
      | (.ok a, s) => (.ok a, s)
      | (.error e, s) => handler e s := by
  show (ExceptT.tryCatch x handler) s = _
  simp only [ExceptT.tryCatch, ExceptT.mk, Bind.bind, StateT.bind]
  obtain ⟨r, s'⟩ := x s
  cases r <;> rfl

namespace Resolving

variable {catalog : Catalog.Lookup} {α β : Type}

/-- From every coherent cache the computation has the given outcome, and leaves a coherent cache. -/
def Yields (catalog : Catalog.Lookup) (x : Resolving α) (r : Outcome α) : Prop :=
  ∀ c : TypeCache, c.Coherent catalog → ∃ c', x c = (r, c') ∧ c'.Coherent catalog

/-- A value is its own outcome. -/
theorem yields_pure (a : α) : Yields catalog (pure a) (.ok a) := fun c hc => ⟨c, rfl, hc⟩

/-- A failure is its own outcome. -/
theorem yields_throw (f : Failure) : Yields catalog (throw f : Resolving α) (.error f) :=
  fun c hc => ⟨c, rfl, hc⟩

/-- What does not look anything up has its own outcome. -/
theorem yields_liftExcept (r : Outcome α) : Yields catalog (liftExcept r) r := fun c hc => by
  cases r <;> exact ⟨c, rfl, hc⟩

/-- A computation goes on with the value of its first part. -/
theorem Yields.bind {x : Resolving α} {a : α} {f : α → Resolving β} {r : Outcome β}
    (hx : Yields catalog x (.ok a)) (hf : Yields catalog (f a) r) :
    Yields catalog (x >>= f) r := by
  intro c hc
  obtain ⟨c', hx, hc'⟩ := hx c hc
  obtain ⟨c'', hf, hc''⟩ := hf c' hc'
  refine ⟨c'', ?_, hc''⟩
  rw [run_bind, hx]
  exact hf

/-- A computation stops at a failure of its first part. -/
theorem Yields.bind_error {x : Resolving α} {e : Failure} (hx : Yields catalog x (.error e))
    (f : α → Resolving β) : Yields catalog (x >>= f) (.error e) := by
  intro c hc
  obtain ⟨c', hx, hc'⟩ := hx c hc
  refine ⟨c', ?_, hc'⟩
  rw [run_bind, hx]

/-- The outcomes of two parts are joined like the parts. -/
theorem Yields.bind_outcome {x : Resolving α} {r : Outcome α} {f : α → Resolving β}
    {g : α → Outcome β} (hx : Yields catalog x r) (hf : ∀ a, Yields catalog (f a) (g a)) :
    Yields catalog (x >>= f) (r >>= g) := by
  cases r with
  | error e => exact hx.bind_error f
  | ok a => exact hx.bind (hf a)

/-- A lookup yields what the catalog gives, from the cache or not, and fails as the catalog does. -/
theorem yields_descriptor (id : TypeId) :
    Yields catalog (descriptor catalog id) (TypeCache.resolve catalog id) := by
  intro c hc
  show ∃ c', TypeCache.get catalog id c = _ ∧ _
  unfold TypeCache.get
  cases hfind : c.find? id with
  | some d =>
    rw [hc id d hfind]
    exact ⟨_, rfl, hc⟩
  | none =>
    cases hresolve : TypeCache.resolve catalog id with
    | error f => exact ⟨_, rfl, hc⟩
    | ok d =>
      refine ⟨_, rfl, ?_⟩
      -- the new entry is what the catalog gave, the others were coherent before
      intro id' d' hfind'
      change ((id, d) :: c.entries).lookup id' = some d' at hfind'
      rw [List.lookup_cons] at hfind'
      split at hfind'
      · rename_i heq
        rw [eq_of_beq heq, hresolve, ← Option.some.inj hfind']
      · exact hc id' d' hfind'

/-- Following domains through the cache is following them in the catalog. -/
theorem yields_underlying (start : TypeId) (hops : Nat) (d : TypeDescriptor) (typeMod : Int32) :
    Yields catalog (underlying catalog start hops d typeMod)
      (Catalog.underlying catalog start hops d typeMod) := by
  induction hops generalizing d typeMod with
  | zero =>
    unfold underlying Catalog.underlying
    cases d.kind with
    | domain base baseMod => exact yields_throw _
    | _ => exact yields_pure _
  | succ hops ih =>
    unfold underlying Catalog.underlying
    cases d.kind with
    | domain base baseMod =>
      have hnext : Yields catalog (descriptor catalog base) _ := yields_descriptor base
      simp only
      cases hresolve : TypeCache.resolve catalog base with
      | error f =>
        rw [hresolve] at hnext
        exact hnext.bind_error _
      | ok next =>
        rw [hresolve] at hnext
        exact hnext.bind (ih next _)
    | _ => exact yields_pure _

/-- Resolving a type through the cache is resolving it in the catalog. -/
theorem yields_resolveDomain (id : TypeId) (typeMod : Int32) :
    Yields catalog (resolveDomain catalog id typeMod)
      (Catalog.resolveDomain catalog id typeMod) := by
  have hfirst : Yields catalog (descriptor catalog id) _ := yields_descriptor id
  unfold resolveDomain Catalog.resolveDomain
  cases hresolve : TypeCache.resolve catalog id with
  | error f =>
    rw [hresolve] at hfirst
    exact hfirst.bind_error _
  | ok d =>
    rw [hresolve] at hfirst
    exact hfirst.bind (yields_underlying id maxDomainHops d typeMod)

/-- The computations for the members of a list yield the list of their values. -/
theorem yields_mapM {f : α → Resolving β} {l : List α} {values : List β}
    (h : List.Forall₂ (fun a v => Yields catalog (f a) (.ok v)) l values) :
    Yields catalog (l.mapM f) (.ok values) := by
  induction h with
  | nil =>
    rw [List.mapM_nil]
    exact yields_pure _
  | cons ha _ ih =>
    rw [List.mapM_cons]
    exact ha.bind (ih.bind (yields_pure _))

/-- The outcomes for the members of a list are joined like the computations. -/
theorem yields_mapM_outcome {f : α → Resolving β} {g : α → Outcome β}
    (h : ∀ a, Yields catalog (f a) (g a)) (l : List α) :
    Yields catalog (l.mapM f) (l.mapM g) := by
  induction l with
  | nil =>
    rw [List.mapM_nil, List.mapM_nil]
    exact yields_pure _
  | cons a rest ih =>
    rw [List.mapM_cons, List.mapM_cons]
    exact (h a).bind_outcome fun b => ih.bind_outcome fun bs => yields_pure _

end Resolving

namespace Catalog

variable {catalog : Lookup}

/-- What a walk along domains ends at is no domain, and it is a type of the catalog if the walk
started at one. -/
theorem underlying_ok {start : TypeId} {hops : Nat} {d type : TypeDescriptor}
    {typeMod typeMod' : Int32} (hd : ∃ id, TypeCache.resolve catalog id = .ok d)
    (h : underlying catalog start hops d typeMod = .ok (type, typeMod')) :
    (∃ id, TypeCache.resolve catalog id = .ok type) ∧
      ∀ base baseMod, type.kind ≠ .domain base baseMod := by
  -- with no hop left a domain is a failure, and any other type is an end at every number of hops
  induction hops generalizing d typeMod with
  | zero =>
    unfold underlying at h
    cases hkind : d.kind with
    | domain base baseMod =>
      simp only [hkind] at h
      exact nomatch h
    | _ =>
      simp only [hkind, Except.ok.injEq, Prod.mk.injEq] at h
      obtain ⟨rfl, -⟩ := h
      exact ⟨hd, fun _ _ heq => nomatch hkind.symm.trans heq⟩
  | succ hops ih =>
    unfold underlying at h
    cases hkind : d.kind with
    | domain base baseMod =>
      simp only [hkind] at h
      cases hresolve : TypeCache.resolve catalog base with
      | error f =>
        rw [hresolve] at h
        exact nomatch h
      | ok next =>
        rw [hresolve] at h
        exact ih ⟨base, hresolve⟩ h
    | _ =>
      simp only [hkind, Except.ok.injEq, Prod.mk.injEq] at h
      obtain ⟨rfl, -⟩ := h
      exact ⟨hd, fun _ _ heq => nomatch hkind.symm.trans heq⟩

/-- The modifier that a walk starts with has no influence on where it ends. -/
theorem underlying_typeMod {start : TypeId} {hops : Nat} {d type : TypeDescriptor}
    {typeMod typeMod' : Int32}
    (h : underlying catalog start hops d typeMod = .ok (type, typeMod')) (other : Int32) :
    ∃ other', underlying catalog start hops d other = .ok (type, other') := by
  -- a step looks at the descriptor only, and hands some modifier on
  induction hops generalizing d typeMod other with
  | zero =>
    unfold underlying at h ⊢
    cases hkind : d.kind with
    | domain base baseMod =>
      simp only [hkind] at h
      exact nomatch h
    | _ =>
      simp only [hkind, Except.ok.injEq, Prod.mk.injEq] at h ⊢
      exact ⟨other, h.1, rfl⟩
  | succ hops ih =>
    unfold underlying at h ⊢
    cases hkind : d.kind with
    | domain base baseMod =>
      simp only [hkind] at h ⊢
      cases hresolve : TypeCache.resolve catalog base with
      | error f =>
        rw [hresolve] at h
        exact nomatch h
      | ok next =>
        rw [hresolve] at h
        exact ih h _
    | _ =>
      simp only [hkind, Except.ok.injEq, Prod.mk.injEq] at h ⊢
      exact ⟨other, h.1, rfl⟩

/-- A type resolves to the same type under every modifier. -/
theorem resolveDomain_typeMod {id : TypeId} {type : TypeDescriptor} {typeMod typeMod' : Int32}
    (h : resolveDomain catalog id typeMod = .ok (type, typeMod')) (other : Int32) :
    ∃ other', resolveDomain catalog id other = .ok (type, other') := by
  unfold resolveDomain at h ⊢
  cases hresolve : TypeCache.resolve catalog id with
  | error f =>
    rw [hresolve] at h
    exact nomatch h
  | ok d =>
    rw [hresolve] at h
    exact underlying_typeMod h other

/-- What a type resolves to is a type of the catalog, and no domain. -/
theorem resolveDomain_ok {id : TypeId} {type : TypeDescriptor} {typeMod typeMod' : Int32}
    (h : resolveDomain catalog id typeMod = .ok (type, typeMod')) :
    (∃ id, TypeCache.resolve catalog id = .ok type) ∧
      ∀ base baseMod, type.kind ≠ .domain base baseMod := by
  unfold resolveDomain at h
  cases hresolve : TypeCache.resolve catalog id with
  | error f =>
    rw [hresolve] at h
    exact nomatch h
  | ok d =>
    rw [hresolve] at h
    exact underlying_ok ⟨id, hresolve⟩ h

end Catalog

end StoredRoutine
