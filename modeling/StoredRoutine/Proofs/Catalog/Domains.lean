import StoredRoutine.Proofs.Catalog.Resolution

/-!
# `StoredRoutine.Proofs.Catalog.Domains`: what domains stand for

A type `StandsFor` the one that its domains end in, and the modifiers of the domains are read off
the way there. The deepest one other than -1 is in force at the end, whatever modifier the way
started with (`standsFor_resolveDomain`).

`Ensures` says of a computation with types what its values have in common, when nothing is known of
whether there is one. It is the counterpart of `Yields`, for conversions that may refuse what they
are given.
-/

set_option autoImplicit false

namespace StoredRoutine

namespace Catalog

/-- From a type through domains to the type they stand for. The modifiers are those of the domains,
the outermost first. -/
inductive StandsFor (catalog : Lookup) : TypeId → List Int32 → TypeDescriptor → Prop
  | self {id : TypeId} {type : TypeDescriptor} (htype : TypeCache.resolve catalog id = .ok type)
      (hend : ∀ base baseMod, type.kind ≠ .domain base baseMod) : StandsFor catalog id [] type
  | domain {id base : TypeId} {baseMod : Int32} {d type : TypeDescriptor} {mods : List Int32}
      (hd : TypeCache.resolve catalog id = .ok d) (hkind : d.kind = .domain base baseMod)
      (hbase : StandsFor catalog base mods type) : StandsFor catalog id (baseMod :: mods) type

/-- The modifier in force where domains end: the deepest one other than -1, and the one given if
they have none. -/
def inForce (mods : List Int32) (typeMod : Int32) : Int32 :=
  (mods.reverse.find? fun m => decide (m ≠ -1)).getD typeMod

theorem inForce_cons (baseMod : Int32) (mods : List Int32) (typeMod : Int32) :
    inForce (baseMod :: mods) typeMod =
      inForce mods (if baseMod = -1 then typeMod else baseMod) := by
  unfold inForce
  rw [List.reverse_cons, List.find?_append]
  cases mods.reverse.find? fun m => decide (m ≠ -1) with
  | some m => rfl
  | none =>
    by_cases hmod : baseMod = -1
    · simp [hmod]
    · simp [hmod]

variable {catalog : Lookup}

/-- Without a domain a walk is over at once. -/
theorem underlying_self {start : TypeId} {hops : Nat} {d : TypeDescriptor} {typeMod : Int32}
    (hend : ∀ base baseMod, d.kind ≠ .domain base baseMod) :
    underlying catalog start hops d typeMod = .ok (d, typeMod) := by
  unfold underlying
  split
  next base baseMod hkind => exact absurd hkind (hend base baseMod)
  · rfl

/-- A walk along domains ends where they do. It is as long as the hops that are left allow. -/
theorem standsFor_underlying {start id : TypeId} {hops : Nat} {d type : TypeDescriptor}
    {typeMod typeMod' : Int32} (hd : TypeCache.resolve catalog id = .ok d)
    (h : underlying catalog start hops d typeMod = .ok (type, typeMod')) :
    ∃ mods, StandsFor catalog id mods type ∧ typeMod' = inForce mods typeMod := by
  by_cases hend : ∀ base baseMod, d.kind ≠ .domain base baseMod
  · obtain ⟨rfl, rfl⟩ := Prod.mk.inj (Except.ok.inj ((underlying_self hend).symm.trans h))
    exact ⟨[], .self hd hend, rfl⟩
  · push Not at hend
    obtain ⟨base, baseMod, hkind⟩ := hend
    unfold underlying at h
    simp only [hkind] at h
    -- one more domain, unless there have been too many
    cases hops with
    | zero => cases h
    | succ hops =>
      cases hresolve : TypeCache.resolve catalog base with
      | error f =>
        rw [hresolve] at h
        cases h
      | ok next =>
        rw [hresolve] at h
        obtain ⟨mods, hchain, hmod⟩ := standsFor_underlying hresolve h
        exact ⟨baseMod :: mods, .domain hd hkind hchain, by rw [hmod, inForce_cons]⟩

/-- What a type resolves to is what it stands for, under the modifier in force. -/
theorem standsFor_resolveDomain {id : TypeId} {type : TypeDescriptor} {typeMod typeMod' : Int32}
    (h : resolveDomain catalog id typeMod = .ok (type, typeMod')) :
    ∃ mods, StandsFor catalog id mods type ∧ typeMod' = inForce mods typeMod := by
  unfold resolveDomain at h
  cases hresolve : TypeCache.resolve catalog id with
  | error f =>
    rw [hresolve] at h
    exact nomatch h
  | ok d =>
    rw [hresolve] at h
    exact standsFor_underlying hresolve h

end Catalog

/-! ### What a computation ensures -/

namespace Resolving

variable {catalog : Catalog.Lookup} {α β : Type} {P : α → Prop} {Q : β → Prop}

/-- From every coherent cache the computation leaves a coherent cache, and its value, if it has one,
has a property. -/
def Ensures (catalog : Catalog.Lookup) (x : Resolving α) (P : α → Prop) : Prop :=
  ∀ c : TypeCache, c.Coherent catalog → (x c).2.Coherent catalog ∧ ∀ a, (x c).1 = .ok a → P a

theorem ensures_pure {a : α} (ha : P a) : Ensures catalog (pure a) P := by
  intro c hc
  refine ⟨hc, fun a' heq => ?_⟩
  obtain rfl := Except.ok.inj heq
  exact ha

theorem ensures_throw (f : Failure) : Ensures catalog (throw f : Resolving α) P :=
  fun _ hc => ⟨hc, fun _ heq => nomatch heq⟩

theorem ensures_liftExcept {r : Outcome α} (hr : ∀ a, r = .ok a → P a) :
    Ensures catalog (liftExcept r) P := by
  intro c hc
  cases r with
  | error f => exact ⟨hc, fun _ heq => nomatch heq⟩
  | ok a =>
    refine ⟨hc, fun a' heq => ?_⟩
    obtain rfl := Except.ok.inj heq
    exact hr a rfl

/-- What yields one outcome ensures what is true of that. -/
theorem Yields.ensures {x : Resolving α} {r : Outcome α} (hx : Yields catalog x r)
    (hr : ∀ a, r = .ok a → P a) : Ensures catalog x P := by
  intro c hc
  obtain ⟨c', hx, hc'⟩ := hx c hc
  rw [hx]
  exact ⟨hc', hr⟩

theorem Ensures.bind {x : Resolving α} {k : α → Resolving β} (hx : Ensures catalog x P)
    (hk : ∀ a, P a → Ensures catalog (k a) Q) : Ensures catalog (x >>= k) Q := by
  intro c hc
  have hdone := hx c hc
  rw [run_bind]
  generalize x c = done at hdone ⊢
  obtain ⟨r, c'⟩ := done
  obtain ⟨hc', hr⟩ := hdone
  cases r with
  | error f => exact ⟨hc', fun _ heq => nomatch heq⟩
  | ok a => exact hk a (hr a rfl) c' hc'

/-- The values for the members of a list, each with the property of its member. -/
theorem ensures_mapM {f : α → Resolving β} {R : α → β → Prop}
    (hf : ∀ a, Ensures catalog (f a) (R a)) (l : List α) :
    Ensures catalog (l.mapM f) (List.Forall₂ R l) := by
  induction l with
  | nil =>
    rw [List.mapM_nil]
    exact ensures_pure .nil
  | cons a rest ih =>
    rw [List.mapM_cons]
    exact (hf a).bind fun b hb => ih.bind fun bs hbs => ensures_pure (.cons hb hbs)

end Resolving

end StoredRoutine
