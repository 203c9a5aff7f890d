import StoredRoutine.Proofs.Marshal.Catchable

/-!
# `StoredRoutine.Proofs.Marshal.Transparent`: conversions do not see the type cache

Two caches are `Alike` if every lookup has the same outcome with both, and it makes no difference
whether a descriptor is kept or has to be asked for. A computation is `Transparent` if it has the
same outcome from caches that are alike, and leaves a cache that is like the one it found. So what
other computations have looked up meanwhile has no influence on it.

Lookups are transparent, and computations put together from transparent parts are. All conversions
between scripts and the database are, in both directions, for one and the same catalog.
-/

set_option autoImplicit false

namespace StoredRoutine

/-! ### Caches that are alike -/

namespace TypeCache

variable {catalog : Catalog.Lookup} {c c' c'' : TypeCache}

/-- Every lookup has the same outcome. -/
def Alike (catalog : Catalog.Lookup) (c c' : TypeCache) : Prop :=
  ∀ id, (c.get catalog id).1 = (c'.get catalog id).1

theorem Alike.refl (catalog : Catalog.Lookup) (c : TypeCache) : Alike catalog c c := fun _ => rfl

theorem Alike.symm (h : Alike catalog c c') : Alike catalog c' c := fun id => (h id).symm

theorem Alike.trans (h : Alike catalog c c') (h' : Alike catalog c' c'') : Alike catalog c c'' :=
  fun id => (h id).trans (h' id)

/-- What a lookup answers. -/
theorem get_fst (catalog : Catalog.Lookup) (id : TypeId) (c : TypeCache) :
    (c.get catalog id).1 = match c.find? id with
      | some d => .ok d
      | none => resolve catalog id := by
  unfold get
  cases c.find? id with
  | some d => rfl
  | none => cases resolve catalog id <;> rfl

/-- A lookup keeps what the catalog answers, so that later lookups answer the same. -/
theorem alike_get (catalog : Catalog.Lookup) (id : TypeId) (c : TypeCache) :
    Alike catalog c (c.get catalog id).2 := by
  intro i
  rw [get_fst, get_fst]
  unfold get
  cases hfind : c.find? id with
  | some d => rfl
  | none =>
    cases hresolve : resolve catalog id with
    | error f => rfl
    | ok d =>
      show _ = match ((id, d) :: c.entries).lookup i with
        | some d => Except.ok d
        | none => resolve catalog i
      rw [List.lookup_cons]
      by_cases hi : i = id
      · subst hi
        simp [hfind, hresolve]
      · have hbeq : (i == id) = false := by simpa using hi
        rw [hbeq]
        rfl

end TypeCache

namespace Resolving

open TypeCache (Alike)

variable {catalog : Catalog.Lookup} {α β : Type}

/-! ### Transparent computations -/

/-- The outcome does not depend on what is kept, and what is kept stays alike. -/
class Transparent (catalog : Catalog.Lookup) (x : Resolving α) : Prop where
  kept : ∀ c, Alike catalog c (x c).2
  same : ∀ c c', Alike catalog c c' → (x c).1 = (x c').1

instance (a : α) : Transparent catalog (pure a : Resolving α) where
  kept := Alike.refl catalog
  same _ _ _ := rfl

instance (f : Failure) : Transparent catalog (throw f : Resolving α) where
  kept := Alike.refl catalog
  same _ _ _ := rfl

instance (o : Outcome α) : Transparent catalog (liftExcept o : Resolving α) where
  kept c := by cases o <;> exact Alike.refl catalog c
  same c c' _ := by cases o <;> rfl

instance (id : TypeId) : Transparent catalog (descriptor catalog id) where
  kept := TypeCache.alike_get catalog id
  same _ _ h := h id

instance transparent_bind {x : Resolving α} {k : α → Resolving β} [hx : Transparent catalog x]
    [hk : ∀ a, Transparent catalog (k a)] : Transparent catalog (x >>= k) where
  kept c := by
    have hkept := hx.kept c
    rw [run_bind]
    generalize x c = done at hkept ⊢
    obtain ⟨f | a, c₁⟩ := done
    · exact hkept
    · exact hkept.trans ((hk a).kept c₁)
  same c c' h := by
    have hsame := hx.same c c' h
    -- the caches between the two parts are alike, too
    have hmid := (hx.kept c).symm.trans (h.trans (hx.kept c'))
    rw [run_bind, run_bind]
    generalize x c = done at hsame hmid ⊢
    generalize x c' = done' at hsame hmid ⊢
    obtain ⟨r, c₁⟩ := done
    obtain ⟨r', c₁'⟩ := done'
    obtain rfl : r = r' := hsame
    cases r with
    | error f => rfl
    | ok a => exact (hk a).same c₁ c₁' hmid

instance {p : Prop} [Decidable p] {x y : Resolving α} [hx : Transparent catalog x]
    [hy : Transparent catalog y] : Transparent catalog (if p then x else y) := by
  split
  · exact hx
  · exact hy

instance transparent_mapM {f : α → Resolving β} (l : List α)
    [hf : ∀ a, Transparent catalog (f a)] : Transparent catalog (l.mapM f) := by
  induction l with
  | nil => exact inferInstanceAs (Transparent catalog (pure []))
  | cons a rest ih =>
    rw [List.mapM_cons]
    infer_instance

theorem transparent_traverseMem {l : List α} {f : (a : α) → a ∈ l → Resolving β}
    (hf : ∀ a h, Transparent catalog (f a h)) :
    Transparent catalog (Marshal.traverseMem l f) := by
  induction l with
  | nil => exact inferInstanceAs (Transparent catalog (pure []))
  | cons a rest ih =>
    have hrest := ih fun y h => hf y (List.mem_cons_of_mem _ h)
    unfold Marshal.traverseMem
    infer_instance

instance (start : TypeId) (hops : Nat) (d : TypeDescriptor) (typeMod : Int32) :
    Transparent catalog (underlying catalog start hops d typeMod) := by
  induction hops generalizing d typeMod with
  | zero =>
    unfold underlying
    split <;> infer_instance
  | succ hops ih =>
    unfold underlying
    split <;> infer_instance

instance (id : TypeId) (typeMod : Int32) :
    Transparent catalog (resolveDomain catalog id typeMod) := by
  unfold resolveDomain
  infer_instance

end Resolving

namespace Marshal

open Resolving (Transparent)

variable {b : Border}

/-! ### From the database to scripts -/

mutual

instance transparent_toScript (d : Datum) (id : TypeId) :
    Transparent b.catalog (toScript b d id) := by
  match d with
  | .array ⟨t, dims, elements⟩ =>
    have helements := transparent_elementsToScript elements
    unfold toScript
    refine @Resolving.transparent_bind _ _ _ _ _ inferInstance fun resolved => ?_
    dsimp only
    split <;> infer_instance
  | .row ⟨layout, values⟩ =>
    have hcolumns := transparent_columnsToScript layout.attributes values []
    unfold toScript
    infer_instance
  | .bool _ | .int2 _ | .int4 _ | .int8 _ | .float4 _ | .float8 _ | .numeric _ | .text _
  | .bytea _ | .json _ | .enum _ | .refcursor _ | .other _ =>
    unfold toScript
    infer_instance

instance transparent_elementsToScript (elements : List (Option Datum)) (id : TypeId) :
    Transparent b.catalog (elementsToScript b elements id) := by
  match elements with
  | [] => unfold elementsToScript; infer_instance
  | none :: rest =>
    have hrest := transparent_elementsToScript rest id
    unfold elementsToScript
    infer_instance
  | some d :: rest =>
    have hfirst := transparent_toScript d id
    have hrest := transparent_elementsToScript rest id
    unfold elementsToScript
    infer_instance

instance transparent_columnsToScript (attributes : List Attribute) (values : List (Option Datum))
    (table : ScriptTable) : Transparent b.catalog (columnsToScript b attributes values table) := by
  match attributes, values with
  | a :: attributes, some d :: values =>
    have hfirst := transparent_toScript d a.typeId
    have hrest := transparent_columnsToScript attributes values
    unfold columnsToScript
    infer_instance
  | _ :: attributes, none :: values =>
    unfold columnsToScript
    exact transparent_columnsToScript attributes values table
  | [], _ => unfold columnsToScript; infer_instance
  | _ :: _, [] => unfold columnsToScript; infer_instance

end

instance (d : Option Datum) (id : TypeId) : Transparent b.catalog (optionToScript b d id) := by
  unfold optionToScript
  split <;> infer_instance

/-! ### From scripts to the database -/

instance (element : TypeId) : Transparent b.catalog (tablesAreLeaves b element) := by
  unfold tablesAreLeaves
  infer_instance

instance (element : TypeId) : Transparent b.catalog (elementStorage b element) := by
  unfold elementStorage
  refine @Resolving.transparent_bind _ _ _ _ _ inferInstance fun type => ?_
  split <;> infer_instance

instance (element : TypeId) (dims : List ArrayDim) (slots : List (Option Datum)) :
    Transparent b.catalog (arrayOfSlots b element dims slots) := by
  unfold arrayOfSlots
  infer_instance

/-- The conversion is transparent if that of a row to another layout is. -/
theorem transparent_convert {ofTuple : RowValue → RowLayout → Resolving RowValue}
    [hof : ∀ row layout, Transparent b.catalog (ofTuple row layout)] (v : ScriptValue) (id : TypeId)
    (typeMod : Int32) : Transparent b.catalog (convert b ofTuple v id typeMod) := by
  -- the recursion is that of the conversion: into the values of a table
  fun_induction convert b ofTuple v id typeMod with
  | case1 => infer_instance
  | case2 entries id typeMod ihArray ihRow =>
    refine @Resolving.transparent_bind _ _ _ _ _ inferInstance fun resolved => ?_
    dsimp only
    split
    next element _ =>
      refine @Resolving.transparent_bind _ _ _ _ _ inferInstance fun leafTables =>
        @Resolving.transparent_bind _ _ _ _ _ inferInstance fun dims => ?_
      have hplaced := Resolving.transparent_traverseMem (l := placements dims entries)
        (f := fun p h => do
          let d ← convert b ofTuple p.2 element (-1)
          return (p.1, d)) fun p h =>
            @Resolving.transparent_bind _ _ _ _ _ (ihArray element dims p h) inferInstance
      split
      · infer_instance
      · split <;> infer_instance
    next layout _ =>
      refine @Resolving.transparent_bind _ _ _ _ _
        (@Resolving.transparent_mapM _ _ _ _ _ fun a => ?_) inferInstance
      split
      next v hfound => exact ihRow a v hfound
      · infer_instance
    · infer_instance
  | case3 row id typeMod =>
    refine @Resolving.transparent_bind _ _ _ _ _ inferInstance fun resolved => ?_
    dsimp only
    split <;> infer_instance
  | case4 => infer_instance

instance (row : RowValue) (layout : RowLayout) : Transparent b.catalog (retype b row layout) := by
  have hcolumn (source : TypeId) (d : Option Datum) (a : Attribute) : Transparent b.catalog (do
      let script ← optionToScript b d source
      convert b (fun _ _ => throw (.internal "row object inside a script form")) script a.typeId
        a.typeMod) :=
    @Resolving.transparent_bind _ _ _ _ _ inferInstance fun script => transparent_convert _ _ _
  have hvalues (a : Attribute) : Transparent b.catalog
      (match row.layout.position? a.name with
        | none => pure none
        | some i => do
          let source := (row.layout.attributes[i]?).getD a
          let script ← optionToScript b (row.values[i]?).join source.typeId
          convert b (fun _ _ => throw (.internal "row object inside a script form")) script
            a.typeId a.typeMod) := by
    split
    · infer_instance
    · exact hcolumn _ _ _
  unfold retype
  infer_instance

instance (v : ScriptValue) (id : TypeId) (typeMod : Int32) :
    Transparent b.catalog (toRelational b v id typeMod) :=
  transparent_convert v id typeMod

end Marshal

end StoredRoutine
