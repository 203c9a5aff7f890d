import Mathlib
import StoredRoutine.Host.Basic
import StoredRoutine.Proofs.Catalog.Domains
import StoredRoutine.Proofs.Datum.Text
import StoredRoutine.Proofs.Marshal.Catchable
import StoredRoutine.Proofs.Marshal.Shape

/-!
# `StoredRoutine.Proofs.Marshal.Typed`: what comes back is of its type

`Typed catalog d t m` says that `d` is a value of type `t` under the modifier `m`: of the variant of
the type that `t` stands for, within the modifier in force there, and all the way down in arrays
and rows. Whatever a script hands over for a type, if it is accepted it has become a value of the
type (`toRelational_typed`). Row objects bring values that no conversion has made, and are left out
(`TupleFree`).
-/

set_option autoImplicit false

namespace StoredRoutine

/-- A script value without row objects, at any depth. -/
inductive ScriptValue.TupleFree : ScriptValue → Prop
  | nil : TupleFree .nil
  | bool (v : Bool) : TupleFree (.bool v)
  | int (n : Int64) : TupleFree (.int n)
  | number (x : Float) : TupleFree (.number x)
  | string (b : ByteArray) : TupleFree (.string b)
  | cursor (name : String) : TupleFree (.cursor name)
  | table {entries : List (ScriptKey × ScriptValue)}
      (hentries : ∀ k v, (k, v) ∈ entries → TupleFree v) : TupleFree (.table entries)

namespace Marshal

open Catalog (StandsFor inForce)
open Datum (IsBase)
open Resolving

/-- The dimensions and the elements of an array: all extents positive and their product the number
of elements, or neither dimensions nor elements. -/
def WellFormed (dims : List ArrayDim) (elements : List (Option Datum)) : Prop :=
  (dims = [] ∧ elements = []) ∨
    dims ≠ [] ∧ (∀ dim ∈ dims, 0 < dim.len) ∧ volume dims = elements.length

/-- A value of a type, under a type modifier. -/
inductive Typed (catalog : Catalog.Lookup) : Datum → TypeId → Int32 → Prop
  | base {d : Datum} {t : TypeId} {m : Int32} {mods : List Int32} {type : TypeDescriptor}
      (ht : StandsFor catalog t mods type) (hkind : type.kind = .base)
      (hd : IsBase (inForce mods m) (Scalar.ofId? type.id) d) : Typed catalog d t m
  | enum {label : String} {t : TypeId} {m : Int32} {mods : List Int32} {type : TypeDescriptor}
      {labels : List String} (ht : StandsFor catalog t mods type) (hkind : type.kind = .enum labels)
      (hlabel : label ∈ labels) : Typed catalog (.enum label) t m
  | array {element t : TypeId} {m : Int32} {mods : List Int32} {type : TypeDescriptor}
      {dims : List ArrayDim} {elements : List (Option Datum)}
      (ht : StandsFor catalog t mods type) (hkind : type.kind = .array element)
      (hform : WellFormed dims elements)
      (helements : ∀ d, some d ∈ elements → Typed catalog d element (-1)) :
      Typed catalog (.array ⟨element, dims, elements⟩) t m
  | row {t : TypeId} {m : Int32} {mods : List Int32} {type : TypeDescriptor} {layout : RowLayout}
      {values : List (Option Datum)}
      (ht : StandsFor catalog t mods type) (hkind : type.kind = .composite layout)
      (hlength : values.length = layout.attributes.length)
      (hcolumns : ∀ a d, (a, some d) ∈ layout.attributes.zip values →
        Typed catalog d a.typeId a.typeMod) :
      Typed catalog (.row ⟨layout, values⟩) t m

/-! ### Script values without row objects -/

theorem tupleFree_of_table {entries : ScriptTable} (h : ScriptValue.TupleFree (.table entries))
    {k : ScriptKey} {v : ScriptValue} (hmem : (k, v) ∈ entries) : v.TupleFree := by
  cases h with
  | table hentries => exact hentries k v hmem

theorem tupleFree_of_find? {entries : ScriptTable} (h : ScriptValue.TupleFree (.table entries))
    {k : ScriptKey} {v : ScriptValue} (hfound : entries.find? k = some v) : v.TupleFree := by
  obtain ⟨front, back, heq, -⟩ := List.lookup_eq_some_iff.mp hfound
  refine tupleFree_of_table h (k := k) ?_
  rw [heq]
  exact List.mem_append_right _ List.mem_cons_self

/-- What is placed in a slot comes from the nest. -/
theorem tupleFree_of_placements {dims : List ArrayDim} {base : Nat} {entries : ScriptTable}
    (h : ScriptValue.TupleFree (.table entries)) {p : Nat × ScriptValue}
    (hp : p ∈ placementsFrom dims base entries) : p.2.TupleFree := by
  induction dims generalizing base entries with
  | nil => exact absurd hp List.not_mem_nil
  | cons d inner ih =>
    simp only [placementsFrom, List.mem_flatMap] at hp
    obtain ⟨⟨key, value⟩, hmem, hp⟩ := hp
    have hvalue := tupleFree_of_table h hmem
    cases key with
    | text s => exact absurd hp List.not_mem_nil
    | int k =>
      simp only at hp
      split at hp
      · rw [List.mem_singleton.mp hp]
        exact hvalue
      · split at hp
        · exact ih hvalue hp
        · exact absurd hp List.not_mem_nil

/-! ### Plain values -/

section Plain

variable {v : ScriptValue} {type : TypeDescriptor} {m : Int32} {d : Datum}

/-- The text of a value, read as a value of a type. -/
theorem viaText_ok (h : viaText v type m = .ok d) : ∃ text, Datum.ofText type text m = .ok d := by
  unfold viaText at h
  cases htext : textOf v type with
  | error f =>
    rw [htext] at h
    exact nomatch h
  | ok text =>
    rw [htext] at h
    exact ⟨text, h⟩

theorem isBase_viaText (hkind : type.kind = .base) (h : viaText v type m = .ok d) :
    IsBase m (Scalar.ofId? type.id) d := by
  obtain ⟨text, htext⟩ := viaText_ok h
  exact Datum.isBase_ofText hkind htext

/-- An integer is taken over, or read from its text. -/
theorem toIntDatum_ok {s : Scalar} (h : toIntDatum s v type m = .ok d) :
    (∃ n, intDatum s type.name n = .ok d) ∨ viaText v type m = .ok d := by
  unfold toIntDatum at h
  split at h
  · exact .inl ⟨_, h⟩
  · split at h
    · exact .inl ⟨_, h⟩
    · exact nomatch h
  · exact .inr h
  · exact nomatch h

/-- A double is taken over, or read from its text. -/
theorem toFloatDatum_ok {wrap : Float → Datum} (h : toFloatDatum wrap v type m = .ok d) :
    (∃ x, wrap x = d) ∨ viaText v type m = .ok d := by
  unfold toFloatDatum at h
  split at h
  · exact .inl ⟨_, Except.ok.inj h⟩
  · exact .inl ⟨_, Except.ok.inj h⟩
  · exact .inr h
  · exact nomatch h

/-- An integer in the width of its type. -/
theorem isBase_intDatum {s : Scalar} (hs : s = .int2 ∨ s = .int4 ∨ s = .int8) {name : String}
    {n : Int} (h : intDatum s name n = .ok d) : IsBase m (some s) d := by
  unfold intDatum at h
  rcases hs with rfl | rfl | rfl <;> simp only at h
  · split at h
    · obtain rfl := Except.ok.inj h
      trivial
    · exact nomatch h
  · split at h
    · obtain rfl := Except.ok.inj h
      trivial
    · exact nomatch h
  · obtain rfl := Except.ok.inj h
    trivial

theorem isBase_scalarToRelational (hkind : type.kind = .base)
    (h : scalarToRelational v type m = .ok d) : IsBase m (Scalar.ofId? type.id) d := by
  have hvia : viaText v type m = .ok d → IsBase m (Scalar.ofId? type.id) d := isBase_viaText hkind
  unfold scalarToRelational at h
  cases hscalar : Scalar.ofId? type.id with
  | none =>
    rw [hscalar] at h hvia
    exact hvia h
  | some s =>
    rw [hscalar] at h hvia
    -- each type takes over values of its own kind, and has the others read from their text
    cases s <;> simp only at h
    case bool =>
      split at h
      · obtain rfl := Except.ok.inj h
        trivial
      · exact hvia h
      · exact nomatch h
    case int2 | int4 | int8 =>
      rcases toIntDatum_ok h with ⟨n, hn⟩ | htext
      · exact isBase_intDatum (by simp) hn
      · exact hvia htext
    case float4 | float8 =>
      rcases toFloatDatum_ok h with ⟨x, rfl⟩ | htext
      · trivial
      · exact hvia htext
    case bytea =>
      split at h
      · obtain rfl := Except.ok.inj h
        trivial
      · exact nomatch h
    case json =>
      obtain ⟨document, -, rfl⟩ := Datum.ok_of_map_eq_ok h
      trivial
    case refcursor =>
      split at h
      · obtain rfl := Except.ok.inj h
        trivial
      · obtain ⟨name, -, rfl⟩ := Datum.ok_of_map_eq_ok h
        trivial
      · exact nomatch h
    case text =>
      obtain ⟨text, -, rfl⟩ := Datum.ok_of_map_eq_ok h
      trivial
    all_goals exact hvia h

/-- What is neither a table nor a row object becomes a value of a base type or of an enum. -/
theorem typed_plainToRelational {catalog : Catalog.Lookup} {t : TypeId} {given : Int32}
    {mods : List Int32} (ht : StandsFor catalog t mods type)
    (h : plainToRelational v type (inForce mods given) = .ok (some d)) :
    Typed catalog d t given := by
  unfold plainToRelational at h
  cases hkind : type.kind with
  | array element => simp only [hkind] at h; exact nomatch h
  | composite layout => simp only [hkind] at h; exact nomatch h
  | domain base baseMod => simp only [hkind] at h; exact nomatch h
  | pseudo =>
    simp only [hkind] at h
    split at h
    · exact nomatch Except.ok.inj h
    · split at h <;> exact nomatch h
  | enum labels =>
    simp only [hkind] at h
    obtain ⟨d', hvia, heq⟩ := Datum.ok_of_map_eq_ok h
    obtain rfl := Option.some.inj heq
    -- The text of an enum is only checked against the labels.
    obtain ⟨text, htext⟩ := viaText_ok hvia
    unfold Datum.ofText at htext
    simp only [hkind] at htext
    split at htext
    next hlabel =>
      obtain rfl := Except.ok.inj htext
      exact .enum ht hkind (List.contains_iff_mem.mp hlabel)
    · exact nomatch htext
  | base =>
    simp only [hkind] at h
    obtain ⟨d', hscalar, heq⟩ := Datum.ok_of_map_eq_ok h
    obtain rfl := Option.some.inj heq
    exact .base ht hkind (isBase_scalarToRelational hkind hscalar)

end Plain

/-! ### Arrays -/

theorem volume_pos {dims : List ArrayDim} (h : volume dims ≠ 0) : ∀ dim ∈ dims, 0 < dim.len := by
  induction dims with
  | nil => exact fun _ hmem => absurd hmem List.not_mem_nil
  | cons first rest ih =>
    rw [volume_cons] at h
    intro dim hmem
    rcases List.mem_cons.mp hmem with rfl | hmem
    · exact Nat.pos_of_ne_zero fun hzero => h (by rw [hzero, Nat.zero_mul])
    · exact ih (fun hzero => h (by rw [hzero, Nat.mul_zero])) dim hmem

/-- An array that is built from slots has them as elements, and is well formed. -/
theorem ofDims_ok {element : TypeId} {dims : List ArrayDim} {slots : List (Option Datum)}
    {a : ArrayValue} (h : ArrayOf.ofDims element dims slots = .ok a) :
    a.elementType = element ∧ a.elements = slots ∧ WellFormed a.dims a.elements := by
  unfold ArrayOf.ofDims at h
  simp only at h
  split at h
  · cases h
  next count hcount =>
    obtain ⟨hvolume, -⟩ := foldl_checked (p := fun n => n < 2 ^ 64) hcount
    split at h
    · -- without dimensions or with an empty one, there may be no elements
      split at h
      next hempty =>
        obtain rfl := Except.ok.inj h
        exact ⟨rfl, (List.isEmpty_iff.mp hempty).symm, .inl ⟨rfl, rfl⟩⟩
      · cases h
    next hsome =>
      split at h
      · cases h
      next hlength =>
        split at h
        · cases h
        · obtain rfl := Except.ok.inj h
          have hne : dims ≠ [] := fun hnil => hsome (.inl hnil)
          have hcount : count ≠ 0 := fun hzero => hsome (.inr hzero)
          rw [hvolume] at hcount hlength
          exact ⟨rfl, rfl, .inr ⟨hne, volume_pos hcount, not_not.mp hlength⟩⟩

/-- A slot holds a NULL or what was placed there. -/
theorem mem_scatter {α : Type} {count : Nat} {placed : List (Nat × Option α)} {x : Option α}
    (h : x ∈ scatter count placed) : x = none ∨ ∃ p ∈ placed, p.2 = x := by
  have hfold : ∀ (slots : Array (Option α)),
      x ∈ placed.foldl (fun slots p => slots.setIfInBounds p.1 p.2) slots →
        x ∈ slots ∨ ∃ p ∈ placed, p.2 = x := by
    clear h
    induction placed with
    | nil => exact fun slots h => .inl h
    | cons p rest ih =>
      intro slots h
      rcases ih _ h with hslots | ⟨q, hq, hx⟩
      · rcases Array.mem_or_eq_of_mem_setIfInBounds hslots with hslots | rfl
        · exact .inl hslots
        · exact .inr ⟨p, List.mem_cons_self, rfl⟩
      · exact .inr ⟨q, List.mem_cons_of_mem p hq, hx⟩
  rcases hfold _ (Array.mem_toList_iff.mp h) with hinit | hplaced
  · exact .inl (Array.eq_of_mem_replicate hinit)
  · exact .inr hplaced

variable {b : Border}

theorem ensures_elementStorage (element : TypeId) :
    Ensures b.catalog (elementStorage b element) fun _ => True := by
  have hdescriptor : ∀ id, Ensures b.catalog (descriptor b.catalog id) fun _ => True := fun id =>
    (yields_descriptor id).ensures fun _ _ => trivial
  refine (hdescriptor element).bind fun type _ => ?_
  split
  · exact (hdescriptor _).bind fun _ _ => ensures_pure trivial
  · exact ensures_pure trivial

theorem ensures_arrayOfSlots (element : TypeId) (dims : List ArrayDim)
    (slots : List (Option Datum)) :
    Ensures b.catalog (arrayOfSlots b element dims slots) fun d =>
      ∃ dims', d = .array ⟨element, dims', slots⟩ ∧ WellFormed dims' slots := by
  unfold arrayOfSlots
  refine (ensures_liftExcept fun a ha => ofDims_ok ha).bind fun a ha => ?_
  refine (ensures_elementStorage element).bind fun storage _ => ?_
  obtain ⟨rfl, rfl, hform⟩ := ha
  simp only
  split
  · exact (ensures_throw (P := fun _ => True) _).bind fun _ _ => ensures_pure ⟨a.dims, rfl, hform⟩
  · exact ensures_pure ⟨a.dims, rfl, hform⟩

/-- The values for the members of a list all have a property. -/
theorem ensures_traverseMem {catalog : Catalog.Lookup} {α β : Type} {P : β → Prop} {l : List α}
    {f : (a : α) → a ∈ l → Resolving β} (hf : ∀ a h, Ensures catalog (f a h) P) :
    Ensures catalog (traverseMem l f) fun values => ∀ x ∈ values, P x := by
  induction l with
  | nil => exact ensures_pure fun x hx => absurd hx List.not_mem_nil
  | cons a rest ih =>
    unfold traverseMem
    refine (hf a _).bind fun x hx => (ih fun y h => hf y _).bind fun xs hxs => ensures_pure ?_
    intro y hy
    rcases List.mem_cons.mp hy with rfl | hy
    · exact hx
    · exact hxs y hy

/-! ### The conversion -/

/-- A type, resolved. -/
theorem ensures_resolveDomain (t : TypeId) (m : Int32) :
    Ensures b.catalog (resolveDomain b.catalog t m) fun resolved =>
      ∃ mods, StandsFor b.catalog t mods resolved.1 ∧ resolved.2 = inForce mods m :=
  (yields_resolveDomain t m).ensures fun _ h => Catalog.standsFor_resolveDomain h

theorem ensures_tablesAreLeaves (element : TypeId) :
    Ensures b.catalog (tablesAreLeaves b element) fun _ => True :=
  (ensures_resolveDomain element (-1)).bind fun _ _ => ensures_pure trivial

/-- What a conversion answers is a NULL or a value of the type. -/
theorem ensures_convert (ofTuple : RowValue → RowLayout → Resolving RowValue) {v : ScriptValue}
    (hfree : v.TupleFree) (t : TypeId) (m : Int32) :
    Ensures b.catalog (convert b ofTuple v t m) fun r =>
      ∀ d, r = some d → Typed b.catalog d t m := by
  -- the induction is that of the conversion: it goes into the values of a table
  fun_induction convert b ofTuple v t m with
  | case1 =>
    refine ensures_pure fun d heq => ?_
    cases heq
  | case2 entries t m ihArray ihRow =>
    refine (ensures_resolveDomain t m).bind fun resolved hresolved => ?_
    obtain ⟨type, m'⟩ := resolved
    obtain ⟨mods, ht, rfl⟩ := hresolved
    simp only
    split
    next element hkind =>
      -- an array: what is in the slots has been converted for the type of the elements
      refine (ensures_tablesAreLeaves element).bind fun leafTables _ => ?_
      refine (ensures_liftExcept (P := fun _ => True) fun _ _ => trivial).bind fun dims _ => ?_
      split
      · refine ensures_pure fun d heq => ?_
        obtain rfl := Option.some.inj heq
        exact .array ht hkind (.inl ⟨rfl, rfl⟩) fun d hd => absurd hd List.not_mem_nil
      · split
        · exact ensures_throw _
        next count _ =>
          have hplaced : Ensures b.catalog _ fun placed : List (Nat × Option Datum) =>
              ∀ x ∈ placed, ∀ d, x.2 = some d → Typed b.catalog d element (-1) :=
            ensures_traverseMem fun p hp => (ihArray element dims p hp
              (tupleFree_of_placements hfree hp)).bind fun r hr => ensures_pure (a := (p.1, r)) hr
          refine hplaced.bind fun placed hall => ?_
          refine (ensures_arrayOfSlots element dims _).bind fun a ha => ensures_pure fun d heq => ?_
          obtain rfl := Option.some.inj heq
          obtain ⟨dims', rfl, hform⟩ := ha
          refine .array ht hkind hform fun d hd => ?_
          rcases mem_scatter hd with hnull | ⟨x, hx, hvalue⟩
          · cases hnull
          · exact hall x hx d hvalue
    next layout hkind =>
      -- a row: each column has been converted for its own type
      refine Ensures.bind (ensures_mapM (fun a => ?_) _) (P := List.Forall₂
        (fun a r => ∀ d, r = some d → Typed b.catalog d a.typeId a.typeMod) layout.attributes)
        fun values hvalues => ensures_pure fun d heq => ?_
      · split
        next v hfound => exact ihRow a v hfound (tupleFree_of_find? hfree hfound)
        · -- a column that the table does not name is NULL
          refine ensures_pure fun d heq => ?_
          cases heq
      · obtain rfl := Option.some.inj heq
        obtain ⟨hlength, hzip⟩ := List.forall₂_iff_zip.mp hvalues
        exact .row ht hkind hlength.symm fun a d hmem => hzip hmem d rfl
    · exact ensures_liftExcept fun r hr d heq => typed_plainToRelational ht (heq ▸ hr)
  | case3 row t m => cases hfree
  | case4 v t m =>
    refine (ensures_resolveDomain t m).bind fun resolved hresolved => ?_
    obtain ⟨type, m'⟩ := resolved
    obtain ⟨mods, ht, rfl⟩ := hresolved
    exact ensures_liftExcept fun r hr d heq => typed_plainToRelational ht (heq ▸ hr)

/-- Whatever a script hands over for a type, if it is accepted it has become a value of the type, or
a NULL. -/
theorem toRelational_typed {v : ScriptValue} (hfree : v.TupleFree) {t : TypeId} {m : Int32}
    {c : TypeCache} (hc : c.Coherent b.catalog) {d : Datum}
    (h : (toRelational b v t m c).1 = .ok (some d)) : Typed b.catalog d t m := by
  obtain ⟨-, htyped⟩ := ensures_convert (b := b) (retype b) hfree t m c hc
  exact htyped (some d) h d rfl

/-- A catalog with a domain of texts of at most five characters, and rows with such a text and a
list of integers. -/
def noteHost : Host :=
  ((Host.new.defineDomain "word" Scalar.varchar.id (Datum.charTypeMod 5)).2.defineComposite "note"
    [⟨"word", 16384, -1⟩, ⟨"counts", 1007, -1⟩]).2

/-- The conversions over this catalog, with the default options. -/
def noteBorder : Border :=
  { catalog := noteHost.catalog, hasPortal := fun _ => false, options := {} }

/-- A list without a second element. -/
def noteCounts : ScriptValue := .table [(.int 1, .int 7), (.int 3, .int 9)]

/-- A table for such a row, with more spaces than the text may have. -/
def note : ScriptValue := .table [(.text "counts", noteCounts), (.text "word", .ofText "hello  ")]

/-- The row that comes from the table. -/
def noteRow : Datum :=
  .row ⟨⟨16385, [⟨"word", 16384, -1⟩, ⟨"counts", 1007, -1⟩]⟩,
    [some (.text "hello"),
      some (.array ⟨Scalar.int4.id, [⟨3, 1⟩], [some (.int4 7), none, some (.int4 9)]⟩)]⟩

/-- The table becomes a row of its type. -/
theorem toRelational_typed_note :
    (toRelational noteBorder note 16385 (-1) {}).1 = .ok (some noteRow) ∧
      Typed noteBorder.catalog noteRow 16385 (-1) := by
  have hcounts : noteCounts.TupleFree := by
    refine .table fun k v hmem => ?_
    simp only [List.mem_cons, Prod.mk.injEq, List.not_mem_nil, or_false] at hmem
    rcases hmem with ⟨-, rfl⟩ | ⟨-, rfl⟩
    · exact .int 7
    · exact .int 9
  have hfree : note.TupleFree := by
    refine .table fun k v hmem => ?_
    simp only [List.mem_cons, Prod.mk.injEq, List.not_mem_nil, or_false] at hmem
    rcases hmem with ⟨-, rfl⟩ | ⟨-, rfl⟩
    · exact hcounts
    · exact .string _
  have hrow : (toRelational noteBorder note 16385 (-1) {}).1 = .ok (some noteRow) := by cbv
  exact ⟨hrow, toRelational_typed hfree (TypeCache.coherent_empty _) hrow⟩

end Marshal

end StoredRoutine
