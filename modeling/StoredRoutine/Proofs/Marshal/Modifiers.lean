import StoredRoutine.Proofs.Marshal.Tables

/-!
# `StoredRoutine.Proofs.Marshal.Modifiers`: type modifiers of arrays

A conversion is given a type modifier, and domains on the way to the type add their own. For a
scalar the modifier that is in force in the end limits the value. For an array it is dropped: the
elements are converted without one. So `varchar(3)[]` and `varchar[]` accept the same
(`toRelational_array_typeMod`), whether the modifier is given directly, comes from a domain over the
array type or from the declaration of a column. Only the modifiers of domains below the array, over
the type of its elements, are in force.
-/

set_option autoImplicit false

namespace StoredRoutine.Marshal

open Datum (IsBase)
open Resolving

variable {b : Border} {element t : TypeId} {type etype : TypeDescriptor} {m m' em : Int32}

/-- What a value is converted to at an array type: there is no modifier in it but that of the
elements. -/
def arrayOutcome (b : Border) (element : TypeId) (etype : TypeDescriptor) (em : Int32) :
    ScriptValue → Outcome (Option Datum)
  | .nil => .ok none
  | .table entries => tableOutcome b element etype em entries
  | v => .error (.conversion s!"cannot convert {v.typeName} to an array")

/-- A value is converted at an array type by the type alone. -/
theorem yields_convert_array (henum : EnumsApart b)
    (hresolve : Catalog.resolveDomain b.catalog t m = .ok (type, m'))
    (hkind : type.kind = .array element)
    (helement : Catalog.resolveDomain b.catalog element (-1) = .ok (etype, em))
    (hplain : Plain etype) (ofTuple : RowValue → RowLayout → Resolving RowValue) (v : ScriptValue) :
    Yields b.catalog (convert b ofTuple v t m) (arrayOutcome b element etype em v) := by
  have hrefused : ∀ v : ScriptValue, plainToRelational v type m' =
      .error (.conversion s!"cannot convert {v.typeName} to an array") := by
    intro v
    unfold plainToRelational
    rw [hkind]
  cases v with
  | nil =>
    unfold convert
    exact yields_pure none
  | table entries => exact yields_convert_table henum hresolve hkind helement hplain ofTuple entries
  | tuple row =>
    unfold convert
    refine (yields_resolved hresolve).bind ?_
    simp only [hkind, reduceCtorEq, false_and, if_false, hrefused]
    exact yields_liftExcept _
  | _ =>
    simp only [arrayOutcome, ← hrefused]
    exact yields_convert_plain hresolve (by simp) ofTuple

/-- The elements of an array are values of the element type, within the modifier that the type of
the elements brings along. -/
theorem isBase_of_arrayOutcome (hbase : etype.kind = .base) {v : ScriptValue} {a : ArrayValue}
    (h : arrayOutcome b element etype em v = .ok (some (.array a))) {x : Datum}
    (hx : some x ∈ a.elements) : IsBase em (Scalar.ofId? etype.id) x := by
  cases v with
  | table entries =>
    rcases tableOutcome_ok h with ⟨-, ha⟩ | ⟨dims, placed, -, -, hplaced, ha⟩
    · obtain rfl := Datum.array.inj (Option.some.inj ha)
      exact absurd hx List.not_mem_nil
    · obtain rfl := Datum.array.inj (Option.some.inj ha)
      rcases mem_scatter hx with hnull | ⟨q, hq, hvalue⟩
      · exact nomatch hnull
      · obtain ⟨p, -, -, hp⟩ := exists_of_forall₂ (List.Forall₂.flip hplaced) hq
        rw [hvalue] at hp
        -- what is not NULL was converted as a scalar
        have hscalar : plainToRelational p.2 etype em = .ok (some x) := by
          cases hv : p.2 with
          | nil =>
            rw [hv] at hp
            exact nomatch Except.ok.inj hp
          | _ =>
            rw [hv] at hp
            exact hp
        unfold plainToRelational at hscalar
        simp only [hbase] at hscalar
        obtain ⟨y, hy, heq⟩ := Datum.ok_of_map_eq_ok hscalar
        obtain rfl := Option.some.inj heq
        exact isBase_scalarToRelational hbase hy
  | nil => exact nomatch Except.ok.inj h
  | _ => exact nomatch h

/-- In the catalog of a host, take two types that both stand for the arrays of one type of scalars
or enums. Whatever their domains and the modifiers they are given with, a script value is converted
to the same at both. The elements that are not NULL fit the modifier of the type of the elements; a
modifier given for the array does not reach them. -/
theorem toRelational_array_typeMod {h : Host} (hdefined : h.Defined) (b : Border)
    (hcatalog : b.catalog = h.catalog) {element t t' : TypeId} {m m' n n' em : Int32}
    {type etype : TypeDescriptor}
    (hresolve : Catalog.resolveDomain b.catalog t m = .ok (type, n))
    (hresolve' : Catalog.resolveDomain b.catalog t' m' = .ok (type, n'))
    (hkind : type.kind = .array element)
    (helement : Catalog.resolveDomain b.catalog element (-1) = .ok (etype, em))
    (hplain : Plain etype) (v : ScriptValue) (c : TypeCache) (hc : c.Coherent b.catalog) :
    (toRelational b v t m c).1 = (toRelational b v t' m' c).1 ∧
    ∀ a, (toRelational b v t m c).1 = .ok (some (.array a)) → etype.kind = .base →
      ∀ x, some x ∈ a.elements → IsBase em (Scalar.ofId? etype.id) x := by
  have henum := enumsApart_of_defined hdefined hcatalog
  obtain ⟨c₁, hfirst, -⟩ :=
    yields_convert_array henum hresolve hkind helement hplain (retype b) v c hc
  obtain ⟨c₂, hsecond, -⟩ :=
    yields_convert_array henum hresolve' hkind helement hplain (retype b) v c hc
  have hfirst : (toRelational b v t m c).1 = arrayOutcome b element etype em v :=
    congrArg Prod.fst hfirst
  have hsecond : (toRelational b v t' m' c).1 = arrayOutcome b element etype em v :=
    congrArg Prod.fst hsecond
  rw [hfirst, hsecond]
  exact ⟨rfl, fun a ha hbase x hx => isBase_of_arrayOutcome hbase ha hx⟩

/-- A catalog with a domain over the arrays of texts that declares at most three characters. -/
def codesHost : Host := (Host.new.defineDomain "codes" 1015 (Datum.charTypeMod 3)).2

/-- The conversions over this catalog, with the default options. -/
def codesBorder : Border :=
  { catalog := codesHost.catalog, hasPortal := fun _ => false, options := {} }

/-- A list with one text of seven characters. -/
def longCodes : ScriptValue := .table [(.int 1, .ofText "toolong")]

/-- The domain accepts what the arrays accept. -/
theorem toRelational_array_typeMod_codes :
    (toRelational codesBorder longCodes 16384 (-1) {}).1 =
      (toRelational codesBorder longCodes 1015 (-1) {}).1 ∧
    ∀ a, (toRelational codesBorder longCodes 16384 (-1) {}).1 = .ok (some (.array a)) →
      ∀ x, some x ∈ a.elements → IsBase (-1) (some .varchar) x := by
  have hdefined : codesHost.Defined := .domain .new (by decide) _ _ _
  obtain ⟨hsame, helements⟩ := toRelational_array_typeMod hdefined codesBorder rfl (t := 16384)
    (m := -1) rfl (show Catalog.resolveDomain codesBorder.catalog 1015 (-1) = .ok (_, -1) from rfl)
    rfl rfl (Or.inl ⟨rfl, .varchar, rfl, by decide⟩) longCodes {} (TypeCache.coherent_empty _)
  exact ⟨hsame, fun a ha x hx => helements a ha rfl x hx⟩

/-- Given a modifier of three characters, an array of texts takes a text that the input of its
elements refuses under this modifier. -/
theorem array_modifier_dropped :
    (∃ a, (toRelational builtinBorder longCodes 1015 (Datum.charTypeMod 3) {}).1 =
        .ok (some (.array a)) ∧ some (.text "toolong") ∈ a.elements) ∧
      Datum.varcharOfText "toolong" (Datum.charTypeMod 3) =
        .error (.conversion "value too long for type character varying(3)") := by
  refine ⟨⟨⟨Scalar.varchar.id, [⟨1, 1⟩], [some (.text "toolong")]⟩, by cbv, ?_⟩, by decide⟩
  exact List.mem_cons_self

end StoredRoutine.Marshal
