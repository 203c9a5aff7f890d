import StoredRoutine.Proofs.Marshal.Forms
import StoredRoutine.Proofs.Marshal.RoundTrip

/-!
# `StoredRoutine.Proofs.Marshal.Retyped`: rows of another layout

A row object that is wanted with other columns is taken apart column by column: each column of the
target takes the script form of the column of its name, and converts that. The same could be done
by hand, with the table that the row as a whole is written to. `toRow_tuple_table` says that it
makes no difference. The table was made before, of all columns, and leaves out those that are NULL;
the row object looks its columns up by position, and makes their script forms one at a time. So the
types are looked up in another order, and computations are compared from caches that are alike
(`SameFrom`).
-/

set_option autoImplicit false

namespace StoredRoutine

/-- The column with the given name: the type it is declared with, and its value. -/
def RowOf.column? {α : Type} (row : RowOf α) (name : String) : Option (TypeId × Option α) :=
  (row.layout.position? name).bind fun i =>
    (row.layout.attributes[i]?).map fun a => (a.typeId, (row.values[i]?).join)

/-- A column that is found stands at some position, under the name that was asked for. -/
theorem RowOf.column?_eq_some {α : Type} {row : RowOf α} {name : String} {source : TypeId}
    {value : Option α} (h : row.column? name = some (source, value)) :
    ∃ (i : Nat) (a : Attribute), row.layout.attributes[i]? = some a ∧ a.name = name ∧
      a.typeId = source ∧ (row.values[i]?).join = value := by
  obtain ⟨i, hi, h⟩ := Option.bind_eq_some_iff.mp h
  obtain ⟨a, ha, heq⟩ := Option.map_eq_some_iff.mp h
  obtain ⟨hsource, hvalue⟩ := Prod.mk.inj heq
  obtain ⟨hlt, hname, -⟩ := List.findIdx?_eq_some_iff_getElem.mp hi
  rw [List.getElem?_eq_getElem hlt] at ha
  obtain rfl := Option.some.inj ha
  exact ⟨i, _, List.getElem?_eq_getElem hlt, eq_of_beq hname, hsource, hvalue⟩

/-- No column is found exactly if none has the name. -/
theorem RowOf.column?_eq_none {α : Type} {row : RowOf α} {name : String} :
    row.column? name = none ↔ name ∉ row.layout.attributes.map (·.name) := by
  constructor
  · rintro h hmem
    obtain ⟨a, ha, rfl⟩ := List.mem_map.mp hmem
    cases hi : row.layout.position? a.name with
    | none =>
      have := List.findIdx?_eq_none_iff.mp hi a ha
      simp at this
    | some i =>
      obtain ⟨hlt, -⟩ := List.findIdx?_eq_some_iff_getElem.mp hi
      simp [column?, hi, List.getElem?_eq_getElem hlt] at h
  · intro h
    have hi : row.layout.position? name = none := by
      refine List.findIdx?_eq_none_iff.mpr fun a ha => ?_
      exact beq_false_of_ne fun heq => h (heq ▸ List.mem_map_of_mem ha)
    rw [column?, hi]
    rfl

namespace Resolving

open TypeCache (Alike)

variable {catalog : Catalog.Lookup} {α β : Type}

/-- The same outcome from all caches that are alike to the given one. -/
def SameFrom (catalog : Catalog.Lookup) (c : TypeCache) (x y : Resolving α) : Prop :=
  ∀ c₁ c₂, Alike catalog c c₁ → Alike catalog c c₂ → (x c₁).1 = (y c₂).1

theorem SameFrom.refl {c : TypeCache} (x : Resolving α) [hx : Transparent catalog x] :
    SameFrom catalog c x x := fun c₁ c₂ h₁ h₂ => hx.same c₁ c₂ (h₁.symm.trans h₂)

theorem SameFrom.bind {c : TypeCache} {x y : Resolving α} {k l : α → Resolving β}
    [hx : Transparent catalog x] [hy : Transparent catalog y] (hxy : SameFrom catalog c x y)
    (hkl : ∀ a, SameFrom catalog c (k a) (l a)) : SameFrom catalog c (x >>= k) (y >>= l) := by
  intro c₁ c₂ h₁ h₂
  have hsame := hxy c₁ c₂ h₁ h₂
  have hleft := h₁.trans (hx.kept c₁)
  have hright := h₂.trans (hy.kept c₂)
  rw [run_bind, run_bind]
  generalize x c₁ = left at hsame hleft ⊢
  generalize y c₂ = right at hsame hright ⊢
  obtain ⟨r, c₁'⟩ := left
  obtain ⟨r', c₂'⟩ := right
  obtain rfl : r = r' := hsame
  cases r with
  | error f => rfl
  | ok a => exact hkl a c₁' c₂' hleft hright

theorem SameFrom.mapM {c : TypeCache} {f g : α → Resolving β} {l : List α}
    [∀ a, Transparent catalog (f a)] [∀ a, Transparent catalog (g a)]
    (h : ∀ a ∈ l, SameFrom catalog c (f a) (g a)) :
    SameFrom catalog c (l.mapM f) (l.mapM g) := by
  induction l with
  | nil => exact fun _ _ _ _ => rfl
  | cons a rest ih =>
    rw [List.mapM_cons, List.mapM_cons]
    exact (h a List.mem_cons_self).bind fun _ =>
      (ih fun x hx => h x (List.mem_cons_of_mem _ hx)).bind fun _ => .refl _

/-- The parts of a traversal that succeeds have succeeded. -/
theorem value_mapM {f : α → Resolving β} {l : List α} {r : List β} {c : TypeCache}
    (h : ((l.mapM f) c).1 = .ok r) : List.Forall₂ (fun a x => ∃ c', (f a c').1 = .ok x) l r := by
  induction l generalizing r c with
  | nil =>
    obtain rfl := Except.ok.inj h
    exact .nil
  | cons a rest ih =>
    rw [List.mapM_cons] at h
    obtain ⟨x, c₁, hx, h⟩ := Marshal.value_bind h
    obtain ⟨xs, c₂, hxs, h⟩ := Marshal.value_bind h
    obtain rfl := Except.ok.inj h
    exact .cons ⟨c, hx⟩ (ih hxs)

/-- What is known to come out of the first part can be put in. -/
theorem SameFrom.of_value {c : TypeCache} {x : Resolving α} {k : α → Resolving β}
    {y : Resolving β} {a : α} [hx : Transparent catalog x]
    (hvalue : ∀ c₁, Alike catalog c c₁ → (x c₁).1 = .ok a) (hky : SameFrom catalog c (k a) y) :
    SameFrom catalog c (x >>= k) y := by
  intro c₁ c₂ h₁ h₂
  have hok := hvalue c₁ h₁
  have hleft := h₁.trans (hx.kept c₁)
  rw [run_bind]
  generalize x c₁ = left at hok hleft ⊢
  obtain ⟨r, c₁'⟩ := left
  obtain rfl : r = .ok a := hok
  exact hky c₁' c₂ hleft h₂

end Resolving

namespace Marshal

open Resolving
open TypeCache (Alike)

variable {b : Border}

/-! ### The table of a row -/

/-- Columns of other names leave an entry alone. -/
theorem find?_columnsToScript_of_notMem {name : String} (attributes : List Attribute)
    (values : List (Option Datum)) {table entries : ScriptTable} {c : TypeCache}
    (h : (columnsToScript b attributes values table c).1 = .ok entries)
    (hname : name ∉ attributes.map (·.name)) :
    ScriptTable.find? (.text name) entries = ScriptTable.find? (.text name) table := by
  induction attributes generalizing values table c with
  | nil =>
    unfold columnsToScript at h
    rw [Except.ok.inj h]
  | cons a rest ih =>
    rw [List.map_cons, List.mem_cons, not_or] at hname
    obtain ⟨hne, hrest⟩ := hname
    match values with
    | [] =>
      unfold columnsToScript at h
      rw [Except.ok.inj h]
    | none :: values =>
      unfold columnsToScript at h
      exact ih values h hrest
    | some d :: values =>
      unfold columnsToScript at h
      obtain ⟨v, c', -, h⟩ := value_bind h
      rw [ih values h hrest, ScriptTable.find?_insert,
        if_neg fun heq => hne (ScriptKey.text.inj heq)]

/-- Under the name of each column stands the script form of its value, and nothing if it is NULL. -/
theorem find?_columnsToScript (attributes : List Attribute) (values : List (Option Datum))
    {table entries : ScriptTable} {c : TypeCache}
    (h : (columnsToScript b attributes values table c).1 = .ok entries)
    (hnames : (attributes.map (·.name)).Nodup)
    (hfree : ∀ a ∈ attributes, ScriptTable.find? (.text a.name) table = none) {i : Nat}
    {a : Attribute} (hi : attributes[i]? = some a) {c₁ : TypeCache} (hc : Alike b.catalog c c₁) :
    (optionToScript b (values[i]?).join a.typeId c₁).1 =
      .ok ((ScriptTable.find? (.text a.name) entries).getD .nil) := by
  -- what is entered later has other names, so the entry of a column stays
  induction attributes generalizing values table c i with
  | nil => exact nomatch hi
  | cons a' rest ih =>
    rw [List.map_cons, List.nodup_cons] at hnames
    obtain ⟨hfirst, hrest⟩ := hnames
    match values with
    | [] =>
      unfold columnsToScript at h
      obtain rfl := Except.ok.inj h
      rw [hfree a (List.mem_of_getElem? hi)]
      rfl
    | none :: values =>
      unfold columnsToScript at h
      have htable := fun a ha => hfree a (List.mem_cons_of_mem _ ha)
      cases i with
      | zero =>
        obtain rfl := Option.some.inj hi
        rw [find?_columnsToScript_of_notMem rest values h hfirst, hfree a' List.mem_cons_self]
        rfl
      | succ i => exact ih values h hrest htable hi hc
    | some d :: values =>
      unfold columnsToScript at h
      rw [run_bind] at h
      have hsame := (transparent_toScript (b := b) d a'.typeId).same c c₁
      have hkept := (transparent_toScript (b := b) d a'.typeId).kept c
      generalize toScript b d a'.typeId c = done at h hsame hkept
      obtain ⟨f | v, c'⟩ := done
      · exact nomatch h
      cases i with
      | zero =>
        obtain rfl := Option.some.inj hi
        rw [find?_columnsToScript_of_notMem rest values h hfirst, ScriptTable.find?_insert,
          if_pos rfl]
        exact (hsame hc).symm
      | succ i =>
        refine ih values h hrest (fun x hx => ?_) hi (hkept.symm.trans hc)
        rw [ScriptTable.find?_insert, if_neg fun heq => hfirst ?_]
        · exact hfree x (List.mem_cons_of_mem _ hx)
        · rw [← ScriptKey.text.inj heq]
          exact List.mem_map_of_mem hx

/-! ### One column -/

/-- What a column of the target takes from a column of the source. -/
def takeColumn (b : Border) (a : Attribute) :
    Option (TypeId × Option Datum) → Resolving (Option Datum)
  | none => pure none
  | some (source, d) => do
    let script ← optionToScript b d source
    convert b (fun _ _ => throw (.internal "row object inside a script form")) script a.typeId
      a.typeMod

instance (a : Attribute) (source : Option (TypeId × Option Datum)) :
    Transparent b.catalog (takeColumn b a source) := by
  unfold takeColumn
  split
  · infer_instance
  · exact @Resolving.transparent_bind _ _ _ _ _ inferInstance fun script =>
      transparent_convert _ _ _

/-- A row of other columns is converted column by column. -/
theorem retype_of_ne {row : RowValue} {layout : RowLayout}
    (hne : row.layout.attributes ≠ layout.attributes) :
    retype b row layout =
      (layout.attributes.mapM fun a => takeColumn b a (row.column? a.name)) >>= fun values =>
        pure ⟨layout, values⟩ := by
  unfold retype
  rw [if_neg hne]
  congr 2
  funext a
  unfold RowOf.column?
  cases hi : row.layout.position? a.name with
  | none => rfl
  | some i =>
    obtain ⟨hlt, -⟩ := List.findIdx?_eq_some_iff_getElem.mp hi
    simp only [Option.bind_some, List.getElem?_eq_getElem hlt, Option.map_some, Option.getD_some]
    rfl

/-- A table is converted column by column; what is missing counts as nil. -/
theorem toRow_table (entries : ScriptTable) (layout : RowLayout) :
    toRow b (.table entries) layout =
      (layout.attributes.mapM fun a => toRelational b
        ((ScriptTable.find? (.text a.name) entries).getD .nil) a.typeId a.typeMod) >>= fun values =>
        pure ⟨layout, values⟩ := by
  unfold toRow
  dsimp only
  congr 2
  funext a
  cases ScriptTable.find? (.text a.name) entries with
  | none =>
    unfold toRelational convert
    rfl
  | some v => rfl

/-- The row of a table has exactly the columns of the layout, and NULL in those that the table has
no entry for. -/
theorem value_toRow_table {entries : ScriptTable} {layout : RowLayout} {c : TypeCache}
    {row : RowValue} (h : (toRow b (.table entries) layout c).1 = .ok row) :
    row.layout = layout ∧ row.values.length = layout.attributes.length ∧
      ∀ (i : Nat) (a : Attribute), layout.attributes[i]? = some a →
        ScriptTable.find? (.text a.name) entries = none → row.values[i]? = some none := by
  rw [toRow_table] at h
  obtain ⟨values, c₁, hvalues, h⟩ := value_bind h
  obtain rfl := Except.ok.inj h
  have hall := value_mapM hvalues
  refine ⟨rfl, hall.length_eq.symm, fun i a hi hfind => ?_⟩
  obtain ⟨hlt, rfl⟩ := List.getElem?_eq_some_iff.mp hi
  have hlt' : i < values.length := hall.length_eq ▸ hlt
  obtain ⟨c₂, hvalue⟩ := (List.forall₂_iff_get.mp hall).2 i hlt hlt'
  rw [List.get_eq_getElem, hfind, Option.getD_none] at hvalue
  unfold toRelational convert at hvalue
  rw [List.getElem?_eq_getElem hlt']
  exact congrArg some (Except.ok.inj hvalue).symm

/-- The script form of a value, or nil for NULL, holds no row object. -/
theorem tupleFree_optionToScript {d : Option Datum} {id : TypeId} {c : TypeCache}
    {v : ScriptValue} (h : (optionToScript b d id c).1 = .ok v) : v.TupleFree := by
  cases d with
  | none =>
    obtain rfl := Except.ok.inj h
    exact .nil
  | some d => exact (formOf_toScript d h).tupleFree

/-- Each column takes the same from the row as from the table that was made of the row. -/
theorem sameFrom_takeColumn {row : RowValue} (hnames : (row.layout.attributes.map (·.name)).Nodup)
    {entries : ScriptTable} {c : TypeCache}
    (htable : (columnsToScript b row.layout.attributes row.values [] c).1 = .ok entries)
    (a : Attribute) :
    SameFrom b.catalog c (takeColumn b a (row.column? a.name))
      (toRelational b ((ScriptTable.find? (.text a.name) entries).getD .nil) a.typeId
        a.typeMod) := by
  cases hcolumn : row.column? a.name with
  | none =>
    have hfind : ScriptTable.find? (.text a.name) entries = none :=
      find?_columnsToScript_of_notMem row.layout.attributes row.values htable
        (RowOf.column?_eq_none.mp hcolumn)
    rw [hfind]
    unfold toRelational convert
    exact .refl _
  | some found =>
    obtain ⟨source, d⟩ := found
    obtain ⟨i, a', hi, hname, rfl, rfl⟩ := RowOf.column?_eq_some hcolumn
    have hform : ∀ c₁, Alike b.catalog c c₁ →
        (optionToScript b (row.values[i]?).join a'.typeId c₁).1 =
          .ok ((ScriptTable.find? (.text a'.name) entries).getD .nil) := fun c₁ hc =>
      find?_columnsToScript row.layout.attributes row.values htable hnames (fun _ _ => rfl) hi hc
    rw [hname] at hform
    refine .of_value hform ?_
    rw [convert_tupleFree (tupleFree_optionToScript (hform c (.refl _ c))) a.typeId a.typeMod]
    exact .refl (toRelational b _ a.typeId a.typeMod)

/-! ### The row -/

/-- Take a row whose columns have different names, and a layout with other columns. If the table of
the row can be made, the row object and the table convert to the layout with the same outcome: the
same row, or the same failure. A row has exactly the columns of the layout, and NULL in those that
the source does not have; columns of the source that the layout does not have make no difference,
and neither do keys of the table. -/
theorem toRow_tuple_table (b : Border) (row : RowValue) (layout : RowLayout)
    (hnames : (row.layout.attributes.map (·.name)).Nodup)
    (hne : row.layout.attributes ≠ layout.attributes) {entries : ScriptTable} {c c' : TypeCache}
    (htable : columnsToScript b row.layout.attributes row.values [] c = (.ok entries, c')) :
    Alike b.catalog c c' ∧ ∃ r : Outcome RowValue,
      (∀ c₁, Alike b.catalog c c₁ → (toRow b (.tuple (some row)) layout c₁).1 = r ∧
        (toRow b (.table entries) layout c₁).1 = r) ∧
      (∀ result, r = .ok result → result.layout = layout ∧
        result.values.length = layout.attributes.length ∧
        ∀ (i : Nat) (a : Attribute), layout.attributes[i]? = some a →
          a.name ∉ row.layout.attributes.map (·.name) → result.values[i]? = some none) ∧
      (∀ row' : RowValue, row'.layout.attributes ≠ layout.attributes →
        (∀ a ∈ layout.attributes, row'.column? a.name = row.column? a.name) →
        ∀ c₁, Alike b.catalog c c₁ → (toRow b (.tuple (some row')) layout c₁).1 = r) ∧
      ∀ entries' : ScriptTable,
        (∀ a ∈ layout.attributes, ScriptTable.find? (.text a.name) entries' =
          ScriptTable.find? (.text a.name) entries) →
        ∀ c₁, Alike b.catalog c c₁ → (toRow b (.table entries') layout c₁).1 = r := by
  have hkept := (transparent_columnsToScript (b := b) row.layout.attributes row.values []).kept c
  have hentries := congrArg (·.1) htable
  rw [htable] at hkept
  -- both are the same monadic map over the columns of the layout, and the steps agree
  have htuple : ∀ (row : RowValue), toRow b (.tuple (some row)) layout = retype b row layout :=
    fun _ => rfl
  refine ⟨hkept, (toRow b (.table entries) layout c).1, fun c₁ hc => ⟨?_, ?_⟩, ?_, ?_, ?_⟩
  · rw [htuple, retype_of_ne hne, toRow_table]
    exact (SameFrom.mapM fun a _ => sameFrom_takeColumn hnames hentries a).bind (fun _ => .refl _)
      c₁ c hc (.refl _ c)
  · rw [toRow_table]
    exact SameFrom.refl _ c₁ c hc (.refl _ c)
  · intro result hresult
    obtain ⟨hlayout, hlength, hnull⟩ := value_toRow_table hresult
    exact ⟨hlayout, hlength, fun i a hi hname => hnull i a hi
      (find?_columnsToScript_of_notMem row.layout.attributes row.values hentries hname)⟩
  · intro row' hne' hsame c₁ hc
    rw [htuple, retype_of_ne hne', toRow_table]
    refine (SameFrom.mapM fun a ha => ?_).bind (fun _ => .refl _) c₁ c hc (.refl _ c)
    rw [hsame a ha]
    exact sameFrom_takeColumn hnames hentries a
  · intro entries' hsame c₁ hc
    rw [toRow_table, toRow_table]
    refine (SameFrom.mapM fun a ha => ?_).bind (fun _ => .refl _) c₁ c hc (.refl _ c)
    rw [hsame a ha]
    exact .refl _

/-- A row with a number, a text, and a column that is NULL. -/
def draftRow : RowValue :=
  ⟨.anonymous [⟨"count", Scalar.int4.id, -1⟩, ⟨"title", Scalar.text.id, -1⟩,
      ⟨"note", Scalar.text.id, -1⟩],
    [some (.int4 7), some (.text "a"), none]⟩

/-- Its columns without the text, in another order and with other types, and one more. -/
def reviewLayout : RowLayout :=
  .anonymous [⟨"note", Scalar.int4.id, -1⟩, ⟨"grade", Scalar.bool.id, -1⟩,
    ⟨"count", Scalar.int8.id, -1⟩]

/-- The number arrives in its new place and type. -/
theorem toRow_draftRow :
    ∃ entries c, columnsToScript gridBorder draftRow.layout.attributes draftRow.values [] {} =
        (.ok entries, c) ∧
      (toRow gridBorder (.tuple (some draftRow)) reviewLayout c).1 =
        (toRow gridBorder (.table entries) reviewLayout c).1 ∧
      (toRow gridBorder (.table entries) reviewLayout c).1 =
        .ok ⟨reviewLayout, [none, none, some (.int8 7)]⟩ := by
  let entries : ScriptTable := [(.text "count", .int 7), (.text "title", .ofText "a")]
  obtain ⟨c, hscript⟩ : ∃ c, columnsToScript gridBorder draftRow.layout.attributes draftRow.values
      [] {} = (.ok entries, c) := ⟨_, rfl⟩
  obtain ⟨hkept, r, hboth, -⟩ := toRow_tuple_table gridBorder draftRow reviewLayout (by decide)
    (by decide) hscript
  obtain ⟨htuple, htable⟩ := hboth c hkept
  refine ⟨entries, c, hscript, htuple.trans htable.symm, ?_⟩
  obtain rfl := (Prod.mk.inj hscript).2
  cbv

end Marshal

end StoredRoutine
