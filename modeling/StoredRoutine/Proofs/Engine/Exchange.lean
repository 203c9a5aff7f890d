import StoredRoutine.Engine.Exchange
import StoredRoutine.Proofs.Marshal.Limits
import StoredRoutine.Proofs.Marshal.Nils
import StoredRoutine.Proofs.Script.Layout

/-!
# `StoredRoutine.Proofs.Engine.Exchange`: what scripts are handed comes back without its nils

The form of an argument becomes a value of a script, for which tables and cursors are made in the
engine, and what a script returns is read back. `Engine.Presents` says what is read of a value, and
`Engine.Pushed` that a form presents itself in every later state in which what was made for it is
left (`Engine.Leaves`). This follows by induction on the form (`Engine.pushed`). The step for a
table has two halves: a table with room for its entries holds all of them that are not nil
(`Table.pairs_enter`), and entries read in any order are put in the order of their keys
(`ScriptTable.ofEntries_eq_of_perm`). For doubles it matters that only one of them is no number
(`Number.eq_of_isNaN`).

`Engine.ofValue_ofDatum` puts this together with what `Proofs.Marshal.Nils` says of script forms.
-/

set_option autoImplicit false

namespace StoredRoutine

open Script (Heap Key Number Table TableId Value)

/-! ### Doubles that are no number -/

namespace Script.Number

open Float.Model

/-- There is one representation of what is no number. -/
theorem toBits_of_isNaN {x : Float} (h : x.isNaN = true) :
    x.toModel.toBits.toBitVec = UnpackedFloat.packedNaN Format.binary64 := by
  have hunpack :
      UnpackedFloat.unpack Format.binary64 x.toModel.toBits.toBitVec = .notANumber := by
    have h : (UnpackedFloat.unpack Format.binary64 x.toModel.toBits.toBitVec).isNaN = true := h
    cases hvalue : UnpackedFloat.unpack Format.binary64 x.toModel.toBits.toBitVec with
    | notANumber => rfl
    | _ =>
      rw [hvalue] at h
      exact nomatch h
  unfold UnpackedFloat.unpack at hunpack
  dsimp only at hunpack
  split_ifs at hunpack with hexponent hmantissa
  exact x.toModel.valid.eq_packedNaN hexponent hmantissa

theorem eq_of_isNaN {x y : Float} (hx : x.isNaN = true) (hy : y.isNaN = true) : x = y := by
  have hbits : x.toModel.toBits = y.toModel.toBits :=
    UInt64.toBitVec_inj.mp ((toBits_of_isNaN hx).trans (toBits_of_isNaN hy).symm)
  obtain ⟨⟨bits, valid⟩⟩ := x
  obtain ⟨⟨bits', valid'⟩⟩ := y
  obtain rfl : bits = bits' := hbits
  rfl

/-- A double that became a number of a script is that double again. -/
theorem toFloat_ofFloat (x : Float) : (ofFloat x).toFloat = x := by
  unfold ofFloat
  split
  next hnan => exact eq_of_isNaN (by decide) hnan
  · rfl

end Script.Number

/-! ### Keys -/

/-- The key of a running script's table. -/
def ScriptKey.tableKey : ScriptKey → Key
  | .int n => .int n
  | .text s => .ofText s

theorem ScriptKey.keyOf_tableKey (k : ScriptKey) : Engine.keyOf k.tableKey.value = .ok k := by
  cases k with
  | int n => rfl
  | text s =>
    have htext : String.fromUTF8? s.toUTF8 = some s := ScriptValue.text?_ofText s
    show Engine.keyOf (.string s.toUTF8) = _
    unfold Engine.keyOf
    dsimp only
    rw [htext]

theorem ScriptKey.tableKey_injective : Function.Injective ScriptKey.tableKey := by
  intro k k' h
  have heq : (Except.ok k : Outcome ScriptKey) = .ok k' := by
    rw [← keyOf_tableKey k, ← keyOf_tableKey k', h]
  exact Except.ok.inj heq

namespace Engine

variable {e e' e'' e₁ e₂ : Engine} {v : ScriptValue} {w : Value}

/-! ### What is made and what is left of it -/

/-- Tables and objects were added. -/
structure Extends (e e' : Engine) : Prop where
  options : e'.options = e.options
  tables : ∃ more, e'.heap.tables = e.heap.tables ++ more
  objects : ∃ more, e'.objects = e.objects ++ more

theorem Extends.refl (e : Engine) : e.Extends e :=
  ⟨rfl, ⟨#[], Array.append_empty.symm⟩, ⟨#[], Array.append_empty.symm⟩⟩

theorem Extends.trans (h : e.Extends e') (h' : e'.Extends e'') : e.Extends e'' := by
  obtain ⟨tables, htables⟩ := h.tables
  obtain ⟨tables', htables'⟩ := h'.tables
  obtain ⟨objects, hobjects⟩ := h.objects
  obtain ⟨objects', hobjects'⟩ := h'.objects
  refine ⟨h'.options.trans h.options, ⟨tables ++ tables', ?_⟩, ⟨objects ++ objects', ?_⟩⟩
  · rw [htables', htables, Array.append_assoc]
  · rw [hobjects', hobjects, Array.append_assoc]

theorem Extends.size_tables (h : e.Extends e') : e.heap.tables.size ≤ e'.heap.tables.size := by
  obtain ⟨more, hmore⟩ := h.tables
  rw [hmore, Array.size_append]
  exact Nat.le_add_right _ _

theorem Extends.size_objects (h : e.Extends e') : e.objects.size ≤ e'.objects.size := by
  obtain ⟨more, hmore⟩ := h.objects
  rw [hmore, Array.size_append]
  exact Nat.le_add_right _ _

theorem Extends.table (h : e.Extends e') {i : Nat} (hi : i < e.heap.tables.size) :
    e'.heap.table ⟨i⟩ = e.heap.table ⟨i⟩ := by
  obtain ⟨more, hmore⟩ := h.tables
  unfold Heap.table
  rw [hmore, Array.getD_eq_getD_getElem?, Array.getD_eq_getD_getElem?,
    Array.getElem?_append_left hi]

theorem Extends.object (h : e.Extends e') {i : Nat} (hi : i < e.objects.size) :
    e'.objects[i]? = e.objects[i]? := by
  obtain ⟨more, hmore⟩ := h.objects
  rw [hmore, Array.getElem?_append_left hi]

/-- What was made between two states is left in a third one as scripts see it: tables hold what they
held, in whatever order they are traversed now, and cursors are for the same portals. -/
structure Leaves (e e' e'' : Engine) : Prop where
  options : e''.options = e.options
  tables : ∀ i, e.heap.tables.size ≤ i → i < e'.heap.tables.size →
    (e''.heap.table ⟨i⟩).pairs.Perm (e'.heap.table ⟨i⟩).pairs
  cursors : ∀ i c, e.objects.size ≤ i → e'.objects[i]? = some (.cursor c) →
    ∃ c', e''.objects[i]? = some (.cursor c') ∧ c'.name = c.name

/-- Nothing has happened to it at once. -/
theorem Leaves.refl (h : e.Extends e') : e.Leaves e' e' :=
  ⟨h.options, fun _ _ _ => .refl _, fun _ c _ hc => ⟨c, hc, rfl⟩⟩

theorem Leaves.left (h : e.Leaves e₂ e'') (h₂ : e₁.Extends e₂) :
    e.Leaves e₁ e'' where
  options := h.options
  tables i hfrom hto := by
    rw [← h₂.table hto]
    exact h.tables i hfrom (Nat.lt_of_lt_of_le hto h₂.size_tables)
  cursors i c hfrom hc := by
    obtain ⟨hto, -⟩ := Array.getElem?_eq_some_iff.mp hc
    exact h.cursors i c hfrom ((h₂.object hto).trans hc)

theorem Leaves.right (h : e.Leaves e₂ e'') (h₁ : e.Extends e₁) : e₁.Leaves e₂ e'' where
  options := h.options.trans h₁.options.symm
  tables i hfrom := h.tables i (h₁.size_tables.trans hfrom)
  cursors i c hfrom := h.cursors i c (h₁.size_objects.trans hfrom)

/-! ### What a value of a script presents -/

/-- A value of a script is read back as a value without its nils, as long as tables are not nested
too deep. -/
structure Presents (e : Engine) (v : ScriptValue) (w : Value) : Prop where
  isNil : w.isNil = v.isNil
  read : ∀ n, v.NestedIn n → e.readValue n w = .ok v.dropNils

/-- Handed to a script, a value presents itself as long as what was made for it is left alone. -/
def Pushed (v : ScriptValue) : Prop := ∀ e : Engine, ∃ w e', Serving.toValue v e = (.ok w, e') ∧
  e.Extends e' ∧ ∀ e'', e.Leaves e' e'' → e''.Presents v w

/-- A value that is the same everywhere. -/
theorem pushed_pure (hpush : Serving.toValue v = pure w) (hv : v.isTable = false)
    (hnil : w.isNil = v.isNil) (hread : ∀ (e : Engine) n, e.readValue n w = .ok v) : Pushed v :=
  fun e => ⟨w, e, by rw [hpush]; rfl, .refl e, fun e'' _ =>
    ⟨hnil, fun n _ => by rw [hread, ScriptValue.dropNils_plain hv]⟩⟩

theorem readValue_ofFloat (e : Engine) (n : Nat) (x : Float) :
    e.readValue n (.number (.ofFloat x)) = .ok (.number x) := by
  have hback := Script.Number.toFloat_ofFloat x
  cases hx : Number.ofFloat x with
  | int i =>
    unfold Number.ofFloat at hx
    split at hx <;> exact nomatch hx
  | float y =>
    rw [hx] at hback
    obtain rfl : y = x := hback
    cases n <;> rfl
  | nan negative =>
    rw [hx] at hback
    rw [← hback]
    cases n <;> rfl

theorem pushed_cursor (name : String) : Pushed (.cursor name) := by
  intro e
  let registered := e.cleanups.register (.closeCursor ⟨e.objects.size⟩)
  let made : Cursor := { name, cleanup := some registered.1 }
  let e' : Engine := { e with cleanups := registered.2, objects := e.objects.push (.cursor made) }
  have hpush : Serving.toValue (.cursor name) e =
      (.ok (.object .cursor ⟨e.objects.size⟩), e') := rfl
  refine ⟨_, e', hpush, ⟨rfl, ⟨#[], Array.append_empty.symm⟩, ⟨#[.cursor made], rfl⟩⟩,
    fun e'' h => ⟨rfl, fun n _ => ?_⟩⟩
  obtain ⟨c, hc, hname⟩ := h.cursors e.objects.size made (Nat.le_refl _)
    Array.getElem?_push_size
  have hobject : e''.object? ⟨e.objects.size⟩ = some (.cursor c) := hc
  cases n <;>
  · unfold readValue
    rw [hobject, ScriptValue.dropNils_plain rfl]
    exact congrArg (fun n => Except.ok (ScriptValue.cursor n)) hname

/-! ### Tables -/

/-- An entry of a running script's table presents an entry. -/
def PresentsEntry (e : Engine) (entry : ScriptKey × ScriptValue) (made : Key × Value) : Prop :=
  made.1 = entry.1.tableKey ∧ e.Presents entry.2 made.2

theorem toTable_cons (key : ScriptKey) (v : ScriptValue) (rest : List (ScriptKey × ScriptValue))
    (t : Table) : Serving.toTable ((key, v) :: rest) t =
      (Serving.toValue v >>= fun w => Serving.toTable rest (t.setKey key.tableKey w)) := by
  cases key <;> rfl

/-- The entries of a table are entered one after the other. -/
theorem entered_toTable {entries : List (ScriptKey × ScriptValue)}
    (h : ∀ k v, (k, v) ∈ entries → Pushed v) (t : Table) (e : Engine) :
    ∃ made e', Serving.toTable entries t e = (.ok (t.enter made), e') ∧ e.Extends e' ∧
      ∀ e'', e.Leaves e' e'' → List.Forall₂ e''.PresentsEntry entries made := by
  induction entries generalizing t e with
  | nil => exact ⟨[], e, rfl, .refl e, fun _ _ => .nil⟩
  | cons entry rest ih =>
    obtain ⟨key, v⟩ := entry
    obtain ⟨w, e₁, hpush, hextends, hpresents⟩ := h key v List.mem_cons_self e
    obtain ⟨made, e₂, hrest, hextends', hentries⟩ :=
      ih (fun k v hmem => h k v (List.mem_cons_of_mem _ hmem)) (t.setKey key.tableKey w) e₁
    refine ⟨(key.tableKey, w) :: made, e₂, ?_, hextends.trans hextends', fun e'' hleft =>
      .cons ⟨rfl, hpresents e'' (hleft.left hextends')⟩
        (hentries e'' (hleft.right hextends))⟩
    rw [toTable_cons, run_bind, hpush]
    exact hrest

/-- Reads an entry in whose value tables are nested at most so many levels deep. -/
def readEntry (e : Engine) (n : Nat) (pair : Value × Value) :
    Outcome (ScriptKey × ScriptValue) := do
  let key ← keyOf pair.1
  let value ← e.readValue n pair.2
  return (key, value)

theorem readValue_table {n : Nat} {id : TableId} {read : List (ScriptKey × ScriptValue)}
    (h : (e.heap.table id).pairs.map (e.readEntry n) = read.map .ok) :
    e.readValue (n + 1) (.table id) = .ok (.table (ScriptTable.ofEntries read)) := by
  have hfold : ∀ (pairs : List (Value × Value)) (read : List (ScriptKey × ScriptValue))
      (t : ScriptTable), pairs.map (e.readEntry n) = read.map .ok →
      pairs.foldlM (fun (entries : ScriptTable) entry => do
        let key ← keyOf entry.1
        let value ← e.readValue n entry.2
        return entries.insert key value) t =
      .ok (read.foldl (fun t e => t.insert e.1 e.2) t) := by
    intro pairs
    induction pairs with
    | nil =>
      intro read t heq
      obtain rfl := List.map_eq_nil_iff.mp heq.symm
      rfl
    | cons pair pairs ih =>
      intro read t heq
      obtain ⟨entry, rest, rfl, hfirst, hrest⟩ := List.map_eq_cons_iff.mp heq.symm
      obtain ⟨key, hkey, hpair⟩ := Datum.ok_of_bind_eq_ok hfirst.symm
      obtain ⟨value, hvalue, hentry⟩ := Datum.ok_of_bind_eq_ok hpair
      obtain rfl := Except.ok.inj hentry
      rw [List.foldlM_cons, hkey, hvalue]
      exact ih rest _ hrest.symm
  unfold readValue
  rw [hfold _ _ _ h]
  rfl

/-- The entries that are not nil are read back as they were without their nils. -/
theorem map_readEntry {n : Nat} {entries : List (ScriptKey × ScriptValue)}
    {made : List (Key × Value)} (h : List.Forall₂ e.PresentsEntry entries made)
    (hnested : ∀ k v, (k, v) ∈ entries → v.NestedIn n) :
    ((made.filter fun m => !m.2.isNil).map fun m => e.readEntry n (m.1.value, m.2)) =
      (ScriptTable.dropNils entries).map .ok := by
  rw [ScriptTable.dropNils_eq]
  induction h with
  | nil => rfl
  | @cons entry m entries made hentry _ ih =>
    obtain ⟨key, v⟩ := entry
    obtain ⟨k, w⟩ := m
    obtain ⟨rfl, hpresents⟩ := hentry
    have hrest := ih fun k v hmem => hnested k v (List.mem_cons_of_mem _ hmem)
    rw [List.filter_cons, List.filter_cons, hpresents.isNil]
    cases v.isNil with
    | true => exact hrest
    | false =>
      have hread : e.readEntry n (key.tableKey.value, w) = .ok (key, v.dropNils) := by
        unfold readEntry
        rw [key.keyOf_tableKey, hpresents.read n (hnested key v List.mem_cons_self)]
        rfl
      exact List.cons_eq_cons.mpr ⟨hread, hrest⟩

/-- The keys of a table in order are different keys. -/
theorem nodup_of_presents {entries : ScriptTable} {made : List (Key × Value)}
    (h : List.Forall₂ e.PresentsEntry entries made) (hsorted : ScriptTable.Ascending entries) :
    (made.map (·.1)).Nodup := by
  have hkeys : made.map (·.1) = (entries.map (·.1)).map ScriptKey.tableKey := by
    clear hsorted
    induction h with
    | nil => rfl
    | cons hentry _ ih => exact List.cons_eq_cons.mpr ⟨hentry.1, ih⟩
  rw [hkeys]
  exact hsorted.nodup.map ScriptKey.tableKey_injective

/-- A table presents itself if what it holds does. -/
theorem pushed_table {entries : ScriptTable} (h : ∀ k v, (k, v) ∈ entries → Pushed v)
    (hsorted : ScriptTable.Ascending entries) : Pushed (.table entries) := by
  intro e
  obtain ⟨made, e₁, hpush, hextends, hpresents⟩ :=
    entered_toTable h (.withRoom 0 entries.length) e
  have hlength := (hpresents e₁ (.refl hextends)).length_eq
  have hnodup := nodup_of_presents (hpresents e₁ (.refl hextends)) hsorted
  rw [hlength] at hpush
  let table := (Table.withRoom 0 made.length).enter made
  let e₂ : Engine := { e₁ with heap := (e₁.heap.newTable table).2 }
  have hnew : e₁.Extends e₂ := ⟨rfl, ⟨#[table], rfl⟩, ⟨#[], Array.append_empty.symm⟩⟩
  refine ⟨.table ⟨e₁.heap.tables.size⟩, e₂, ?_, hextends.trans hnew, fun e'' hleft =>
    ⟨rfl, fun n hnested => ?_⟩⟩
  · unfold Serving.toValue
    rw [hlength, run_bind, hpush]
    rfl
  · obtain ⟨n, rfl, hinner⟩ := ScriptValue.NestedIn.table_iff.mp hnested
    -- what was entered is what is held as long as nobody touches the table, in some order of its
    -- own
    have hheld : e₂.heap.table ⟨e₁.heap.tables.size⟩ = table := by
      show (e₁.heap.tables.push table).getD e₁.heap.tables.size {} = table
      rw [Array.getD_eq_getD_getElem?, Array.getElem?_push_size]
      rfl
    have hpairs : (e''.heap.table ⟨e₁.heap.tables.size⟩).pairs.Perm
        ((made.filter fun m => !m.2.isNil).map fun m => (m.1.value, m.2)) := by
      refine (hleft.tables _ hextends.size_tables ?_).trans ?_
      · exact Nat.lt_of_lt_of_le (Nat.lt_succ_self _) (Array.size_push _).ge
      · rw [hheld]
        exact Table.pairs_enter hnodup
    have hread : ((e''.heap.table ⟨e₁.heap.tables.size⟩).pairs.map (e''.readEntry n)).Perm
        ((ScriptTable.dropNils entries).map .ok) := by
      rw [← map_readEntry (hpresents e'' (hleft.left hnew)) hinner]
      refine (hpairs.map _).trans (.of_eq ?_)
      rw [List.map_map]
      rfl
    have hordered := (congrFun₂ (List.eq_map_comp_perm Except.ok) _ _).mpr hread
    -- reading sorts the entries, so the order of the table is gone
    obtain ⟨read, hmap, hperm⟩ := hordered
    rw [readValue_table hmap, ScriptTable.ofEntries_eq_of_perm hperm hsorted.dropNils]
    rfl

/-- All values that are put together in order and hold no row objects present themselves. -/
theorem pushed {v : ScriptValue} (htuple : v.TupleFree) (hsorted : v.Sorted) : Pushed v := by
  induction v using ScriptValue.inductionOn with
  | plain v hv =>
    cases v with
    | table entries => exact nomatch hv
    | tuple row => exact nomatch htuple
    | number x => exact pushed_pure rfl rfl rfl fun e n => readValue_ofFloat e n x
    | cursor name => exact pushed_cursor name
    | nil | bool _ | int _ | string _ =>
      exact pushed_pure rfl rfl rfl fun e n => by cases n <;> rfl
  | table entries ih =>
    cases htuple with
    | table htuple =>
      cases hsorted with
      | plain hv => exact nomatch hv
      | table hascending hsorted =>
        exact pushed_table (fun k v hmem => ih k v hmem (htuple k v hmem) (hsorted k v hmem))
          hascending

/-! ### What a script is handed and gives back -/

/-- Options that are accepted let tables be nested as deep as arrays may have dimensions. -/
theorem maxArrayDims_of_validate {o : Options} (h : o.validate = .ok ()) :
    0 < o.maxArrayDims ∧ o.maxArrayDims ≤ o.maxTableDepth := by
  unfold Options.validate at h
  split_ifs at h with _ hdims hdepth
  rw [not_or] at hdims
  exact ⟨Nat.pos_of_ne_zero hdims.1, Nat.not_lt.mp hdepth⟩

/-- What a value that is read back is converted to. -/
theorem toDatum_of_read {u : ScriptValue} (h : e.ofValue w = .ok u) (t : TypeId) (m : Int32) :
    Serving.toDatum w t m e = Serving.converting (fun b => Marshal.toRelational b u t m) e := by
  have hread : Serving.ofValue w e = (.ok u, e) := by
    show (liftExcept (e.ofValue w) : Serving ScriptValue) e = _
    rw [h]
    rfl
  unfold Serving.toDatum
  rw [run_bind, hread]

/-- Converts a datum, and then makes a value of a script. -/
theorem ofDatum_of_form {d : Option Datum} {t : TypeId}
    (hform : (Marshal.optionToScript e.border d t e.types).1 = .ok v) (hpushed : Pushed v) :
    ∃ w e', Serving.ofDatum d t e = (.ok w, e') ∧ e.Extends e' ∧
      ∀ e'', e.Leaves e' e'' → e''.Presents v w := by
  obtain ⟨w, e', hpush, hextends, hpresents⟩ :=
    hpushed { e with types := (Marshal.optionToScript e.border d t e.types).2 }
  refine ⟨w, e', ?_, ⟨hextends.options, hextends.tables, hextends.objects⟩, fun e'' h =>
    hpresents e'' ⟨h.options, h.tables, h.cursors⟩⟩
  have hconvert : Serving.converting (fun b => Marshal.optionToScript b d t) e =
      (.ok v, { e with types := (Marshal.optionToScript e.border d t e.types).2 }) :=
    Prod.ext hform rfl
  unfold Serving.ofDatum
  rw [run_bind, hconvert]
  exact hpush

/-- The arrays of a type have elements that are neither rows nor documents. -/
def ScalarElements (catalog : Catalog.Lookup) (t : TypeId) (m : Int32) : Prop :=
  ∃ type m' element etype em, Catalog.resolveDomain catalog t m = .ok (type, m') ∧
    type.kind = .array element ∧ Catalog.resolveDomain catalog element (-1) = .ok (etype, em) ∧
    (etype.isRow || etype.id == Scalar.json.id) = false

/-- An array of scalars that is accepted is not nested too deep, unless it has elements and all of
them are NULL. -/
theorem nestedIn_of_accepted {b : Border} (hvalid : b.options.validate = .ok ()) {a : ArrayValue}
    (hform : Marshal.FormOf b (.array a) v) (ha : ArrayOf.Regular a)
    (hplain : ∀ x, some x ∈ a.elements → x.isPlain = true)
    (hpresent : a.elements ≠ [] → ∃ x, some x ∈ a.elements) {t : TypeId} {m : Int32}
    (ht : ScalarElements b.catalog t m) {c : TypeCache} (hc : c.Coherent b.catalog)
    {r : Option Datum} (haccepted : (Marshal.toRelational b v t m c).1 = .ok r) :
    v.NestedIn b.options.maxTableDepth := by
  obtain ⟨hpositive, hle⟩ := maxArrayDims_of_validate hvalid
  cases v with
  | table entries =>
    obtain ⟨type, m', element, etype, em, hresolve, hkind, helement, hleaf⟩ := ht
    rw [Marshal.toRelational_nest hc hresolve hkind helement, hleaf] at haccepted
    obtain ⟨shape, hscan, -⟩ := Datum.ok_of_bind_eq_ok haccepted
    exact ((hform.nestedIn ha hplain hpositive hscan).2 hpresent).mono hle
  | _ => exact .plain rfl

/-- Take a value as a host holds it, or NULL, that has a script form. To hand the form to a script
always goes well. As long as what was made for it is left alone, and if tables are not nested too
deep, it is read back as the form without the entries that are nil, and converted to any type as
this is. So the form itself comes back exactly if no table in it holds nil, and is then converted as
it is directly. None does if no element of an array and no column of a row is blank. The form of an
array of scalars that is accepted, under options that are accepted, is not nested too deep, unless
it has elements and all of them are NULL. -/
theorem ofValue_ofDatum {e : Engine} {d : Option Datum} {t : TypeId} {v : ScriptValue}
    (hregular : ∀ x ∈ d, x.Regular)
    (hform : (Marshal.optionToScript e.border d t e.types).1 = .ok v) :
    (∃ w e', Serving.ofDatum d t e = (.ok w, e') ∧ e.Extends e' ∧
      ∀ e'', e.Leaves e' e'' → v.NestedIn e.options.maxTableDepth →
        e''.ofValue w = .ok v.dropNils ∧
        (∀ t' m, Serving.toDatum w t' m e'' =
          Serving.converting (fun b => Marshal.toRelational b v.dropNils t' m) e'') ∧
        (e''.ofValue w = .ok v ↔ v.NilFree) ∧
        (v.NilFree → ∀ t' m, Serving.toDatum w t' m e'' =
          Serving.converting (fun b => Marshal.toRelational b v t' m) e'')) ∧
    ((∀ x ∈ d, x.BlankFree e.border) → v.NilFree) ∧
    (∀ a, d = some (.array a) → (∀ x, some x ∈ a.elements → x.isPlain = true) →
      (a.elements ≠ [] → ∃ x, some x ∈ a.elements) → e.options.validate = .ok () →
      ∀ t' m, ScalarElements e.host.catalog t' m → ∀ c : TypeCache, c.Coherent e.host.catalog →
      ∀ r, (Marshal.toRelational e.border v t' m c).1 = .ok r →
        v.NestedIn e.options.maxTableDepth) := by
  -- the form has no tuples and is sorted, and that is all that the exchange asks of it
  have hvalue : v.TupleFree ∧ v.Sorted ∧ ((∀ x ∈ d, x.BlankFree e.border) → v.NilFree) := by
    cases d with
    | none =>
      obtain rfl : ScriptValue.nil = v := Except.ok.inj hform
      exact ⟨.nil, .plain rfl, fun _ => .plain rfl⟩
    | some x =>
      have hx := Marshal.formOf_toScript x hform
      exact ⟨hx.tupleFree, hx.sorted (hregular x rfl), fun hblank => hx.nilFree (hblank x rfl)⟩
  obtain ⟨htuple, hsorted, hblank⟩ := hvalue
  refine ⟨?_, hblank, ?_⟩
  · obtain ⟨w, e', hpush, hextends, hpresents⟩ := ofDatum_of_form hform (pushed htuple hsorted)
    refine ⟨w, e', hpush, hextends, fun e'' hleft hnested => ?_⟩
    have hread : e''.ofValue w = .ok v.dropNils := by
      unfold ofValue
      rw [hleft.options]
      exact (hpresents e'' hleft).read _ hnested
    refine ⟨hread, toDatum_of_read hread, ?_, fun hfree => ?_⟩
    · rw [hread, Except.ok.injEq]
      exact ScriptValue.dropNils_eq_self_iff
    · have hback := toDatum_of_read hread
      rwa [ScriptValue.dropNils_eq_self_iff.mpr hfree] at hback
  · rintro a rfl hplain hpresent hvalid t' m ht c hc r haccepted
    have hx := Marshal.formOf_toScript _ hform
    have ha : ArrayOf.Regular a := by
      cases hregular _ rfl with
      | plain hd => exact nomatch hd
      | array ha _ => exact ha
    exact nestedIn_of_accepted hvalid hx ha hplain hpresent ht hc haccepted

/-- An engine with nothing but its options and its host. -/
def idleEngine (options : Options) (host : Host) : Engine :=
  { options, host, heap := {}, reports := ⟨0⟩, setBody := .nil }

/-- The script form of a matrix with two NULLs. -/
def gridForm : ScriptValue :=
  .table [(.int 1, .table [(.int (-1), .int 1)]), (.int 2, .table [(.int 0, .int 4)])]

/-- A matrix with two NULLs comes back. -/
theorem ofValue_ofDatum_grid :
    ∃ w e', Serving.ofDatum (some Marshal.grid) 1007 (idleEngine {} .new) = (.ok w, e') ∧
      e'.ofValue w = .ok gridForm := by
  have hplain : ∀ x, some x ∈ [some (.int4 1), none, none, some (.int4 4)] →
      Datum.isPlain x = true := by
    intro x hx
    simp only [List.mem_cons, Option.some.injEq, reduceCtorEq, List.not_mem_nil, or_false,
      false_or] at hx
    rcases hx with rfl | rfl <;> rfl
  have hregular : Marshal.grid.Regular := by
    refine .array (.filled (by simp) (fun d hd => ?_) rfl) fun x hx => .plain (hplain x hx)
    simp only [List.mem_cons, List.not_mem_nil, or_false] at hd
    rcases hd with rfl | rfl <;> exact ⟨by decide, by decide⟩
  have hblank : Marshal.grid.BlankFree (idleEngine {} .new).border := by
    refine .array (fun x hx => ?_) fun x hx => .plain (hplain x hx)
    simp only [List.mem_cons, Option.some.injEq, reduceCtorEq, List.not_mem_nil, or_false,
      false_or] at hx
    rcases hx with rfl | rfl <;> rfl
  obtain ⟨⟨w, e', hpush, hextends, hback⟩, hfree, hnested⟩ :=
    ofValue_ofDatum (e := idleEngine {} .new) (d := some Marshal.grid) (t := 1007) (v := gridForm)
      (fun x hx => Option.some.inj hx ▸ hregular) (by cbv)
  have hdepth := hnested _ rfl hplain (fun _ => ⟨.int4 1, by simp⟩) rfl 1007 (-1)
    ⟨_, _, _, _, _, rfl, rfl, rfl, rfl⟩ {} (TypeCache.coherent_empty _) (some Marshal.grid) (by cbv)
  have hnils := hfree fun x hx => Option.some.inj hx ▸ hblank
  exact ⟨w, e', hpush, ((hback e' (.refl hextends) hdepth).2.2.1).mpr hnils⟩

/-- A host with arrays of documents. -/
def notesHost : Host := (Host.new.defineArray Scalar.json.id).2

/-- An array of two documents, of which the second is null. -/
def notes : Datum :=
  .array ⟨Scalar.json.id, [⟨2, 1⟩], [some (.json (.number (.integer 1))), some (.json .null)]⟩

/-- Its script form, in which a table holds nil. -/
def notesForm : ScriptValue := .table [(.int 1, .int 1), (.int 2, .nil)]

theorem notesForm_cases {k : ScriptKey} {v : ScriptValue}
    (h : (k, v) ∈ [(ScriptKey.int 1, ScriptValue.int 1), (.int 2, .nil)]) :
    v = .int 1 ∨ v = .nil := by
  simp only [List.mem_cons, Prod.mk.injEq, List.not_mem_nil, or_false] at h
  exact h.imp And.right And.right

theorem nestedIn_notesForm (n : Nat) : notesForm.NestedIn (n + 1) := by
  refine .table fun k v hmem => ?_
  obtain rfl | rfl := notesForm_cases hmem
  · exact .plain rfl
  · exact .plain rfl

theorem pushed_notesForm : Pushed notesForm := by
  refine pushed (.table fun k v hmem => ?_)
    (.table (List.pairwise_pair.mpr rfl) fun k v hmem => ?_)
  · obtain rfl | rfl := notesForm_cases hmem <;> constructor
  · obtain rfl | rfl := notesForm_cases hmem <;> exact .plain rfl

/-- An array of three dimensions without an element. -/
def hollow : Datum := .array ⟨Scalar.int4.id, [⟨1, 1⟩, ⟨1, 1⟩, ⟨1, 1⟩], [none]⟩

/-- Its script form, in which tables are nested three levels deep. -/
def hollowForm : ScriptValue := .table [(.int 1, .table [(.int 1, .table [])])]

theorem not_nestedIn_hollowForm : ¬hollowForm.NestedIn 2 := by
  intro hnested
  obtain ⟨n, hn, hfirst⟩ := ScriptValue.NestedIn.table_iff.mp hnested
  obtain ⟨n', hn', hsecond⟩ :=
    ScriptValue.NestedIn.table_iff.mp (hfirst _ _ (List.mem_singleton_self _))
  obtain ⟨n'', hn'', -⟩ :=
    ScriptValue.NestedIn.table_iff.mp (hsecond _ _ (List.mem_singleton_self _))
  omega

/-- A form that holds nil does not come back, and what comes back is converted to another array. And
with two dimensions and two levels at most, an array of three dimensions is accepted whose form is
nested too deep. -/
theorem ofValue_ofDatum_not_kept :
    (∃ w e' u,
      (Marshal.toScript (idleEngine {} notesHost).border notes 16384 {}).1 = .ok notesForm ∧
      notesForm.NestedIn (idleEngine {} notesHost).options.maxTableDepth ∧
      Serving.ofDatum (some notes) 16384 (idleEngine {} notesHost) = (.ok w, e') ∧
      e'.ofValue w = .ok u ∧ u ≠ notesForm ∧
      (Marshal.toRelational (idleEngine {} notesHost).border u 16384 (-1) {}).1 ≠
        (Marshal.toRelational (idleEngine {} notesHost).border notesForm 16384 (-1) {}).1) ∧
    ∃ options : Options, options.validate = .ok () ∧
      (Marshal.toScript (idleEngine options .new).border hollow 1007 {}).1 = .ok hollowForm ∧
      (Marshal.toRelational (idleEngine options .new).border hollowForm 1007 (-1) {}).1 =
        .ok (some (.array (.empty Scalar.int4.id))) ∧
      ¬hollowForm.NestedIn options.maxTableDepth := by
  constructor
  · have hform : (Marshal.toScript (idleEngine {} notesHost).border notes 16384 {}).1 =
        .ok notesForm := by cbv
    obtain ⟨w, e', hpush, hextends, hpresents⟩ :=
      ofDatum_of_form (e := idleEngine {} notesHost) (d := some notes) hform pushed_notesForm
    -- the entry that is nil is gone when the form comes back
    have hread : e'.ofValue w = .ok (.table [(.int 1, .int 1)]) := by
      unfold ofValue
      rw [hextends.options]
      exact (hpresents e' (.refl hextends)).read _ (nestedIn_notesForm 63)
    have hback : (Marshal.toRelational (idleEngine {} notesHost).border (.table [(.int 1, .int 1)])
        16384 (-1) {}).1 = .ok (some (.array ⟨Scalar.json.id, [⟨1, 1⟩],
          [some (.json (.number (.integer 1)))]⟩)) := by cbv
    have hdirect : (Marshal.toRelational (idleEngine {} notesHost).border notesForm
        16384 (-1) {}).1 = .ok (some (.array ⟨Scalar.json.id, [⟨2, 1⟩],
          [some (.json (.number (.integer 1))), none]⟩)) := by cbv
    refine ⟨w, e', _, hform, nestedIn_notesForm 63, hpush, hread, ?_, ?_⟩
    · intro heq
      exact absurd (congrArg List.length (ScriptValue.table.inj heq)) (by decide)
    · rw [hback, hdirect]
      intro heq
      have hdims := congrArg (fun a => a.dims)
        (Datum.array.inj (Option.some.inj (Except.ok.inj heq)))
      exact absurd hdims (by decide)
  · exact ⟨{ maxArrayDims := 2, maxTableDepth := 2 }, rfl, by cbv, by cbv,
      not_nestedIn_hollowForm⟩

end Engine

end StoredRoutine
