import StoredRoutine.Proofs.Marshal.Documents
import StoredRoutine.Proofs.Marshal.Transparent
import StoredRoutine.Proofs.Marshal.Typed

/-!
# `StoredRoutine.Proofs.Marshal.Forms`: what script forms look like

The script form of a value is put together from those of its parts: `FormOf` says how, and leaves
out the types that were looked up on the way. Whatever is made by `toScript` is a form
(`formOf_toScript`). What is true of all script forms follows by induction on `FormOf`; the first
such fact is that no row object occurs in them (`FormOf.tupleFree`), so the conversion back does
not depend on what is done with row objects (`convert_tupleFree`).
-/

set_option autoImplicit false

namespace StoredRoutine.Marshal

/-- A script value is a form of a relational value. The cells of an array and the columns of a row
are given together with their forms. -/
inductive FormOf (b : Border) : Datum → ScriptValue → Prop
  | plain {type : TypeDescriptor} {d : Datum} {v : ScriptValue}
      (h : plainToScript b type d = .ok v) : FormOf b d v
  | empty (t : TypeId) (dims : List ArrayDim) : FormOf b (.array ⟨t, dims, []⟩) (.table [])
  | array (t : TypeId) (dims : List ArrayDim) {cells : List (Option (Datum × ScriptValue))}
      (hne : cells ≠ []) (hcells : ∀ d v, some (d, v) ∈ cells → FormOf b d v) :
      FormOf b (.array ⟨t, dims, cells.map (·.map (·.1))⟩)
        (.table (nest dims (cells.map (·.map (·.2)))))
  | row {layout : RowLayout} {values : List (Option Datum)}
      {columns : List (String × Datum × ScriptValue)}
      (hvalues : ∀ name d v, (name, d, v) ∈ columns → some d ∈ values)
      (hcolumns : ∀ name d v, (name, d, v) ∈ columns → FormOf b d v) :
      FormOf b (.row ⟨layout, values⟩)
        (.table (ScriptTable.ofEntries (columns.map fun x => (.text x.1, x.2.2))))

variable {b : Border}

/-! ### Forms are what `toScript` makes -/

/-- The value of a computation in two parts is that of the second one. -/
theorem value_bind {α β : Type} {x : Resolving α} {k : α → Resolving β} {c : TypeCache} {r : β}
    (h : ((x >>= k) c).1 = .ok r) : ∃ a c', (x c).1 = .ok a ∧ (k a c').1 = .ok r := by
  rw [run_bind] at h
  generalize x c = done at h ⊢
  obtain ⟨f | a, c'⟩ := done
  · exact nomatch h
  · exact ⟨a, c', rfl, h⟩

theorem value_liftExcept {α : Type} {o : Outcome α} {c : TypeCache} {r : α}
    (h : ((liftExcept o : Resolving α) c).1 = .ok r) : o = .ok r := by
  cases o with
  | error f => exact nomatch h
  | ok a => exact h

mutual

/-- Whatever is made of a value is a form of it. -/
theorem formOf_toScript (d : Datum) {id : TypeId} {c : TypeCache} {v : ScriptValue}
    (h : (toScript b d id c).1 = .ok v) : FormOf b d v := by
  -- by recursion on the value, together with that on elements and on columns
  match d with
  | .array ⟨t, dims, elements⟩ =>
    unfold toScript at h
    obtain ⟨⟨type, m⟩, c', -, h⟩ := value_bind h
    cases hkind : type.kind with
    | array element =>
      simp only [hkind] at h
      cases elements with
      | nil =>
        obtain rfl := Except.ok.inj h
        exact .empty t dims
      | cons x rest =>
        simp only [List.isEmpty_cons, Bool.false_eq_true, if_false] at h
        obtain ⟨values, c'', hvalues, h⟩ := value_bind h
        obtain rfl := Except.ok.inj h
        obtain ⟨cells, hfirst, rfl, hcells⟩ := cells_elementsToScript (x :: rest) hvalues
        rw [← hfirst]
        refine .array t dims ?_ hcells
        rintro rfl
        exact nomatch hfirst
    | base | domain _ _ | enum _ | composite _ | pseudo =>
      simp only [hkind] at h
      exact .plain (value_liftExcept h)
  | .row ⟨layout, values⟩ =>
    unfold toScript at h
    obtain ⟨⟨type, m⟩, c', -, h⟩ := value_bind h
    dsimp only at h
    split at h
    · obtain ⟨entries, c'', hentries, h⟩ := value_bind h
      obtain rfl := Except.ok.inj h
      obtain ⟨columns, rfl, hvalues, hcolumns⟩ :=
        columns_columnsToScript layout.attributes values hentries
      rw [← List.foldl_map
        (f := fun x : String × Datum × ScriptValue => (ScriptKey.text x.1, x.2.2))
        (g := fun t e => ScriptTable.insert e.1 e.2 t)]
      exact .row hvalues hcolumns
    · exact .plain (value_liftExcept h)
  | .bool _ | .int2 _ | .int4 _ | .int8 _ | .float4 _ | .float8 _ | .numeric _ | .text _
  | .bytea _ | .json _ | .enum _ | .refcursor _ | .other _ =>
    unfold toScript at h
    obtain ⟨⟨type, m⟩, c', -, h⟩ := value_bind h
    exact .plain (value_liftExcept h)

/-- The elements with their forms. -/
theorem cells_elementsToScript (elements : List (Option Datum)) {id : TypeId} {c : TypeCache}
    {values : List (Option ScriptValue)} (h : (elementsToScript b elements id c).1 = .ok values) :
    ∃ cells : List (Option (Datum × ScriptValue)), cells.map (·.map (·.1)) = elements ∧
      cells.map (·.map (·.2)) = values ∧ ∀ d v, some (d, v) ∈ cells → FormOf b d v := by
  match elements with
  | [] =>
    unfold elementsToScript at h
    obtain rfl := Except.ok.inj h
    exact ⟨[], rfl, rfl, fun d v hmem => absurd hmem List.not_mem_nil⟩
  | none :: rest =>
    unfold elementsToScript at h
    obtain ⟨values, c', hrest, h⟩ := value_bind h
    obtain rfl := Except.ok.inj h
    obtain ⟨cells, rfl, rfl, hcells⟩ := cells_elementsToScript rest hrest
    refine ⟨none :: cells, rfl, rfl, fun d v hmem => ?_⟩
    obtain heq | hmem := List.mem_cons.mp hmem
    · exact nomatch heq
    · exact hcells d v hmem
  | some d :: rest =>
    unfold elementsToScript at h
    obtain ⟨v, c', hfirst, h⟩ := value_bind h
    obtain ⟨values, c'', hrest, h⟩ := value_bind h
    obtain rfl := Except.ok.inj h
    obtain ⟨cells, rfl, rfl, hcells⟩ := cells_elementsToScript rest hrest
    refine ⟨some (d, v) :: cells, rfl, rfl, fun d' v' hmem => ?_⟩
    -- Either the element in front, converted on its own, or one of the rest.
    obtain heq | hmem := List.mem_cons.mp hmem
    · obtain ⟨rfl, rfl⟩ := Prod.mk.inj (Option.some.inj heq)
      exact formOf_toScript d' hfirst
    · exact hcells d' v' hmem

/-- The columns that were entered, with their forms. -/
theorem columns_columnsToScript (attributes : List Attribute) (values : List (Option Datum))
    {table : ScriptTable} {c : TypeCache} {entries : ScriptTable}
    (h : (columnsToScript b attributes values table c).1 = .ok entries) :
    ∃ columns : List (String × Datum × ScriptValue),
      columns.foldl (fun t x => t.insert (.text x.1) x.2.2) table = entries ∧
      (∀ name d v, (name, d, v) ∈ columns → some d ∈ values) ∧
      ∀ name d v, (name, d, v) ∈ columns → FormOf b d v := by
  match attributes, values with
  | a :: attributes, some d :: values =>
    unfold columnsToScript at h
    obtain ⟨v, c', hfirst, h⟩ := value_bind h
    obtain ⟨columns, rfl, hvalues, hcolumns⟩ := columns_columnsToScript attributes values h
    refine ⟨(a.name, d, v) :: columns, rfl, fun name d' v' hmem => ?_, fun name d' v' hmem => ?_⟩
    · obtain heq | hmem := List.mem_cons.mp hmem
      · rw [(Prod.mk.inj (Prod.mk.inj heq).2).1]
        exact List.mem_cons_self
      · exact List.mem_cons_of_mem _ (hvalues name d' v' hmem)
    · obtain heq | hmem := List.mem_cons.mp hmem
      · obtain ⟨-, heq⟩ := Prod.mk.inj heq
        obtain ⟨rfl, rfl⟩ := Prod.mk.inj heq
        exact formOf_toScript d' hfirst
      · exact hcolumns name d' v' hmem
  | a :: attributes, none :: values =>
    unfold columnsToScript at h
    obtain ⟨columns, rfl, hvalues, hcolumns⟩ := columns_columnsToScript attributes values h
    exact ⟨columns, rfl, fun name d v hmem => List.mem_cons_of_mem _ (hvalues name d v hmem),
      hcolumns⟩
  | [], _ | _ :: _, [] =>
    unfold columnsToScript at h
    exact ⟨[], Except.ok.inj h, fun _ _ _ hmem => absurd hmem List.not_mem_nil,
      fun _ _ _ hmem => absurd hmem List.not_mem_nil⟩

end

/-! ### The entries of forms -/

/-- What is in a table after an entry was set was there before, or is the entry. -/
theorem mem_insert {key : ScriptKey} {value : ScriptValue} {entries : ScriptTable}
    {e : ScriptKey × ScriptValue} (h : e ∈ entries.insert key value) :
    e = (key, value) ∨ e ∈ entries := by
  induction entries with
  | nil => exact .inl (List.mem_singleton.mp h)
  | cons x rest ih =>
    obtain ⟨k, w⟩ := x
    unfold ScriptTable.insert at h
    split at h
    · exact (List.mem_cons.mp h).imp_right (List.mem_cons_of_mem _)
    · split at h
      · exact List.mem_cons.mp h
      · obtain rfl | h := List.mem_cons.mp h
        · exact .inr List.mem_cons_self
        · exact (ih h).imp_right (List.mem_cons_of_mem _)

theorem mem_ofEntries {entries : List (ScriptKey × ScriptValue)} {e : ScriptKey × ScriptValue}
    (h : e ∈ ScriptTable.ofEntries entries) : e ∈ entries := by
  suffices hfold : ∀ t : ScriptTable,
      e ∈ entries.foldl (fun t e => ScriptTable.insert e.1 e.2 t) t → e ∈ t ∨ e ∈ entries from
    (hfold [] h).resolve_left List.not_mem_nil
  clear h
  induction entries with
  | nil => exact fun t h => .inl h
  | cons x rest ih =>
    intro t h
    obtain h | h := ih _ h
    · obtain rfl | h := mem_insert h
      · exact .inr List.mem_cons_self
      · exact .inl h
    · exact .inr (List.mem_cons_of_mem _ h)

/-- The values of a nest are elements, or nests of elements with one dimension less. -/
theorem mem_nest {d : ArrayDim} {inner : List ArrayDim} {values : List (Option ScriptValue)}
    {k : ScriptKey} {w : ScriptValue} (h : (k, w) ∈ nest (d :: inner) values) :
    (inner = [] ∧ some w ∈ values) ∨
      (inner ≠ [] ∧ ∃ part, w = .table (nest inner part) ∧ part ⊆ values) := by
  cases inner with
  | nil =>
    obtain ⟨⟨x, i⟩, hx, hw⟩ := List.mem_filterMap.mp h
    obtain ⟨v, rfl, heq⟩ := Option.map_eq_some_iff.mp hw
    obtain ⟨-, rfl⟩ := Prod.mk.inj heq
    exact .inl ⟨rfl, List.mem_of_mem_take (List.fst_mem_of_mem_zipIdx hx)⟩
  | cons e inner =>
    obtain ⟨i, -, heq⟩ := List.mem_map.mp h
    obtain ⟨-, rfl⟩ := Prod.mk.inj heq
    exact .inr ⟨List.cons_ne_nil e inner, _, rfl,
      fun x hx => List.mem_of_mem_drop (List.mem_of_mem_take hx)⟩

/-- The entries of a document come from parts of it that are not null. -/
theorem mem_ofItems {i : Nat} {items : List Json} {e : ScriptKey × ScriptValue}
    (h : e ∈ ScriptTable.ofItems (Int64.ofNat i) items) :
    ∃ j ∈ items, j ≠ .null ∧ e.2 = .ofJson j := by
  induction items generalizing i with
  | nil => exact absurd h List.not_mem_nil
  | cons j rest ih =>
    by_cases hj : j = .null
    · subst hj
      rw [ScriptTable.ofItems_null] at h
      obtain ⟨j, hmem, hrest⟩ := ih h
      exact ⟨j, List.mem_cons_of_mem _ hmem, hrest⟩
    · rw [ScriptTable.ofItems_cons i hj] at h
      obtain rfl | h := List.mem_cons.mp h
      · exact ⟨j, List.mem_cons_self, hj, rfl⟩
      · obtain ⟨j, hmem, hrest⟩ := ih h
        exact ⟨j, List.mem_cons_of_mem _ hmem, hrest⟩

theorem mem_ofMembers {members : List (String × Json)} {e : ScriptKey × ScriptValue}
    (h : e ∈ ScriptTable.ofMembers members) :
    ∃ key j, (key, j) ∈ members ∧ j ≠ .null ∧ e = (.text key, .ofJson j) := by
  induction members with
  | nil => exact absurd h List.not_mem_nil
  | cons m rest ih =>
    obtain ⟨key, j⟩ := m
    by_cases hj : j = .null
    · subst hj
      obtain ⟨key, j, hmem, hrest⟩ := ih h
      exact ⟨key, j, List.mem_cons_of_mem _ hmem, hrest⟩
    · rw [ScriptTable.ofMembers_cons key hj] at h
      obtain rfl | h := List.mem_cons.mp h
      · exact ⟨key, j, List.mem_cons_self, hj, rfl⟩
      · obtain ⟨key, j, hmem, hrest⟩ := ih h
        exact ⟨key, j, List.mem_cons_of_mem _ hmem, hrest⟩

/-! ### No row objects -/

theorem tupleFree_ofJson (j : Json) : (ScriptValue.ofJson j).TupleFree := by
  induction j using Json.inductionOn with
  | null => exact .nil
  | bool b => exact .bool b
  | number n =>
    cases n with
    | integer n =>
      show (if n < 2 ^ 63 then ScriptValue.int _ else .number _).TupleFree
      by_cases hn : n < 2 ^ 63
      · rw [if_pos hn]
        exact .int _
      · rw [if_neg hn]
        exact .number _
    | float x => exact .number x
  | string s => exact .string _
  | array items ih =>
    refine .table fun k v hmem => ?_
    obtain ⟨j, hj, -, rfl⟩ := mem_ofItems (i := 1) hmem
    exact ih j hj
  | object members ih =>
    refine .table fun k v hmem => ?_
    obtain ⟨key, j, hj, -, heq⟩ := mem_ofMembers hmem
    obtain ⟨-, rfl⟩ := Prod.mk.inj heq
    exact ih key j hj

theorem tupleFree_nest {dims : List ArrayDim} {values : List (Option ScriptValue)}
    (h : ∀ v, some v ∈ values → v.TupleFree) :
    ScriptValue.TupleFree (.table (nest dims values)) := by
  induction dims generalizing values with
  | nil => exact .table fun _ _ hmem => absurd hmem List.not_mem_nil
  | cons d inner ih =>
    refine .table fun k v hmem => ?_
    obtain ⟨-, hv⟩ | ⟨-, part, rfl, hpart⟩ := mem_nest hmem
    · exact h v hv
    · exact ih fun v hv => h v (hpart hv)

/-- A script value that is no container, and not nil. -/
inductive Simple : ScriptValue → Prop
  | bool (v : Bool) : Simple (.bool v)
  | int (n : Int64) : Simple (.int n)
  | number (x : Float) : Simple (.number x)
  | string (b : ByteArray) : Simple (.string b)
  | cursor (name : String) : Simple (.cursor name)

theorem Simple.tupleFree {v : ScriptValue} (h : Simple v) : v.TupleFree := by
  cases h <;> constructor

theorem Simple.ne_nil {v : ScriptValue} (h : Simple v) : v ≠ .nil := by
  rintro rfl
  cases h

/-- A plain value is a document, names a cursor that is not open, or has a simple form. -/
theorem plainToScript_ok {type : TypeDescriptor} {d : Datum} {v : ScriptValue}
    (h : plainToScript b type d = .ok v) :
    (∃ j, d = .json j ∧ v = .ofJson j) ∨
      (∃ name, d = .refcursor name ∧ b.hasPortal name = false ∧ v = .nil) ∨ Simple v := by
  have htext : ∀ {o : Outcome String}, o.map .ofText = .ok v → Simple v := by
    intro o ho
    cases o with
    | error f => exact nomatch ho
    | ok s =>
      obtain rfl := Except.ok.inj ho
      exact .string _
  unfold plainToScript at h
  split at h
  · exact .inr (.inr (htext h))
  · unfold scalarToScript at h
    -- one case for each pair of a scalar and a value; only documents and cursors stand out
    split at h
    case h_11 j _ => exact .inl ⟨j, rfl, (Except.ok.inj h).symm⟩
    case h_12 name _ =>
      cases hname : b.hasPortal name with
      | false =>
        rw [hname] at h
        exact .inr (.inl ⟨name, rfl, hname, (Except.ok.inj h).symm⟩)
      | true =>
        rw [hname] at h
        obtain rfl := Except.ok.inj h
        exact .inr (.inr (.cursor name))
    case h_13 => exact .inr (.inr (htext h))
    all_goals
      obtain rfl := Except.ok.inj h
      exact .inr (.inr (by constructor))
  · exact nomatch h

/-- No row object occurs in a script form. -/
theorem FormOf.tupleFree {d : Datum} {v : ScriptValue} (h : FormOf b d v) : v.TupleFree := by
  induction h with
  | plain h =>
    obtain ⟨j, -, rfl⟩ | ⟨name, -, -, rfl⟩ | hv := plainToScript_ok h
    · exact tupleFree_ofJson j
    · exact .nil
    · exact hv.tupleFree
  | empty => exact .table fun _ _ hmem => absurd hmem List.not_mem_nil
  | array t dims hne hcells ih =>
    refine tupleFree_nest fun v hv => ?_
    obtain ⟨cell, hcell, hv⟩ := List.mem_map.mp hv
    obtain ⟨⟨d, w⟩, rfl, rfl⟩ := Option.map_eq_some_iff.mp hv
    exact ih d w hcell
  | row hvalues hcolumns ih =>
    refine .table fun k v hmem => ?_
    obtain ⟨⟨name, d, w⟩, hcolumn, heq⟩ := List.mem_map.mp (mem_ofEntries hmem)
    obtain ⟨-, rfl⟩ := Prod.mk.inj heq
    exact ih name d w hcolumn

/-- Values without row objects convert alike, whatever is done with row objects. -/
theorem convert_tupleFree {f g : RowValue → RowLayout → Resolving RowValue} {v : ScriptValue}
    (h : v.TupleFree) (id : TypeId) (typeMod : Int32) :
    convert b f v id typeMod = convert b g v id typeMod := by
  -- the recursion is that of the conversion: into the values of a table
  fun_induction convert b f v id typeMod with
  | case1 =>
    unfold convert
    rfl
  | case2 entries id typeMod ihArray ihRow =>
    conv_rhs => unfold convert
    refine bind_congr fun found => ?_
    obtain ⟨type, m⟩ := found
    dsimp only
    split
    next element _ =>
      have hplaced : ∀ dims, traverseMem (placements dims entries) (fun p _ => do
          let d ← convert b f p.2 element (-1)
          return (p.1, d)) = traverseMem (placements dims entries) (fun p _ => do
          let d ← convert b g p.2 element (-1)
          return (p.1, d)) := by
        intro dims
        congr 1
        funext p hp
        rw [ihArray element dims p hp (tupleFree_of_placements h hp)]
      simp only [hplaced]
    next layout _ =>
      congr 2
      funext a
      split
      next v hfound => exact ihRow a v hfound (tupleFree_of_find? h hfound)
      · rfl
    · rfl
  | case3 row id typeMod => cases h
  | case4 v id typeMod hnil htable htuple =>
    conv_rhs => unfold convert
    cases v with
    | nil => exact absurd rfl hnil
    | table entries => exact absurd rfl (htable entries)
    | tuple row => exact absurd rfl (htuple row)
    | bool _ | int _ | number _ | string _ | cursor _ => rfl

end StoredRoutine.Marshal
