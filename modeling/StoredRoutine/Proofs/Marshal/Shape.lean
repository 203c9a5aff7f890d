import Mathlib.Data.List.Forall2
import Mathlib.Tactic.Choose
import StoredRoutine.Marshal.Shape

/-!
# `StoredRoutine.Proofs.Marshal.Shape`: a nest of tables and its shape

What `nest` makes of the elements of an array is read back by `scan`, `placements` and `scatter`:

* `placements_nest`: the values of the nest are the elements that are present, each at its place in
  the row-major order (`present`);
* `scan_nest`: the dimensions are found again. The bounds of an outer dimension are always there,
  because each of its subscripts has a table; those of the last dimension are there if some element
  is present at its first and some at its last subscript;
* `scatter_present`: the elements that are present, put in their places, are the whole list.
-/

set_option autoImplicit false

namespace StoredRoutine.Marshal

variable {α : Type}

/-! ### Volumes and chunks -/

/-- The number of elements that dimensions describe. -/
def volume (dims : List ArrayDim) : Nat := (dims.map (·.len)).foldl (· * ·) 1

/-- A product can be taken from any factor on. -/
theorem foldl_mul (l : List Nat) (n : Nat) : l.foldl (· * ·) n = n * l.foldl (· * ·) 1 := by
  induction l generalizing n with
  | nil => simp
  | cons m rest ih =>
    rw [List.foldl_cons, List.foldl_cons, ih, ih (1 * m), Nat.one_mul, Nat.mul_assoc]

/-- A dimension more multiplies the volume. -/
theorem volume_cons (d : ArrayDim) (inner : List ArrayDim) :
    volume (d :: inner) = d.len * volume inner := by
  unfold volume
  rw [List.map_cons, List.foldl_cons, foldl_mul, Nat.one_mul]

/-- A product that is formed with a check after each factor, from any factor on. -/
theorem foldl_checked_from {p : Nat → Prop} [DecidablePred p] {dims : List ArrayDim}
    {start : Option Nat} {count : Nat}
    (h : dims.foldl
      (fun acc d => acc.bind fun n => if p (n * d.len) then some (n * d.len) else none) start =
      some count) :
    ∃ n, start = some n ∧ count = n * volume dims ∧ (dims ≠ [] → p count) := by
  induction dims generalizing start with
  | nil => exact ⟨count, h, (Nat.mul_one count).symm, fun hne => absurd rfl hne⟩
  | cons d rest ih =>
    obtain ⟨m, hm, rfl, hlast⟩ := ih h
    obtain ⟨n, rfl, hn⟩ := Option.bind_eq_some_iff.mp hm
    obtain ⟨hp, hstep⟩ := Option.ite_none_right_eq_some.mp hn
    obtain rfl := Option.some.inj hstep
    refine ⟨n, rfl, by rw [volume_cons, Nat.mul_assoc], fun _ => ?_⟩
    cases rest with
    | nil => exact (Nat.mul_one (n * d.len)).symm ▸ hp
    | cons d' rest => exact hlast (List.cons_ne_nil d' rest)

/-- A volume that was formed with a check after each factor has passed the check. -/
theorem foldl_checked {p : Nat → Prop} [DecidablePred p] {dims : List ArrayDim} {count : Nat}
    (h : dims.foldl
      (fun acc d => acc.bind fun n => if p (n * d.len) then some (n * d.len) else none) (some 1) =
      some count) : count = volume dims ∧ (dims ≠ [] → p count) := by
  obtain ⟨n, hone, hvolume, hlast⟩ := foldl_checked_from h
  obtain rfl := Option.some.inj hone
  exact ⟨hvolume.trans (Nat.one_mul _), hlast⟩

/-- The elements below one subscript of a dimension whose inner dimensions have volume `s`. -/
def chunk (s i : Nat) (l : List α) : List α := (l.drop (i * s)).take s

/-- Every chunk has the volume of the inner dimensions. -/
theorem length_chunk {s n i : Nat} {l : List α} (hl : l.length = n * s) (hi : i < n) :
    (chunk s i l).length = s := by
  have hle : (i + 1) * s ≤ n * s := Nat.mul_le_mul_right s hi
  rw [Nat.succ_mul] at hle
  unfold chunk
  rw [List.length_take, List.length_drop]
  omega

/-- The members of a chunk are those of the list, from the start of the chunk on. -/
theorem getElem?_chunk {s i j : Nat} (l : List α) (hj : j < s) :
    (chunk s i l)[j]? = l[i * s + j]? := by
  unfold chunk
  rw [List.getElem?_take_of_lt hj, List.getElem?_drop]

/-- The chunk in which a member of the list is, and its place there. -/
theorem getElem?_chunk_div_mod {s n i : Nat} {l : List α} {v : α} (hl : l.length = n * s)
    (hi : l[i]? = some v) : i / s < n ∧ (chunk s (i / s) l)[i % s]? = some v := by
  have hlt : i < n * s := hl ▸ (List.getElem?_eq_some_iff.mp hi).1
  have hpos : 0 < s := Nat.pos_of_mul_pos_left (Nat.zero_lt_of_lt hlt)
  refine ⟨Nat.div_lt_of_lt_mul (by rwa [Nat.mul_comm]), ?_⟩
  rw [getElem?_chunk l (Nat.mod_lt i hpos), Nat.mul_comm, Nat.div_add_mod]
  exact hi

/-! ### The elements that are present -/

/-- The members of a list that are present, each with its place; the first place is `base`. -/
def present : Nat → List (Option α) → List (Nat × α)
  | _, [] => []
  | base, none :: rest => present (base + 1) rest
  | base, some a :: rest => (base, a) :: present (base + 1) rest

/-- Behind a list the places go on. -/
theorem present_append (base : Nat) (l m : List (Option α)) :
    present base (l ++ m) = present base l ++ present (base + l.length) m := by
  induction l generalizing base with
  | nil => rfl
  | cons a rest ih =>
    have hlen : base + (a :: rest).length = base + 1 + rest.length := by
      rw [List.length_cons]
      omega
    rw [hlen, List.cons_append]
    cases a with
    | none => exact ih (base + 1)
    | some a => exact congrArg ((base, a) :: ·) (ih (base + 1))

/-- Places that start later are as much greater. -/
theorem present_add (base start : Nat) (l : List (Option α)) :
    present (base + start) l = (present start l).map fun p => (base + p.1, p.2) := by
  induction l generalizing start with
  | nil => rfl
  | cons a rest ih =>
    cases a with
    | none => exact ih (start + 1)
    | some a => exact congrArg ((base + start, a) :: ·) (ih (start + 1))

/-- What is present at a place is the member at that place. -/
theorem mem_present {i : Nat} {a : α} {l : List (Option α)} :
    (i, a) ∈ present 0 l ↔ l[i]? = some (some a) := by
  induction l generalizing i with
  | nil => simp [present]
  | cons b rest ih =>
    have hlater : (i, a) ∈ present 1 rest ↔ ∃ j, rest[j]? = some (some a) ∧ 1 + j = i := by
      rw [show (1 : Nat) = 1 + 0 from rfl, present_add, List.mem_map]
      constructor
      · rintro ⟨⟨j, c⟩, hp, heq⟩
        obtain ⟨hj, rfl⟩ := Prod.mk.inj heq
        exact ⟨j, ih.mp hp, hj⟩
      · rintro ⟨j, hj, rfl⟩
        exact ⟨(j, a), ih.mpr hj, rfl⟩
    cases b with
    | none =>
      show (i, a) ∈ present 1 rest ↔ _
      rw [hlater]
      cases i with
      | zero => simp
      | succ i => simp [Nat.add_comm 1]
    | some b =>
      show (i, a) ∈ (0, b) :: present 1 rest ↔ _
      rw [List.mem_cons, hlater]
      cases i with
      | zero => simp [eq_comm]
      | succ i => simp [Nat.add_comm 1]

/-- Places are below the length. -/
theorem lt_of_mem_present {p : Nat × α} {l : List (Option α)} (h : p ∈ present 0 l) :
    p.1 < l.length :=
  (List.getElem?_eq_some_iff.mp (mem_present (i := p.1) (a := p.2).mp h)).1

/-- The places of a list go through its chunks one after the other. -/
theorem present_take_chunks {s : Nat} {l : List (Option α)} (base n : Nat)
    (hl : n * s ≤ l.length) :
    present base (l.take (n * s)) =
      (List.range n).flatMap fun i => present (base + i * s) (chunk s i l) := by
  induction n with
  | zero => simp [present]
  | succ n ih =>
    rw [Nat.succ_mul] at hl
    have hlen : (l.take (n * s)).length = n * s := List.length_take_of_le (by omega)
    rw [Nat.succ_mul, List.take_add, present_append, hlen, ih (by omega), List.range_succ,
      List.flatMap_append]
    simp [chunk]

/-- The same for a list that is all chunks. -/
theorem present_chunks {s n : Nat} {l : List (Option α)} (base : Nat) (hl : l.length = n * s) :
    present base l = (List.range n).flatMap fun i => present (base + i * s) (chunk s i l) := by
  rw [← present_take_chunks base n (by omega), ← hl, List.take_length]

/-- Lists that agree place by place have the same places. -/
theorem forall₂_present {β : Type} {r : α → β → Prop} {l : List (Option α)}
    {m : List (Option β)} (h : List.Forall₂ (Option.Rel r) l m) (base : Nat) :
    List.Forall₂ (fun p q => p.1 = q.1 ∧ r p.2 q.2) (present base l) (present base m) := by
  induction h generalizing base with
  | nil => exact List.Forall₂.nil
  | cons hab _ ih =>
    cases hab with
    | none => exact ih (base + 1)
    | some hab => exact List.Forall₂.cons ⟨rfl, hab⟩ (ih (base + 1))

/-! ### Putting the elements in their places -/

/-- Elements put in their places behind others. -/
theorem foldl_set_present (before l : List (Option α)) :
    (present before.length l).foldl
        (fun slots p => slots.setIfInBounds p.1 (some p.2))
        (before ++ List.replicate l.length none).toArray =
      (before ++ l).toArray := by
  induction l generalizing before with
  | nil => simp [present]
  | cons a rest ih =>
    have hnext := ih (before ++ [a])
    rw [List.length_append, List.length_singleton, List.append_assoc, List.append_assoc] at hnext
    cases a with
    | none => exact hnext
    | some a =>
      have hset : (before ++ none :: List.replicate rest.length none).toArray.setIfInBounds
          before.length (some a) =
          (before ++ [some a] ++ List.replicate rest.length none).toArray := by
        simp
      show List.foldl _ ((before ++ none :: List.replicate rest.length none).toArray.setIfInBounds
        before.length (some a)) (present (before.length + 1) rest) = _
      rw [hset, List.append_assoc]
      exact hnext

/-- The present elements, put in their places, are the whole list. -/
theorem scatter_present (l : List (Option α)) :
    scatter l.length ((present 0 l).map fun p => (p.1, some p.2)) = l := by
  have hset := foldl_set_present [] l
  simp only [List.nil_append, List.length_nil] at hset
  unfold scatter
  rw [List.foldl_map, ← List.toArray_replicate, hset]

/-! ### Subscripts -/

/-- A dimension that an array can have: it is not empty and its last subscript fits thirty-two
bits. -/
structure Extent (d : ArrayDim) : Prop where
  pos : 0 < d.len
  upper_le : d.lower.toInt + d.len - 1 ≤ 2 ^ 31 - 1

/-- Dimensions that an array can have describe some elements. -/
theorem volume_pos_of_extents {dims : List ArrayDim} (h : ∀ d ∈ dims, Extent d) :
    0 < volume dims := by
  induction dims with
  | nil => exact Nat.one_pos
  | cons d inner ih =>
    rw [volume_cons]
    exact Nat.mul_pos (h d List.mem_cons_self).pos (ih fun x hx => h x (List.mem_cons_of_mem d hx))

/-- The key of a subscript. -/
def subscriptKey (d : ArrayDim) (i : Nat) : Int64 := Int64.ofInt (d.lower.toInt + i)

/-- A subscript is an integer key. -/
theorem subscript_eq (d : ArrayDim) (i : Nat) : subscript d i = .int (subscriptKey d i) := rfl

/-- Within a dimension a key is the subscript itself. -/
theorem toInt_subscriptKey {d : ArrayDim} (hd : Extent d) {i : Nat} (hi : i < d.len) :
    (subscriptKey d i).toInt = d.lower.toInt + i := by
  have hlow := d.lower.minValue_le_toInt
  have hmin : Int32.minValue.toInt = -2 ^ 31 := rfl
  have hup := hd.upper_le
  unfold subscriptKey
  rw [Int64.toInt_ofInt_of_le (by omega) (by omega)]

/-- The distance of a key from the lower bound is the index. -/
theorem toNat_subscriptKey {d : ArrayDim} (hd : Extent d) {i : Nat} (hi : i < d.len) :
    ((subscriptKey d i).toInt - d.lower.toInt).toNat = i := by
  rw [toInt_subscriptKey hd hi]
  omega

/-- Within a dimension a key fits thirty-two bits. -/
theorem subscriptKey_range {d : ArrayDim} (hd : Extent d) {i : Nat} (hi : i < d.len) :
    ¬((subscriptKey d i).toInt < -(2 ^ 31) ∨ 2 ^ 31 - 1 < (subscriptKey d i).toInt) := by
  have hlow := d.lower.minValue_le_toInt
  have hmin : Int32.minValue.toInt = -2 ^ 31 := rfl
  have hup := hd.upper_le
  rw [toInt_subscriptKey hd hi]
  omega

/-! ### Nests -/

/-- The innermost table has an entry for each element that is present. -/
theorem leafEntries_eq (d : ArrayDim) (l : List (Option ScriptValue)) :
    leafEntries d l = (present 0 l).map fun p => (subscript d p.1, p.2) := by
  have hfrom : ∀ base, ((l.zipIdx base).filterMap fun e => e.1.map fun v => (subscript d e.2, v)) =
      (present base l).map fun p => (subscript d p.1, p.2) := by
    induction l with
    | nil => exact fun _ => rfl
    | cons a rest ih =>
      intro base
      rw [List.zipIdx_cons, List.filterMap_cons]
      cases a with
      | none => exact ih (base + 1)
      | some a => exact congrArg ((subscript d base, a) :: ·) (ih (base + 1))
  exact hfrom 0

/-- The nest of one dimension. -/
theorem nest_single {d : ArrayDim} {l : List (Option ScriptValue)} (hl : l.length = d.len) :
    nest [d] l = (present 0 l).map fun p => (subscript d p.1, p.2) := by
  unfold nest
  rw [← hl, List.take_length, leafEntries_eq]

/-- The nest of several dimensions: a table for each subscript of the outermost one. -/
theorem nest_cons (d e : ArrayDim) (inner : List ArrayDim) (l : List (Option ScriptValue)) :
    nest (d :: e :: inner) l =
      (List.range d.len).map fun i =>
        (subscript d i, .table (nest (e :: inner) (chunk (volume (e :: inner)) i l))) := rfl

/-- The values of a nest are the present elements, in their places. -/
theorem placementsFrom_nest {dims : List ArrayDim} (hne : dims ≠ [])
    (hdims : ∀ d ∈ dims, Extent d) {l : List (Option ScriptValue)} (hl : l.length = volume dims)
    (base : Nat) : placementsFrom dims base (nest dims l) = present base l := by
  induction dims generalizing l base with
  | nil => exact absurd rfl hne
  | cons d inner ih =>
    have hd := hdims d List.mem_cons_self
    rw [volume_cons] at hl
    -- the innermost table has the elements that are present, an outer one a table for each chunk
    cases inner with
    | nil =>
      have hl : l.length = d.len := hl.trans (Nat.mul_one d.len)
      have hshift : present base l = (present 0 l).flatMap fun p => [(base + p.1, p.2)] := by
        rw [← List.map_eq_flatMap]
        exact present_add base 0 l
      rw [nest_single hl, hshift]
      unfold placementsFrom
      rw [List.flatMap_map]
      apply List.flatMap_congr
      intro p hp
      have hi : p.1 < d.len := hl ▸ lt_of_mem_present hp
      simp only [subscript_eq, List.isEmpty_nil, if_true, toNat_subscriptKey hd hi, List.map_nil,
        List.foldl_nil, Nat.mul_one]
    | cons e inner =>
      have hinner : ∀ x ∈ e :: inner, Extent x := fun x hx => hdims x (List.mem_cons_of_mem d hx)
      rw [nest_cons, present_chunks base hl]
      unfold placementsFrom
      rw [List.flatMap_map]
      apply List.flatMap_congr
      intro i hi
      have hi : i < d.len := List.mem_range.mp hi
      simp only [subscript_eq, List.isEmpty_cons, toNat_subscriptKey hd hi]
      exact ih (List.cons_ne_nil e inner) hinner (length_chunk hl hi) _

/-! ### Bounds -/

/-- The bounds of a level with a key more; a level without keys has none. -/
def hull : Option (Int × Int) → Int → Option (Int × Int)
  | none, k => some (k, k)
  | some (lo, hi), k => some (min lo k, max hi k)

/-- Widening the bounds of a level changes this level only. -/
theorem getElem?_widen {bounds : Bounds} {level : Nat} (h : level ≤ bounds.length) (k : Int)
    (j : Nat) :
    (bounds.widen level k)[j]? = if j = level then hull bounds[level]? k else bounds[j]? := by
  induction bounds generalizing level j with
  | nil =>
    obtain rfl : level = 0 := Nat.le_zero.mp h
    cases j <;> simp [Bounds.widen, hull]
  | cons b rest ih =>
    obtain ⟨lo, hi⟩ := b
    cases level with
    | zero => cases j <;> simp [Bounds.widen, hull]
    | succ level =>
      cases j with
      | zero => simp [Bounds.widen]
      | succ j =>
        have hrest := ih (Nat.le_of_succ_le_succ h) j
        simpa [Bounds.widen] using hrest

/-- Widening the bounds of a level leaves at least that level. -/
theorem length_widen {bounds : Bounds} {level : Nat} (h : level ≤ bounds.length) (k : Int) :
    level + 1 ≤ (bounds.widen level k).length ∧ bounds.length ≤ (bounds.widen level k).length := by
  induction bounds generalizing level with
  | nil =>
    obtain rfl : level = 0 := Nat.le_zero.mp h
    simp [Bounds.widen]
  | cons b rest ih =>
    cases level with
    | zero => simp [Bounds.widen]
    | succ level =>
      have hrest := ih (Nat.le_of_succ_le_succ h)
      simp only [Bounds.widen, List.length_cons]
      omega

/-- The bounds of a level after some keys hold what they held, all the keys, and nothing more. -/
theorem foldl_hull_some (lo hi : Int) (keys : List Int) :
    ∃ lo' hi', keys.foldl hull (some (lo, hi)) = some (lo', hi') ∧ lo' ≤ lo ∧ hi ≤ hi' ∧
      (lo' = lo ∨ lo' ∈ keys) ∧ (hi' = hi ∨ hi' ∈ keys) ∧ ∀ k ∈ keys, lo' ≤ k ∧ k ≤ hi' := by
  induction keys generalizing lo hi with
  | nil => exact ⟨lo, hi, rfl, by omega, by omega, Or.inl rfl, Or.inl rfl, by simp⟩
  | cons k rest ih =>
    obtain ⟨lo', hi', heq, hlo, hhi, hlo', hhi', hkeys⟩ := ih (min lo k) (max hi k)
    refine ⟨lo', hi', heq, by omega, by omega, ?_, ?_, ?_⟩
    · rw [List.mem_cons]
      rcases hlo' with h | h
      · omega
      · exact Or.inr (Or.inr h)
    · rw [List.mem_cons]
      rcases hhi' with h | h
      · omega
      · exact Or.inr (Or.inr h)
    · intro x hx
      rcases List.mem_cons.mp hx with rfl | hx
      · omega
      · exact hkeys x hx

/-- The bounds of a level are the least and the greatest of its keys. -/
theorem foldl_hull_none {lo hi : Int} {keys : List Int} (hlo : lo ∈ keys) (hhi : hi ∈ keys)
    (hkeys : ∀ k ∈ keys, lo ≤ k ∧ k ≤ hi) : keys.foldl hull none = some (lo, hi) := by
  cases keys with
  | nil => exact absurd hlo List.not_mem_nil
  | cons k rest =>
    obtain ⟨lo', hi', heq, hk, hk', hlo', hhi', hrest⟩ := foldl_hull_some k k rest
    have hall : ∀ x ∈ k :: rest, lo' ≤ x ∧ x ≤ hi' := by
      intro x hx
      rcases List.mem_cons.mp hx with rfl | hx
      · exact ⟨hk, hk'⟩
      · exact hrest x hx
    have hmem : lo' ∈ k :: rest := by
      rcases hlo' with rfl | h
      · exact List.mem_cons_self
      · exact List.mem_cons_of_mem k h
    have hmem' : hi' ∈ k :: rest := by
      rcases hhi' with rfl | h
      · exact List.mem_cons_self
      · exact List.mem_cons_of_mem k h
    have h1 := hkeys lo' hmem
    have h2 := hkeys hi' hmem'
    have h3 := hall lo hlo
    have h4 := hall hi hhi
    show rest.foldl hull (some (k, k)) = _
    rw [heq, show lo' = lo by omega, show hi' = hi by omega]

/-! ### Scanning -/

/-- From every list of bounds that has the levels below `level`, the scan finds chains of the given
depth, and widens the bounds of each level by the given keys. -/
def Scans (scan : Bounds → Outcome (Option Nat × Bounds)) (level : Nat) (depth : Option Nat)
    (keys : Nat → List Int) : Prop :=
  ∀ bounds : Bounds, level ≤ bounds.length → ∃ bounds',
    scan bounds = .ok (depth, bounds') ∧ bounds.length ≤ bounds'.length ∧
      ∀ j, bounds'[j]? = (keys j).foldl hull bounds[j]?

variable {maxDims level : Nat} {leafTables : Bool}

/-- What is no table, or counts as an element, is the end of a chain. -/
theorem scans_leaf {v : ScriptValue} (hv : leafTables = true ∨ ∀ entries, v ≠ .table entries) :
    Scans (fun bounds => scanValue maxDims leafTables level bounds v) (level + 1) (some 1)
      fun _ => [] := by
  intro bounds _
  refine ⟨bounds, ?_, Nat.le_refl _, fun _ => rfl⟩
  cases v with
  | table entries =>
    rcases hv with rfl | hv
    · simp [scanValue]
    · exact absurd rfl (hv entries)
  | _ => simp [scanValue]

/-- A table that is no element makes the chains in it longer by one. -/
theorem scans_table {entries : ScriptTable} {depth : Option Nat} {keys : Nat → List Int}
    (h : Scans (fun bounds => scanEntries maxDims false (level + 1) none bounds entries)
      (level + 1) depth keys) :
    Scans (fun bounds => scanValue maxDims false level bounds (.table entries)) (level + 1)
      (depth.map (· + 1)) keys := by
  intro bounds hlen
  obtain ⟨bounds', hscan, hlen', hkeys⟩ := h bounds hlen
  refine ⟨bounds', ?_, hlen', hkeys⟩
  simp only [scanValue, Bool.false_eq_true, if_false]
  have hscan : scanEntries maxDims false (level + 1) none bounds entries = .ok (depth, bounds') :=
    hscan
  rw [hscan]
  rfl

/-- The depth of the chains in a list of entries, when all of them have depth `n`. -/
theorem joinDepth_eq {n : Nat} {a b : Option Nat} (ha : a = none ∨ a = some n)
    (hb : b = none ∨ b = some n) : joinDepth a b = .ok (a.or b) := by
  rcases ha with rfl | rfl <;> rcases hb with rfl | rfl <;> simp [joinDepth]

/-- The keys that a list of entries brings to level `j`: its own keys to the level of the list, and
what the values bring. -/
def entryKeys {ι : Type} (level : Nat) (is : List ι) (key : ι → Int64)
    (keys : ι → Nat → List Int) (j : Nat) : List Int :=
  is.flatMap fun i => (if j = level then [(key i).toInt] else []) ++ keys i j

section EntryKeys

variable {ι : Type} {is : List ι} {key : ι → Int64} {keys : ι → Nat → List Int} {j : Nat} {k : Int}

/-- A key at a level comes from the list, if it is its level, or from a value. -/
theorem mem_entryKeys :
    k ∈ entryKeys level is key keys j ↔
      ∃ i ∈ is, (j = level ∧ k = (key i).toInt) ∨ k ∈ keys i j := by
  unfold entryKeys
  simp only [List.mem_flatMap, List.mem_append]
  by_cases hj : j = level <;> simp [hj]

/-- Where the values bring nothing and the list has another level there are no keys. -/
theorem entryKeys_eq_nil (hj : j ≠ level) (hkeys : ∀ i ∈ is, keys i j = []) :
    entryKeys level is key keys j = [] := by
  rw [List.eq_nil_iff_forall_not_mem]
  intro k hk
  obtain ⟨i, hi, ⟨heq, -⟩ | hin⟩ := mem_entryKeys.mp hk
  · exact hj heq
  · rw [hkeys i hi] at hin
    exact absurd hin List.not_mem_nil

end EntryKeys

/-- A list of entries whose keys are in range: the chains have the depth of those of the entries,
and the bounds hold the keys of this level and what the values bring. -/
theorem scans_entries {ι : Type} (level n : Nat) {depth : Option Nat}
    (hdepth : depth = none ∨ depth = some n) (is : List ι) (key : ι → Int64)
    (value : ι → ScriptValue) (below : ι → Option Nat) (keys : ι → Nat → List Int)
    (hlevel : level < maxDims)
    (hrange : ∀ i ∈ is, ¬((key i).toInt < -(2 ^ 31) ∨ 2 ^ 31 - 1 < (key i).toInt))
    (hvalue : ∀ i ∈ is, Scans (fun bounds => scanValue maxDims leafTables level bounds (value i))
      (level + 1) (below i) (keys i))
    (hbelow : ∀ i ∈ is, below i = none ∨ below i = some n) :
    Scans
      (fun bounds => scanEntries maxDims leafTables level depth bounds
        (is.map fun i => (.int (key i), value i)))
      level (is.foldl (fun depth i => depth.or (below i)) depth) (entryKeys level is key keys) := by
  induction is generalizing depth with
  | nil =>
    intro bounds _
    refine ⟨bounds, ?_, Nat.le_refl _, fun _ => rfl⟩
    simp [scanEntries]
  | cons i rest ih =>
    intro bounds hlen
    obtain ⟨hgrown, hlonger⟩ := length_widen hlen (key i).toInt
    -- first the key widens this level, then the value its levels, then the rest of the entries
    obtain ⟨bounds₁, hfirst, hlen₁, hkeys₁⟩ :=
      hvalue i List.mem_cons_self (bounds.widen level (key i).toInt) hgrown
    have hjoined : depth.or (below i) = none ∨ depth.or (below i) = some n := by
      rcases hdepth with rfl | rfl
      · exact hbelow i List.mem_cons_self
      · exact Or.inr rfl
    obtain ⟨bounds₂, hrest, hlen₂, hkeys₂⟩ :=
      ih hjoined (fun x hx => hrange x (List.mem_cons_of_mem i hx))
        (fun x hx => hvalue x (List.mem_cons_of_mem i hx))
        (fun x hx => hbelow x (List.mem_cons_of_mem i hx)) bounds₁ (by omega)
    refine ⟨bounds₂, ?_, by omega, ?_⟩
    · have hfirst : scanValue maxDims leafTables level (bounds.widen level (key i).toInt)
          (value i) = .ok (below i, bounds₁) := hfirst
      simp only [List.map_cons, scanEntries, if_neg (Nat.not_le.mpr hlevel),
        if_neg (hrange i List.mem_cons_self), hfirst,
        joinDepth_eq hdepth (hbelow i List.mem_cons_self)]
      exact hrest
    · intro j
      rw [hkeys₂, hkeys₁, getElem?_widen hlen]
      simp only [entryKeys, List.flatMap_cons, List.foldl_append]
      by_cases hj : j = level
      · simp [hj]
      · simp [hj]

/-- Joining depths that are all none or `n` gives none or `n`. -/
theorem foldl_or {ι : Type} (n : Nat) (is : List ι) (below : ι → Option Nat)
    (hbelow : ∀ i ∈ is, below i = none ∨ below i = some n) {depth : Option Nat}
    (hdepth : depth = none ∨ depth = some n) :
    (is.foldl (fun depth i => depth.or (below i)) depth = none ∨
      is.foldl (fun depth i => depth.or (below i)) depth = some n) ∧
    ((depth = some n ∨ ∃ i ∈ is, below i = some n) →
      is.foldl (fun depth i => depth.or (below i)) depth = some n) := by
  induction is generalizing depth with
  | nil => simpa using hdepth
  | cons i rest ih =>
    have hi := hbelow i List.mem_cons_self
    have hjoined : depth.or (below i) = none ∨ depth.or (below i) = some n := by
      rcases hdepth with rfl | rfl
      · exact hi
      · exact Or.inr rfl
    obtain ⟨hcases, hsome⟩ := ih (fun x hx => hbelow x (List.mem_cons_of_mem i hx)) hjoined
    refine ⟨hcases, fun h => hsome ?_⟩
    rcases h with rfl | ⟨x, hx, hxn⟩
    · exact Or.inl rfl
    · rcases List.mem_cons.mp hx with rfl | hx
      · left
        rcases hdepth with rfl | rfl
        · exact hxn
        · rfl
      · exact Or.inr ⟨x, hx, hxn⟩

/-- An array has an element at its first and one at its last subscript of the last dimension. In
row-major order the last subscript runs fastest. -/
structure EdgesPresent (dims : List ArrayDim) (l : List (Option α)) : Prop where
  first : ∃ d i a, dims.getLast? = some d ∧ l[i]? = some (some a) ∧ i % d.len = 0
  last : ∃ d i a, dims.getLast? = some d ∧ l[i]? = some (some a) ∧ i % d.len = d.len - 1

/-- The keys of a nest, level by level from `level` on: they lie within the dimensions, those of an
outer dimension reach both of its bounds, and those of the last one do so where an element is
present. -/
structure Covers (dims : List ArrayDim) (l : List (Option ScriptValue)) (level : Nat)
    (keys : Nat → List Int) : Prop where
  above : ∀ j < level, keys j = []
  inside : ∀ r d, dims[r]? = some d → ∀ k ∈ keys (level + r),
    d.lower.toInt ≤ k ∧ k ≤ d.lower.toInt + d.len - 1
  outer : ∀ r d, r + 1 < dims.length → dims[r]? = some d →
    d.lower.toInt ∈ keys (level + r) ∧ d.lower.toInt + d.len - 1 ∈ keys (level + r)
  innermost : ∀ d i v, dims.getLast? = some d → l[i]? = some (some v) →
    d.lower.toInt + (i % d.len : Nat) ∈ keys (level + (dims.length - 1))

/-- The last dimension divides the volume. -/
theorem getLast_dvd_volume {dims : List ArrayDim} {d : ArrayDim} (h : dims.getLast? = some d) :
    d.len ∣ volume dims := by
  induction dims with
  | nil => exact nomatch h
  | cons e inner ih =>
    rw [volume_cons]
    cases inner with
    | nil =>
      obtain rfl : e = d := Option.some.inj h
      exact Nat.dvd_mul_right _ _
    | cons f inner =>
      rw [List.getLast?_cons_cons] at h
      exact Nat.dvd_mul_left_of_dvd (ih h) _

/-- The keys of a nest of one dimension are the subscripts of the elements that are present. -/
theorem covers_single {d : ArrayDim} (hd : Extent d) {l : List (Option ScriptValue)}
    (hl : l.length = d.len) :
    Covers [d] l level
      (entryKeys level (present 0 l) (fun p => subscriptKey d p.1) fun _ _ => []) where
  above j hj := entryKeys_eq_nil (Nat.ne_of_lt hj) fun _ _ => rfl
  inside r e he k hk := by
    cases r with
    | succ r => exact nomatch he
    | zero =>
      obtain rfl : d = e := Option.some.inj he
      obtain ⟨p, hp, ⟨-, rfl⟩ | hin⟩ := mem_entryKeys.mp hk
      · have hi : p.1 < d.len := hl ▸ lt_of_mem_present hp
        rw [toInt_subscriptKey hd hi]
        omega
      · exact absurd hin List.not_mem_nil
  outer r e hr _ := by simp at hr
  innermost e i v he hi := by
    obtain rfl : d = e := Option.some.inj he
    have hlt : i < d.len := hl ▸ (List.getElem?_eq_some_iff.mp hi).1
    refine mem_entryKeys.mpr ⟨(i, v), mem_present.mpr hi, .inl ⟨rfl, ?_⟩⟩
    rw [toInt_subscriptKey hd hlt, Nat.mod_eq_of_lt hlt]

/-- The keys of a nest of several dimensions: every subscript of the outermost one, and level by
level the keys of the tables below them. -/
theorem covers_cons {d : ArrayDim} (hd : Extent d) {inner : List ArrayDim} (hne : inner ≠ [])
    {l : List (Option ScriptValue)} (hl : l.length = d.len * volume inner)
    {keys : Nat → Nat → List Int}
    (h : ∀ i < d.len, Covers inner (chunk (volume inner) i l) (level + 1) (keys i)) :
    Covers (d :: inner) l level
      (entryKeys level (List.range d.len) (subscriptKey d) keys) where
  above j hj := by
    refine entryKeys_eq_nil (Nat.ne_of_lt hj) fun i hi => ?_
    exact (h i (List.mem_range.mp hi)).above j (Nat.lt_succ_of_lt hj)
  inside r e he k hk := by
    obtain ⟨i, hi, hk⟩ := mem_entryKeys.mp hk
    have hi : i < d.len := List.mem_range.mp hi
    rcases hk with ⟨hlevel, rfl⟩ | hk
    · obtain rfl : r = 0 := by omega
      obtain rfl : d = e := Option.some.inj he
      rw [toInt_subscriptKey hd hi]
      omega
    · cases r with
      | zero =>
        -- the tables below bring nothing to the level of the outermost dimension
        rw [Nat.add_zero, (h i hi).above level (Nat.lt_succ_self level)] at hk
        exact absurd hk List.not_mem_nil
      | succ r =>
        rw [show level + (r + 1) = level + 1 + r by omega] at hk
        exact (h i hi).inside r e he k hk
  outer r e hr he := by
    have hpos := hd.pos
    cases r with
    | zero =>
      obtain rfl : d = e := Option.some.inj he
      have hkey : ∀ i < d.len,
          d.lower.toInt + i ∈ entryKeys level (List.range d.len) (subscriptKey d) keys level :=
        fun i hi => mem_entryKeys.mpr
          ⟨i, List.mem_range.mpr hi, .inl ⟨rfl, (toInt_subscriptKey hd hi).symm⟩⟩
      have hlast := hkey (d.len - 1) (by omega)
      rw [show d.lower.toInt + (d.len - 1 : Nat) = d.lower.toInt + d.len - 1 by omega] at hlast
      exact ⟨by simpa using hkey 0 hpos, hlast⟩
    | succ r =>
      -- every subscript has a table, so the one at the first subscript reaches the inner bounds
      obtain ⟨hlo, hhi⟩ := (h 0 hpos).outer r e (by simpa using hr) he
      rw [show level + 1 + r = level + (r + 1) by omega] at hlo hhi
      exact ⟨mem_entryKeys.mpr ⟨0, List.mem_range.mpr hpos, .inr hlo⟩,
        mem_entryKeys.mpr ⟨0, List.mem_range.mpr hpos, .inr hhi⟩⟩
  innermost e i v he hi := by
    obtain ⟨f, inner, rfl⟩ := List.exists_cons_of_ne_nil hne
    rw [List.getLast?_cons_cons] at he
    obtain ⟨hlt, hin⟩ := getElem?_chunk_div_mod hl hi
    have hkey := (h _ hlt).innermost e _ v he hin
    rw [Nat.mod_mod_of_dvd i (getLast_dvd_volume he)] at hkey
    refine mem_entryKeys.mpr ⟨_, List.mem_range.mpr hlt, .inr ?_⟩
    rw [show level + ((d :: f :: inner).length - 1) = level + 1 + ((f :: inner).length - 1) by
      simp only [List.length_cons]
      omega]
    exact hkey

/-- A scan of a nest finds its depth, if anything is in it, and keys that cover its dimensions. -/
def ScansNest (maxDims : Nat) (leafTables : Bool) (level : Nat) (dims : List ArrayDim)
    (l : List (Option ScriptValue)) : Prop :=
  ∃ depth keys,
    Scans (fun bounds => scanEntries maxDims leafTables level none bounds (nest dims l)) level
      depth keys ∧
    (depth = none ∨ depth = some dims.length) ∧
    ((∃ v, some v ∈ l) → depth = some dims.length) ∧
    Covers dims l level keys

theorem scansNest_single {d : ArrayDim} (hd : Extent d) {l : List (Option ScriptValue)}
    (hl : l.length = d.len)
    (hleaf : ∀ v, some v ∈ l → leafTables = true ∨ ∀ entries, v ≠ .table entries)
    (hlevel : level < maxDims) : ScansNest maxDims leafTables level [d] l := by
  have hvalue : ∀ p ∈ present 0 l,
      Scans (fun bounds => scanValue maxDims leafTables level bounds p.2) (level + 1) (some 1)
        fun _ => [] := by
    intro p hp
    exact scans_leaf (hleaf p.2 (List.mem_of_getElem? (mem_present (i := p.1).mp hp)))
  have hscans := scans_entries level 1 (Or.inl rfl) (present 0 l) (fun p => subscriptKey d p.1)
    (fun p => p.2) (fun _ => some 1) (fun _ _ => []) hlevel
    (fun p hp => subscriptKey_range hd (hl ▸ lt_of_mem_present hp)) hvalue (fun _ _ => Or.inr rfl)
  obtain ⟨hcases, hsome⟩ := foldl_or 1 (present 0 l) (fun _ => some 1)
    (fun _ _ => Or.inr rfl) (Or.inl rfl)
  unfold ScansNest
  rw [nest_single hl]
  refine ⟨_, _, hscans, hcases, ?_, covers_single hd hl⟩
  rintro ⟨v, hv⟩
  obtain ⟨i, hi⟩ := List.mem_iff_getElem?.mp hv
  exact hsome (Or.inr ⟨(i, v), mem_present.mpr hi, rfl⟩)

theorem scansNest_cons {d : ArrayDim} (hd : Extent d) {inner : List ArrayDim} (hne : inner ≠ [])
    {l : List (Option ScriptValue)} (hl : l.length = d.len * volume inner)
    (hlevel : level < maxDims)
    (h : ∀ i < d.len, ScansNest maxDims false (level + 1) inner (chunk (volume inner) i l)) :
    ScansNest maxDims false level (d :: inner) l := by
  choose! depth keys hscans hcases hsome hcovers using h
  have hmap : ∀ i < d.len, (depth i).map (· + 1) = none ∨
      (depth i).map (· + 1) = some (d :: inner).length := by
    intro i hi
    rcases hcases i hi with h | h <;> rw [h]
    · exact Or.inl rfl
    · exact Or.inr rfl
  have hentries := scans_entries level (d :: inner).length (Or.inl rfl)
    (List.range d.len) (subscriptKey d) (fun i => .table (nest inner (chunk (volume inner) i l)))
    (fun i => (depth i).map (· + 1)) keys hlevel
    (fun i hi => subscriptKey_range hd (List.mem_range.mp hi))
    (fun i hi => scans_table (hscans i (List.mem_range.mp hi)))
    (fun i hi => hmap i (List.mem_range.mp hi))
  obtain ⟨hdepth, hfound⟩ := foldl_or (d :: inner).length (List.range d.len)
    (fun i => (depth i).map (· + 1)) (fun i hi => hmap i (List.mem_range.mp hi)) (Or.inl rfl)
  obtain ⟨e, further, rfl⟩ := List.exists_cons_of_ne_nil hne
  refine ⟨_, _, hentries, hdepth, ?_, covers_cons hd hne hl hcovers⟩
  -- an element that is present is in some chunk, and makes the chain through it as long
  rintro ⟨v, hmem⟩
  obtain ⟨i, hi⟩ := List.mem_iff_getElem?.mp hmem
  obtain ⟨hlt, hin⟩ := getElem?_chunk_div_mod hl hi
  refine hfound (Or.inr ⟨i / volume (e :: further), List.mem_range.mpr hlt, ?_⟩)
  rw [hsome _ hlt ⟨v, List.mem_of_getElem? hin⟩]
  rfl

/-- Scanning a nest finds its depth, if anything is in it, and its keys. -/
theorem scans_nest {dims : List ArrayDim} (hne : dims ≠ []) (hdims : ∀ d ∈ dims, Extent d)
    {l : List (Option ScriptValue)} (hl : l.length = volume dims)
    (hleaf : leafTables = true ∧ dims.length = 1 ∨
      leafTables = false ∧ ∀ v, some v ∈ l → ∀ entries, v ≠ .table entries)
    (hlevel : level + dims.length ≤ maxDims) : ScansNest maxDims leafTables level dims l := by
  induction dims generalizing l level with
  | nil => exact absurd rfl hne
  | cons d inner ih =>
    have hd := hdims d List.mem_cons_self
    rw [List.length_cons] at hlevel
    rw [volume_cons] at hl
    cases inner with
    | nil =>
      refine scansNest_single hd (hl.trans (Nat.mul_one d.len)) (fun v hv => ?_) (by omega)
      exact hleaf.imp (·.1) (·.2 v hv)
    | cons e inner =>
      -- several dimensions are only there where tables are no elements
      obtain ⟨rfl, hv⟩ : leafTables = false ∧ ∀ v, some v ∈ l → ∀ entries, v ≠ .table entries := by
        rcases hleaf with ⟨-, h⟩ | h
        · simp at h
        · exact h
      have hinner : ∀ x ∈ e :: inner, Extent x := fun x hx => hdims x (List.mem_cons_of_mem d hx)
      refine scansNest_cons hd (List.cons_ne_nil e inner) hl (by omega) fun i hi => ?_
      refine ih (List.cons_ne_nil e inner) hinner (length_chunk hl hi) (Or.inr ⟨rfl, ?_⟩) (by omega)
      intro v hmem
      exact hv v (List.mem_of_mem_drop (List.mem_of_mem_take hmem))

/-- The bounds that the keys of a nest give are those of its dimensions. -/
theorem Covers.bounds {dims : List ArrayDim} {l : List (Option ScriptValue)} {keys : Nat → List Int}
    (h : Covers dims l 0 keys) (hdims : ∀ d ∈ dims, Extent d) (hedges : EdgesPresent dims l)
    {r : Nat} {d : ArrayDim} (hr : dims[r]? = some d) :
    (keys r).foldl hull none = some (d.lower.toInt, d.lower.toInt + d.len - 1) := by
  have hinside := h.inside r d hr
  rw [Nat.zero_add] at hinside
  obtain ⟨hlt, -⟩ := List.getElem?_eq_some_iff.mp hr
  by_cases houter : r + 1 < dims.length
  · obtain ⟨hlo, hhi⟩ := h.outer r d houter hr
    rw [Nat.zero_add] at hlo hhi
    exact foldl_hull_none hlo hhi hinside
  · have hlast : dims.length - 1 = r := by omega
    have hget : dims.getLast? = some d := by
      rw [List.getLast?_eq_getElem?, hlast]
      exact hr
    have hpos := (hdims d (List.mem_of_getElem? hr)).pos
    obtain ⟨d₁, i, v, hd₁, hi, hmod⟩ := hedges.first
    obtain ⟨d₂, j, w, hd₂, hj, hmod'⟩ := hedges.last
    have hlo := h.innermost d₁ i v hd₁ hi
    have hhi := h.innermost d₂ j w hd₂ hj
    obtain rfl : d = d₁ := Option.some.inj (hget.symm.trans hd₁)
    obtain rfl : d = d₂ := Option.some.inj (hget.symm.trans hd₂)
    rw [Nat.zero_add, hlast, hmod] at hlo
    rw [Nat.zero_add, hlast, hmod'] at hhi
    refine foldl_hull_none (by simpa using hlo) ?_ hinside
    rw [show d.lower.toInt + d.len - 1 = d.lower.toInt + (d.len - 1 : Nat) by omega]
    exact hhi

/-- The bounds of a dimension give the dimension back. -/
theorem dimOfBounds_extent {d : ArrayDim} (hd : Extent d) :
    dimOfBounds (d.lower.toInt, d.lower.toInt + d.len - 1) = d := by
  have hpos := hd.pos
  obtain ⟨len, lower⟩ := d
  unfold dimOfBounds
  simp only [Int32.ofInt_toInt, ArrayDim.mk.injEq, and_true]
  simp only at hpos
  omega

/-- The shape of a nest is that of the array it was made from. -/
theorem scan_nest {dims : List ArrayDim} (hne : dims ≠ []) (hdims : ∀ d ∈ dims, Extent d)
    {l : List (Option ScriptValue)} (hl : l.length = volume dims)
    (hleaf : leafTables = true ∧ dims.length = 1 ∨
      leafTables = false ∧ ∀ v, some v ∈ l → ∀ entries, v ≠ .table entries)
    (hmax : dims.length ≤ maxDims) (hedges : EdgesPresent dims l) :
    scan maxDims leafTables (nest dims l) = .ok dims := by
  have hroom : 0 + dims.length ≤ maxDims := by rwa [Nat.zero_add]
  obtain ⟨depth, keys, hscans, -, hdepth, hcovers⟩ := scans_nest hne hdims hl hleaf hroom
  obtain ⟨bounds, hscan, -, hbounds⟩ := hscans [] (Nat.zero_le _)
  obtain ⟨-, i, v, -, hi, -⟩ := hedges.first
  have hscan : scanEntries maxDims leafTables 0 none [] (nest dims l) = .ok (depth, bounds) := hscan
  unfold scan
  rw [hscan, hdepth ⟨v, List.mem_of_getElem? hi⟩]
  show Except.ok ((bounds.take dims.length).map dimOfBounds) = _
  congr 1
  apply List.ext_getElem?
  intro r
  rw [List.getElem?_map, List.getElem?_take]
  split
  · rename_i hlt
    obtain ⟨d, hr⟩ : ∃ d, dims[r]? = some d := ⟨dims[r], List.getElem?_eq_getElem hlt⟩
    rw [hbounds, List.getElem?_nil, hcovers.bounds hdims hedges hr, hr, Option.map_some,
      dimOfBounds_extent (hdims d (List.mem_of_getElem? hr))]
  · rename_i hge
    rw [List.getElem?_eq_none (by omega)]
    rfl

end StoredRoutine.Marshal
