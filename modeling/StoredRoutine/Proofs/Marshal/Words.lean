import StoredRoutine.Proofs.Marshal.Chains
import StoredRoutine.Proofs.Marshal.RoundTrip

/-!
# `StoredRoutine.Proofs.Marshal.Words`: slots in the arithmetic of machine words

The dimensions of a nest, its slots and their number are calculated with numbers of any size. A
machine has words of sixty-four bits, and what does not fit is an overflow. Here are the same
calculations in words, without a value where a step overflows: `dimWords?`, `slotWords?`,
`strideWords?`, `fillWords?`. For what a scan has found none of them overflows (`Exact`). The keys
are below `2 ^ 31`, so the length of a dimension fits; the product of the lengths is checked at each
step; and no slot lies behind the product.

That the slots are below the product is said of a value that lies `Inside` the dimensions. The
bounds come from one recursion over the table and the slots from another one: `bounded_scanEntries`
has what the first one promises, `range_of_mem_placed`, `nodup_placed` and `fillWords?_eq` are
what becomes of it in the second one.
-/

set_option autoImplicit false

namespace StoredRoutine.Marshal

/-! ### Words -/

/-- A number with a sign, if it fits sixty-four bits. -/
def long? (n : Int) : Option Int := if -(2 ^ 63) ≤ n ∧ n < 2 ^ 63 then some n else none

/-- A number without a sign, if it fits sixty-four bits. -/
def word? (n : Nat) : Option Nat := if n < 2 ^ 64 then some n else none

/-- A number with a sign as one without, if it has none. -/
def wordOfLong? (n : Int) : Option Nat := if 0 ≤ n then some n.toNat else none

/-- A number with a sign in thirty-two bits, if it fits. -/
def int? (n : Int) : Option Int32 :=
  if -(2 ^ 31) ≤ n ∧ n ≤ 2 ^ 31 - 1 then some (Int32.ofInt n) else none

theorem long?_eq {n : Int} (hlow : -(2 ^ 63) ≤ n) (hhigh : n < 2 ^ 63) : long? n = some n :=
  if_pos ⟨hlow, hhigh⟩

theorem word?_eq {n : Nat} (h : n < 2 ^ 64) : word? n = some n := if_pos h

theorem wordOfLong?_eq {n : Int} (h : 0 ≤ n) : wordOfLong? n = some n.toNat := if_pos h

/-! ### Dimensions -/

/-- The dimension between two subscripts: the difference and one more, both with a sign. -/
def dimWords? (b : Int × Int) : Option ArrayDim := do
  let span ← long? (b.2 - b.1)
  let count ← long? (span + 1)
  let len ← wordOfLong? count
  let lower ← int? b.1
  return ⟨len, lower⟩

/-- Subscripts of thirty-two bits have differences that fit. -/
theorem dimWords?_eq {lo hi : Int} (hlo : InRange lo) (hhi : InRange hi) (hle : lo ≤ hi) :
    dimWords? (lo, hi) = some (dimOfBounds (lo, hi)) := by
  have hspan : long? (hi - lo) = some (hi - lo) := by
    unfold InRange at hlo hhi
    exact long?_eq (by omega) (by omega)
  have hcount : long? (hi - lo + 1) = some (hi - lo + 1) := by
    unfold InRange at hlo hhi
    exact long?_eq (by omega) (by omega)
  have hlen : wordOfLong? (hi - lo + 1) = some (hi - lo + 1).toNat := wordOfLong?_eq (by omega)
  have hlower : int? lo = some (Int32.ofInt lo) := if_pos hlo
  unfold dimWords?
  simp only [hspan, hcount, hlen, hlower, Option.bind_eq_bind, Option.bind_some]
  rfl

/-! ### The number of slots -/

/-- The product of the lengths, checked against the ceiling after each step. -/
def slotWords? (maxAllocSize : Nat) (dims : List ArrayDim) : Option Nat :=
  dims.foldl
    (fun acc d => acc.bind fun n =>
      (word? (n * d.len)).filter fun n => n ≤ maxAllocSize / slotBytes)
    (some 1)

/-- A product that overflows is above the ceiling. -/
theorem slotWords?_eq {maxAllocSize : Nat} (hword : maxAllocSize < 2 ^ 64)
    (dims : List ArrayDim) : slotWords? maxAllocSize dims = slotCount? maxAllocSize dims := by
  have hceiling : maxAllocSize / slotBytes < 2 ^ 64 :=
    Nat.lt_of_le_of_lt (Nat.div_le_self _ _) hword
  have hstep : ∀ n, (word? n).filter (fun n => n ≤ maxAllocSize / slotBytes) =
      if n ≤ maxAllocSize / slotBytes then some n else none := by
    intro n
    by_cases hn : n ≤ maxAllocSize / slotBytes
    · rw [word?_eq (Nat.lt_of_le_of_lt hn hceiling), if_pos hn]
      exact if_pos (decide_eq_true hn)
    · rw [if_neg hn]
      unfold word?
      split
      · exact if_neg (by simpa using hn)
      · rfl
  unfold slotWords? slotCount?
  simp only [hstep]

/-- The slots are counted if there are no more of them than the ceiling has room for. -/
theorem slotCount?_eq {maxAllocSize : Nat} {dims : List ArrayDim} (hne : dims ≠ [])
    (hdims : ∀ d ∈ dims, Extent d) :
    slotCount? maxAllocSize dims =
      if volume dims ≤ maxAllocSize / slotBytes then some (volume dims) else none := by
  split
  next hle =>
    have hcount := foldl_volume (p := fun n => n ≤ maxAllocSize / slotBytes) (n := 1)
      (fun i j hij hj => Nat.le_trans hij hj) hdims ((Nat.one_mul _).symm ▸ hle)
    rw [Nat.one_mul] at hcount
    exact hcount
  next hgt =>
    cases hcount : slotCount? maxAllocSize dims with
    | none => rfl
    | some count =>
      obtain ⟨rfl, hle⟩ := foldl_checked (p := fun n => n ≤ maxAllocSize / slotBytes) hcount
      exact absurd (hle hne) hgt

/-! ### Strides -/

/-- The strides from the last dimension on: each is the next one times the length there. -/
def strideWords? : List ArrayDim → Option (List Nat)
  | [] => some []
  | [_] => some [1]
  | _ :: d :: inner => do
    let steps ← strideWords? (d :: inner)
    let step ← word? (steps.headD 1 * d.len)
    return step :: steps

theorem strides_cons (d : ArrayDim) (inner : List ArrayDim) :
    strides (d :: inner) = volume inner :: strides inner := rfl

/-- A stride is a factor of the product. -/
theorem strideWords?_eq {dims : List ArrayDim} (hdims : ∀ d ∈ dims, Extent d)
    (hvolume : volume dims < 2 ^ 64) : strideWords? dims = some (strides dims) := by
  match dims with
  | [] => rfl
  | [_] => rfl
  | first :: d :: inner =>
    have hpos := (hdims first List.mem_cons_self).pos
    have hinner : volume (d :: inner) < 2 ^ 64 := by
      rw [volume_cons] at hvolume
      exact Nat.lt_of_le_of_lt (Nat.le_mul_of_pos_left _ hpos) hvolume
    have hsteps := strideWords?_eq (fun x hx => hdims x (List.mem_cons_of_mem first hx)) hinner
    have hstep : (strides (d :: inner)).headD 1 * d.len = volume (d :: inner) := by
      rw [strides_cons, List.headD_cons, volume_cons, Nat.mul_comm]
    unfold strideWords?
    simp only [hsteps, Option.bind_eq_bind, Option.bind_some, hstep, word?_eq hinner]
    rfl

/-! ### Slots -/

/-- Whether the keys of a value lie within the dimensions of their levels. A value that is reached
behind the last dimension is an element. -/
def Inside : List ArrayDim → ScriptValue → Prop
  | d :: inner, .table entries => ∀ k v, (ScriptKey.int k, v) ∈ entries →
    (d.lower.toInt ≤ k.toInt ∧ k.toInt ≤ d.lower.toInt + d.len - 1) ∧ Inside inner v
  | _, _ => True

/-- What is placed of a value that stands behind the outer dimensions, whose slot is `base`. -/
def placed (dims : List ArrayDim) (base : Nat) (v : ScriptValue) : List (Nat × ScriptValue) :=
  if dims.isEmpty then [(base, v)]
  else
    match v with
    | .table entries => placementsFrom dims base entries
    | _ => []

/-- The slot of a key. -/
def slotOf (d : ArrayDim) (inner : List ArrayDim) (base : Nat) (k : Int64) : Nat :=
  base + (k.toInt - d.lower.toInt).toNat * volume inner

theorem placed_cons_table (d : ArrayDim) (inner : List ArrayDim) (base : Nat)
    (entries : ScriptTable) :
    placed (d :: inner) base (.table entries) = entries.flatMap fun e =>
      match e.1 with
      | .text _ => []
      | .int k => placed inner (slotOf d inner base k) e.2 := rfl

theorem placements_eq {dims : List ArrayDim} (hne : dims ≠ []) (entries : ScriptTable) :
    placements dims entries = placed dims 0 (.table entries) := by
  unfold placed
  rw [if_neg (by simpa using hne)]
  rfl

/-- The slots of a key take up the room below it. -/
theorem slotOf_add_le {d : ArrayDim} {k : Int64}
    (hk : d.lower.toInt ≤ k.toInt ∧ k.toInt ≤ d.lower.toInt + d.len - 1) (inner : List ArrayDim)
    (base : Nat) : slotOf d inner base k + volume inner ≤ base + volume (d :: inner) := by
  have hindex : (k.toInt - d.lower.toInt).toNat + 1 ≤ d.len := by omega
  have hroom := Nat.mul_le_mul_right (volume inner) hindex
  rw [Nat.succ_mul] at hroom
  unfold slotOf
  rw [volume_cons]
  omega

/-- The slots below a value lie within as much room as its dimensions need. -/
theorem range_of_mem_placed {dims : List ArrayDim} {base : Nat} {v : ScriptValue}
    (hinside : Inside dims v) {p : Nat × ScriptValue} (hp : p ∈ placed dims base v) :
    base ≤ p.1 ∧ p.1 < base + volume dims := by
  induction dims generalizing base v with
  | nil =>
    rw [List.mem_singleton.mp hp]
    exact ⟨Nat.le_refl base, Nat.lt_succ_self base⟩
  | cons d inner ih =>
    cases v with
    | table entries =>
      rw [placed_cons_table, List.mem_flatMap] at hp
      obtain ⟨⟨key, v⟩, hmem, hp⟩ := hp
      cases key with
      | text s => exact absurd hp List.not_mem_nil
      | int k =>
        obtain ⟨hk, hv⟩ := hinside k v hmem
        obtain ⟨hlow, hhigh⟩ := ih hv hp
        have hroom := slotOf_add_le hk inner base
        exact ⟨Nat.le_trans (Nat.le_add_right _ _) hlow, by omega⟩
    | _ => exact absurd hp List.not_mem_nil

/-- Keys that share a slot are the same. -/
theorem eq_of_slotOf {d : ArrayDim} {inner : List ArrayDim} {base slot : Nat} {k k' : Int64}
    (hk : d.lower.toInt ≤ k.toInt) (hk' : d.lower.toInt ≤ k'.toInt)
    (hslot : slotOf d inner base k ≤ slot ∧ slot < slotOf d inner base k + volume inner)
    (hslot' : slotOf d inner base k' ≤ slot ∧ slot < slotOf d inner base k' + volume inner) :
    k = k' := by
  have hquotient : ∀ index, base + index * volume inner ≤ slot ∧
      slot < base + index * volume inner + volume inner → (slot - base) / volume inner = index := by
    intro index hindex
    exact Nat.div_eq_of_lt_le (by omega) (by rw [Nat.succ_mul]; omega)
  have hindex := (hquotient _ hslot).symm.trans (hquotient _ hslot')
  exact Int64.toInt_inj.mp (by omega)

/-- No two values are placed in one slot. -/
theorem nodup_placed {dims : List ArrayDim} {base : Nat} {v : ScriptValue}
    (hinside : Inside dims v) (hkeyed : v.Keyed) : ((placed dims base v).map Prod.fst).Nodup := by
  induction dims generalizing base v with
  | nil => exact List.nodup_singleton base
  | cons d inner ih =>
    cases v with
    | table entries =>
      cases hkeyed with
      | plain hv => exact nomatch hv
      | table hkeys hentries =>
        rw [placed_cons_table, List.map_flatMap, List.nodup_flatMap]
        constructor
        · rintro ⟨key, v⟩ hmem
          cases key with
          | text s => exact List.nodup_nil
          | int k => exact ih (hinside k v hmem).2 (hentries _ v hmem)
        · refine (List.pairwise_map.mp hkeys).imp_of_mem ?_
          rintro ⟨key, v⟩ ⟨key', v'⟩ hmem hmem' hne slot hslot hslot'
          cases key with
          | text s => exact absurd hslot List.not_mem_nil
          | int k =>
            cases key' with
            | text s => exact absurd hslot' List.not_mem_nil
            | int k' =>
              -- the slots of different keys lie in different stretches
              obtain ⟨p, hp, rfl⟩ := List.mem_map.mp hslot
              obtain ⟨p', hp', heq⟩ := List.mem_map.mp hslot'
              obtain ⟨hk, hv⟩ := hinside k v hmem
              obtain ⟨hk', hv'⟩ := hinside k' v' hmem'
              have hrange := range_of_mem_placed hv hp
              have hrange' := range_of_mem_placed hv' hp'
              rw [heq] at hrange'
              exact hne (congrArg ScriptKey.int (eq_of_slotOf hk.1 hk'.1 hrange hrange'))
    | _ => exact List.nodup_nil

/-- The slots in words: the difference of the key and the lower bound with a sign, the product with
the stride, and the sum with the slot of the outer dimensions. -/
def fillWords? : List ArrayDim → List Nat → Nat → ScriptValue → Option (List (Nat × ScriptValue))
  | [], _, slot, v => some [(slot, v)]
  | d :: inner, stride :: steps, base, .table entries =>
    let fillEntry (e : ScriptKey × ScriptValue) : Option (List (Nat × ScriptValue)) :=
      match e.1 with
      | .text _ => some []
      | .int k => do
        let difference ← long? (k.toInt - d.lower.toInt)
        let index ← wordOfLong? difference
        let step ← word? (index * stride)
        let slot ← word? (base + step)
        fillWords? inner steps slot e.2
    (entries.mapM fillEntry).map List.flatten
  | _, _, _, _ => some []

/-- Where a function has a value for each member of a list, the list of these is the result. -/
theorem mapM_eq_pure_map {μ : Type → Type} [Monad μ] [LawfulMonad μ] {α β : Type} {f : α → μ β}
    {g : α → β} {l : List α} (h : ∀ a ∈ l, f a = pure (g a)) : l.mapM f = pure (l.map g) := by
  induction l with
  | nil => exact List.mapM_nil
  | cons a rest ih =>
    rw [List.mapM_cons, h a List.mem_cons_self, ih fun b hb => h b (List.mem_cons_of_mem a hb),
      pure_bind, pure_bind, List.map_cons]

/-- Within the dimensions no slot is beyond their product, so if that fits then all of them do. -/
theorem fillWords?_eq {dims : List ArrayDim} (hdims : ∀ d ∈ dims, Extent d) {base : Nat}
    {v : ScriptValue} (hinside : Inside dims v) (hroom : base + volume dims ≤ 2 ^ 64) :
    fillWords? dims (strides dims) base v = some (placed dims base v) := by
  induction dims generalizing base v with
  | nil => rfl
  | cons d inner ih =>
    have hinner : ∀ x ∈ inner, Extent x := fun x hx => hdims x (List.mem_cons_of_mem d hx)
    have hpos := volume_pos_of_extents hinner
    cases v with
    | table entries =>
      rw [strides_cons, placed_cons_table, List.flatMap_def]
      refine congrArg (Option.map List.flatten) (mapM_eq_pure_map ?_)
      rintro ⟨key, v⟩ hmem
      cases key with
      | text s => rfl
      | int k =>
        obtain ⟨hk, hv⟩ := hinside k v hmem
        have hslot := slotOf_add_le hk inner base
        have hlower := d.lower.le_toInt
        have hupper := (hdims d List.mem_cons_self).upper_le
        have hstep : (k.toInt - d.lower.toInt).toNat * volume inner ≤ slotOf d inner base k :=
          Nat.le_add_left _ _
        -- No step of the walk leaves its range: the difference is an index of this dimension, and
        -- the slot lies below `base + volume dims`.
        have hdifference : long? (k.toInt - d.lower.toInt) = some (k.toInt - d.lower.toInt) :=
          long?_eq (by omega) (by omega)
        have hindex : wordOfLong? (k.toInt - d.lower.toInt) =
            some (k.toInt - d.lower.toInt).toNat := wordOfLong?_eq (by omega)
        have hword : word? ((k.toInt - d.lower.toInt).toNat * volume inner) =
          some ((k.toInt - d.lower.toInt).toNat * volume inner) := word?_eq (by omega)
        have hsum : word? (base + (k.toInt - d.lower.toInt).toNat * volume inner) =
          some (slotOf d inner base k) := word?_eq (n := slotOf d inner base k) (by omega)
        simp only [hdifference, hindex, hword, hsum, Option.bind_eq_bind, Option.bind_some]
        exact ih hinner hv (by omega)
    | _ => rfl

/-! ### What a scan promises -/

/-- The bounds of each level down to the elements: there are no more levels than an array may have
dimensions, and all keys lie within the bounds of their level. -/
structure Bounded (maxDims : Nat) (levels : Bounds) (entries : ScriptTable) : Prop where
  ne_nil : levels ≠ []
  length_le : levels.length ≤ maxDims
  ranges : ∀ b ∈ levels, InRange b.1 ∧ InRange b.2 ∧ b.1 ≤ b.2
  inside : Inside (levels.map dimOfBounds) (.table entries)

/-- A table lies within the dimensions if the keys of each level do. -/
theorem inside_of_levelKeys {dims : List ArrayDim} {entries : ScriptTable}
    (h : ∀ level d, dims[level]? = some d → ∀ i ∈ levelKeys level entries,
      d.lower.toInt ≤ i ∧ i ≤ d.lower.toInt + d.len - 1) : Inside dims (.table entries) := by
  induction dims generalizing entries with
  | nil => trivial
  | cons d inner ih =>
    intro k v hmem
    refine ⟨h 0 d rfl _ (mem_levelKeys.mpr ⟨[], v, rfl, .here hmem⟩), ?_⟩
    cases v with
    | table sub =>
      refine ih fun level d' hd i hi => h (level + 1) d' hd i ?_
      obtain ⟨front, w, hlen, hleads⟩ := mem_levelKeys.mp hi
      exact mem_levelKeys.mpr ⟨k.toInt :: front, w, congrArg (· + 1) hlen, .through hmem hleads⟩
    | _ => cases inner <;> trivial

theorem bounded_of_nested {maxDims depth : Nat} {bounds : Bounds} {entries : ScriptTable}
    (h : scanEntries maxDims false 0 none [] entries = .ok (some depth, bounds)) :
    Bounded maxDims (bounds.take depth) entries := by
  -- Some value lies at the full depth, so each level up to it has bounds of its own.
  obtain ⟨⟨chain, v, hchain, -, hlen⟩, hspans⟩ := spans_scanEntries h
  have hfits := (surveyed_scanEntries (Nat.zero_le _) h).fits chain v hchain
  have hlevels : (bounds.take depth).length = depth :=
    List.length_take_of_le (depth_le_length h)
  constructor
  case ne_nil =>
    have hpos := List.length_pos_iff.mpr hchain.ne_nil
    exact List.ne_nil_of_length_pos (by omega)
  case length_le => omega
  case ranges =>
    intro b hb
    obtain ⟨level, hlevel⟩ := List.mem_iff_getElem?.mp hb
    rw [List.getElem?_take] at hlevel
    obtain ⟨hlt, hlevel⟩ := Option.ite_none_right_eq_some.mp hlevel
    obtain ⟨lo, hi, hbounds, hspan⟩ := hspans level hlt
    obtain rfl := Option.some.inj (hbounds.symm.trans hlevel)
    exact ⟨hspan.range_lo, hspan.range_hi, hspan.least.2 hspan.greatest.1⟩
  case inside =>
    refine inside_of_levelKeys fun level d hd i hi => ?_
    rw [List.getElem?_map, List.getElem?_take] at hd
    obtain ⟨b, hb, rfl⟩ := Option.map_eq_some_iff.mp hd
    obtain ⟨hlt, hb⟩ := Option.ite_none_right_eq_some.mp hb
    obtain ⟨lo, hi', hbounds, hspan⟩ := hspans level hlt
    obtain rfl := Option.some.inj (hbounds.symm.trans hb)
    obtain ⟨hlower, -, hupper⟩ := dimOfBounds_range hspan.range_lo hspan.range_hi
      (hspan.least.2 hspan.greatest.1)
    rw [hupper, hlower]
    exact ⟨hspan.least.2 hi, hspan.greatest.2 hi⟩

/-- The table in which no value is a table. -/
def leaves (entries : ScriptTable) : ScriptTable := entries.map fun e => (e.1, .nil)

/-- Where tables are elements, the scan does not look at the values. -/
theorem scanEntries_leaves (maxDims level : Nat) (depth : Option Nat) (bounds : Bounds)
    (entries : ScriptTable) :
    scanEntries maxDims true level depth bounds entries =
      scanEntries maxDims false level depth bounds (leaves entries) := by
  induction entries generalizing depth bounds with
  | nil => simp only [leaves, List.map_nil, scanEntries]
  | cons e rest ih =>
    obtain ⟨key, v⟩ := e
    cases key with
    | text s =>
      show scanEntries maxDims true level depth bounds ((.text s, v) :: rest) =
        scanEntries maxDims false level depth bounds ((.text s, .nil) :: leaves rest)
      unfold scanEntries
      exact ih depth bounds
    | int k =>
      have hvalue : scanValue maxDims true level (bounds.widen level k.toInt) v =
          .ok (some 1, bounds.widen level k.toInt) := by
        cases v <;> rfl
      show scanEntries maxDims true level depth bounds ((.int k, v) :: rest) =
        scanEntries maxDims false level depth bounds ((.int k, .nil) :: leaves rest)
      unfold scanEntries
      simp only [hvalue, scanValue, ih]

/-- Whether tables are elements or not, there are bounds for every level down to the elements, and
the keys that matter for the slots lie within them. -/
theorem bounded_scanEntries {maxDims depth : Nat} {leafTables : Bool} {bounds : Bounds}
    {entries : ScriptTable}
    (h : scanEntries maxDims leafTables 0 none [] entries = .ok (some depth, bounds)) :
    depth ≤ bounds.length ∧ Bounded maxDims (bounds.take depth) entries := by
  cases leafTables with
  | false => exact ⟨depth_le_length h, bounded_of_nested h⟩
  | true =>
    rw [scanEntries_leaves] at h
    refine ⟨depth_le_length h, ?_⟩
    have hbounded := bounded_of_nested h
    -- chains end at once, so there is one dimension and only the outermost keys count
    obtain ⟨⟨chain, v, hchain, -, rfl⟩, -⟩ := spans_scanEntries h
    have hone : chain.length = 1 := by
      cases hchain with
      | here => rfl
      | through hmem =>
        obtain ⟨e, -, heq⟩ := List.mem_map.mp hmem
        exact nomatch (Prod.mk.inj heq).2
    refine ⟨hbounded.ne_nil, hbounded.length_le, hbounded.ranges, ?_⟩
    have hinside := hbounded.inside
    rw [hone] at hinside ⊢
    cases bounds with
    | nil => trivial
    | cons b rest =>
      intro k v hmem
      have hkey := (hinside k .nil (List.mem_map.mpr ⟨(.int k, v), hmem, rfl⟩)).1
      exact ⟨hkey, by trivial⟩

/-! ### The whole calculation -/

/-- The calculation of dimensions, slots and their number in words does not overflow, and has the
results of the one with numbers of any size. The product of the lengths is the number of slots
exactly if the ceiling has room for it; strides and slots are calculated after that. -/
structure Exact (maxAllocSize : Nat) (levels : Bounds) (dims : List ArrayDim)
    (entries : ScriptTable) : Prop where
  dimensions : levels.mapM dimWords? = some dims
  count : slotWords? maxAllocSize dims = slotCount? maxAllocSize dims
  ceiling : slotCount? maxAllocSize dims =
    if volume dims ≤ maxAllocSize / slotBytes then some (volume dims) else none
  steps : volume dims ≤ maxAllocSize / slotBytes → strideWords? dims = some (strides dims)
  slots : volume dims ≤ maxAllocSize / slotBytes →
    fillWords? dims (strides dims) 0 (.table entries) = some (placements dims entries)

namespace Bounded

variable {maxDims : Nat} {levels : Bounds} {entries : ScriptTable}

theorem dims_ne_nil (h : Bounded maxDims levels entries) : levels.map dimOfBounds ≠ [] :=
  mt List.map_eq_nil_iff.mp h.ne_nil

theorem extents (h : Bounded maxDims levels entries) :
    ∀ d ∈ levels.map dimOfBounds, Extent d := by
  intro d hd
  obtain ⟨⟨lo, hi⟩, hb, rfl⟩ := List.mem_map.mp hd
  obtain ⟨hlo, hhi, hle⟩ := h.ranges _ hb
  exact (dimOfBounds_range hlo hhi hle).2.1

/-- What lies within bounds is calculated without overflow. -/
theorem calculated (h : Bounded maxDims levels entries) {maxAllocSize : Nat}
    (hword : maxAllocSize < 2 ^ 64) :
    Exact maxAllocSize levels (levels.map dimOfBounds) entries := by
  have hroom : ∀ {n}, n ≤ maxAllocSize / slotBytes → n < 2 ^ 64 := fun hn =>
    Nat.lt_of_le_of_lt (Nat.le_trans hn (Nat.div_le_self _ _)) hword
  constructor
  case dimensions =>
    refine mapM_eq_pure_map fun b hb => ?_
    obtain ⟨hlo, hhi, hle⟩ := h.ranges b hb
    exact dimWords?_eq hlo hhi hle
  case count => exact slotWords?_eq hword _
  case ceiling => exact slotCount?_eq h.dims_ne_nil h.extents
  case steps => exact fun hvolume => strideWords?_eq h.extents (hroom hvolume)
  case slots =>
    intro hvolume
    rw [placements_eq h.dims_ne_nil]
    refine fillWords?_eq h.extents h.inside ?_
    rw [Nat.zero_add]
    exact (hroom hvolume).le

/-- The slots are below the product of the lengths. -/
theorem lt_volume (h : Bounded maxDims levels entries) :
    ∀ p ∈ placements (levels.map dimOfBounds) entries,
      p.1 < volume (levels.map dimOfBounds) := by
  intro p hp
  rw [placements_eq h.dims_ne_nil] at hp
  have hrange := range_of_mem_placed h.inside hp
  rw [Nat.zero_add] at hrange
  exact hrange.2

/-- No two values have the same slot. -/
theorem nodup (h : Bounded maxDims levels entries)
    (hkeyed : ScriptValue.Keyed (.table entries)) :
    ((placements (levels.map dimOfBounds) entries).map Prod.fst).Nodup := by
  rw [placements_eq h.dims_ne_nil]
  exact nodup_placed h.inside hkeyed

end Bounded

end StoredRoutine.Marshal
