import StoredRoutine.Proofs.Marshal.Chains

/-!
# `StoredRoutine.Proofs.Marshal.Narrow`: arrays without the margins of the last dimension

NULL elements have no entry in a nest, while each subscript of an outer dimension has a table. So
nothing in a nest tells how far the last dimension went on with NULLs, and nothing else is lost.
`narrowDims` and `narrow` take the last dimension between two of its subscripts:

* `within_narrowDims`, `getElem?_narrow`: at the subscripts that remain stands what stood there;
* `nest_narrow`: if only NULLs are left out, the nest is the same;
* `edgesPresent_narrow`: if elements stand at both subscripts, the shape can be seen from outside.
-/

set_option autoImplicit false

namespace StoredRoutine.Marshal

open ArrayOf (Within within_cons place place_cons place_lt)

variable {α β : Type}

/-! ### Chunks and their union -/

theorem length_flatMap_range {n s : Nat} {f : Nat → List α} (hf : ∀ i < n, (f i).length = s) :
    ((List.range n).flatMap f).length = n * s := by
  induction n with
  | zero => simp
  | succ n ih =>
    have hprefix := ih fun i hi => hf i (Nat.lt_succ_of_lt hi)
    rw [List.range_succ, List.flatMap_append, List.length_append, hprefix, List.flatMap_singleton,
      hf n (Nat.lt_succ_self n), Nat.succ_mul]

/-- The chunks of a list that was made of chunks. -/
theorem chunk_flatMap_range {n s i : Nat} {f : Nat → List α} (hf : ∀ i < n, (f i).length = s)
    (hi : i < n) : chunk s i ((List.range n).flatMap f) = f i := by
  induction n with
  | zero => exact absurd hi (Nat.not_lt_zero i)
  | succ n ih =>
    have hf' : ∀ i < n, (f i).length = s := fun i hi => hf i (Nat.lt_succ_of_lt hi)
    have hlength := length_flatMap_range hf'
    rw [List.range_succ, List.flatMap_append, List.flatMap_singleton]
    rcases Nat.lt_succ_iff_lt_or_eq.mp hi with hlt | rfl
    · have hle : i * s + s ≤ n * s := by
        rw [← Nat.succ_mul]
        exact Nat.mul_le_mul_right s hlt
      rw [← ih hf' hlt]
      unfold chunk
      rw [List.drop_append_of_le_length (by omega), List.take_append_of_le_length]
      rw [List.length_drop]
      omega
    · unfold chunk
      rw [← hlength, List.drop_left, ← hf i hi, List.take_length]

/-- The chunks of a list make up the list. -/
theorem flatMap_chunk {n s : Nat} {l : List α} (hl : l.length = n * s) :
    ((List.range n).flatMap fun i => chunk s i l) = l := by
  have htake : ∀ n, ((List.range n).flatMap fun i => chunk s i l) = l.take (n * s) := by
    intro n
    induction n with
    | zero => simp
    | succ n ih =>
      rw [List.range_succ, List.flatMap_append, List.flatMap_singleton, ih, Nat.succ_mul,
        List.take_add]
      rfl
  rw [htake, ← hl, List.take_length]

/-! ### The last dimension between two subscripts -/

/-- The dimensions with other bounds for the last one. -/
def narrowDims (first last : Int) (dims : List ArrayDim) : List ArrayDim :=
  dims.dropLast ++ [dimOfBounds (first, last)]

/-- The elements whose last subscript lies between two bounds. -/
def narrow (first last : Int) : List ArrayDim → List (Option α) → List (Option α)
  | [], l => l
  | [d], l => (l.drop (first - d.lower.toInt).toNat).take (last - first + 1).toNat
  | d :: e :: inner, l =>
    (List.range d.len).flatMap fun i =>
      narrow first last (e :: inner) (chunk (volume (e :: inner)) i l)

/-- Bounds that lie within those of the last dimension. -/
structure Inner (first last : Int) (dims : List ArrayDim) : Prop where
  le : first ≤ last
  lower : ∀ d, dims.getLast? = some d → d.lower.toInt ≤ first
  upper : ∀ d, dims.getLast? = some d → last ≤ d.lower.toInt + d.len - 1

/-- The bounds concern the last dimension only. -/
theorem Inner.tail {first last : Int} {d e : ArrayDim} {inner : List ArrayDim}
    (h : Inner first last (d :: e :: inner)) : Inner first last (e :: inner) where
  le := h.le
  lower x hx := h.lower x (by rwa [List.getLast?_cons_cons])
  upper x hx := h.upper x (by rwa [List.getLast?_cons_cons])

theorem narrowDims_ne_nil (first last : Int) (dims : List ArrayDim) :
    narrowDims first last dims ≠ [] :=
  List.append_ne_nil_of_right_ne_nil _ (List.cons_ne_nil _ _)

theorem narrowDims_cons_cons (first last : Int) (d e : ArrayDim) (inner : List ArrayDim) :
    narrowDims first last (d :: e :: inner) = d :: narrowDims first last (e :: inner) := rfl

/-- The new last dimension is one that an array can have, between the given bounds. -/
theorem Inner.range {first last : Int} {dims : List ArrayDim} (h : Inner first last dims)
    (hne : dims ≠ []) (hdims : ∀ d ∈ dims, Extent d) :
    (dimOfBounds (first, last)).lower.toInt = first ∧ Extent (dimOfBounds (first, last)) ∧
      (dimOfBounds (first, last)).lower.toInt + (dimOfBounds (first, last)).len - 1 = last := by
  obtain ⟨d, hd⟩ : ∃ d, dims.getLast? = some d := ⟨_, List.getLast?_eq_some_getLast hne⟩
  have hle := h.le
  have hlow := d.lower.le_toInt
  have hlo := h.lower d hd
  have hhi := h.upper d hd
  have hup := (hdims d (List.mem_of_getLast? hd)).upper_le
  exact dimOfBounds_range ⟨by omega, by omega⟩ ⟨by omega, by omega⟩ hle

theorem length_narrowDims (first last : Int) {dims : List ArrayDim} (hne : dims ≠ []) :
    (narrowDims first last dims).length = dims.length := by
  have hpos := List.length_pos_iff.mpr hne
  unfold narrowDims
  rw [List.length_append, List.length_dropLast, List.length_singleton]
  omega

theorem getLast?_narrowDims (first last : Int) (dims : List ArrayDim) :
    (narrowDims first last dims).getLast? = some (dimOfBounds (first, last)) :=
  List.getLast?_concat

theorem extents_narrowDims {first last : Int} {dims : List ArrayDim} (hne : dims ≠ [])
    (hdims : ∀ d ∈ dims, Extent d) (h : Inner first last dims) :
    ∀ d ∈ narrowDims first last dims, Extent d := by
  induction dims with
  | nil => exact absurd rfl hne
  | cons d inner ih =>
    have hd := hdims d List.mem_cons_self
    cases inner with
    | nil =>
      intro x hx
      obtain rfl := List.mem_singleton.mp hx
      exact (h.range hne hdims).2.1
    | cons e inner =>
      intro x hx
      rw [narrowDims_cons_cons] at hx
      rcases List.mem_cons.mp hx with rfl | hx
      · exact hd
      · exact ih (List.cons_ne_nil e inner) (fun y hy => hdims y (List.mem_cons_of_mem d hy)) h.tail
          x hx

/-- Within the new dimensions are the subscripts that end between the bounds. -/
theorem within_narrowDims {first last : Int} {dims : List ArrayDim} (hne : dims ≠ [])
    (hdims : ∀ d ∈ dims, Extent d) (h : Inner first last dims) {ks : List Int} :
    Within (narrowDims first last dims) ks ↔
      Within dims ks ∧ ∃ k, ks.getLast? = some k ∧ first ≤ k ∧ k ≤ last := by
  induction dims generalizing ks with
  | nil => exact absurd rfl hne
  | cons d inner ih =>
    have hd := hdims d List.mem_cons_self
    -- only the innermost dimension is another one
    cases inner with
    | nil =>
      obtain ⟨hlower, -, hupper⟩ := h.range hne hdims
      have hlo := h.lower d rfl
      have hhi := h.upper d rfl
      show Within [dimOfBounds (first, last)] ks ↔ _
      cases ks with
      | nil => simp [Within]
      | cons k ks =>
        rw [within_cons, within_cons, hupper, hlower]
        cases ks with
        | nil =>
          simp only [List.getLast?_singleton, Option.some.injEq, exists_eq_left']
          constructor
          · rintro ⟨⟨h1, h2⟩, hnil⟩
            exact ⟨⟨⟨by omega, by omega⟩, hnil⟩, h1, h2⟩
          · rintro ⟨⟨-, hnil⟩, h1, h2⟩
            exact ⟨⟨h1, h2⟩, hnil⟩
        | cons k' ks => simp [Within]
    | cons e inner =>
      rw [narrowDims_cons_cons]
      have hrest : ∀ ks, Within (narrowDims first last (e :: inner)) ks ↔
          Within (e :: inner) ks ∧ ∃ k, ks.getLast? = some k ∧ first ≤ k ∧ k ≤ last := fun ks =>
        ih (List.cons_ne_nil e inner) (fun y hy => hdims y (List.mem_cons_of_mem d hy)) h.tail
      cases ks with
      | nil => simp [Within]
      | cons k ks =>
        rw [within_cons, within_cons, hrest]
        cases ks with
        | nil => simp [Within]
        | cons k' ks => rw [List.getLast?_cons_cons, and_assoc, and_assoc, and_assoc]

/-- There are as many elements as the new dimensions describe. -/
theorem length_narrow {first last : Int} {dims : List ArrayDim} (hne : dims ≠ [])
    (h : Inner first last dims) {l : List (Option α)} (hl : l.length = volume dims) :
    (narrow first last dims l).length = volume (narrowDims first last dims) := by
  induction dims generalizing l with
  | nil => exact absurd rfl hne
  | cons d inner ih =>
    rw [volume_cons] at hl
    cases inner with
    | nil =>
      have hle := h.le
      have hlo := h.lower d rfl
      have hhi := h.upper d rfl
      have hl : l.length = d.len := hl.trans (Nat.mul_one d.len)
      show ((l.drop _).take _).length = 1 * (last - first + 1).toNat
      rw [List.length_take, List.length_drop]
      omega
    | cons e inner =>
      rw [narrowDims_cons_cons, volume_cons]
      exact length_flatMap_range fun i hi =>
        ih (List.cons_ne_nil e inner) h.tail (length_chunk hl hi)

/-- At the subscripts that remain stands what stood there. -/
theorem getElem?_narrow {first last : Int} {dims : List ArrayDim} (hne : dims ≠ [])
    (hdims : ∀ d ∈ dims, Extent d) (h : Inner first last dims) {l : List (Option α)}
    (hl : l.length = volume dims) {ks : List Int} (hks : Within (narrowDims first last dims) ks) :
    (narrow first last dims l)[place (narrowDims first last dims) ks]? = l[place dims ks]? := by
  induction dims generalizing l ks with
  | nil => exact absurd rfl hne
  | cons d inner ih =>
    rw [volume_cons] at hl
    cases inner with
    | nil =>
      obtain ⟨hlower, -, hupper⟩ := h.range hne hdims
      have hlo := h.lower d rfl
      cases hks with
      | @cons _ k _ ks hk hnil =>
        cases hnil
        rw [hupper, hlower] at hk
        show ((l.drop (first - d.lower.toInt).toNat).take (last - first + 1).toNat)[
          (k - (dimOfBounds (first, last)).lower.toInt).toNat * 1 + 0]? =
          l[(k - d.lower.toInt).toNat * 1 + 0]?
        rw [hlower, List.getElem?_take_of_lt (by omega), List.getElem?_drop]
        congr 1
        omega
    | cons e inner =>
      rw [narrowDims_cons_cons] at hks ⊢
      cases hks with
      | @cons _ k _ ks hk hrest =>
        have hlen : ∀ i < d.len,
            (narrow first last (e :: inner) (chunk (volume (e :: inner)) i l)).length =
              volume (narrowDims first last (e :: inner)) := fun i hi =>
          length_narrow (List.cons_ne_nil e inner) h.tail (length_chunk hl hi)
        have hindex : (k - d.lower.toInt).toNat < d.len := by omega
        have hinner : ∀ x ∈ e :: inner, Extent x := fun x hx => hdims x (List.mem_cons_of_mem d hx)
        have hold := (within_narrowDims (List.cons_ne_nil e inner) hinner h.tail).mp hrest
        -- the element lies in the chunk that the outermost subscript selects
        rw [place_cons, place_cons, ← getElem?_chunk _ (place_lt hrest), narrow,
          chunk_flatMap_range hlen hindex,
          ih (List.cons_ne_nil e inner) hinner h.tail (length_chunk hl hindex) hrest,
          getElem?_chunk _ (place_lt hold.1)]

/-- Elements are left out, and none is moved past another. -/
theorem narrow_sublist (first last : Int) {dims : List ArrayDim} {l : List (Option α)}
    (hl : l.length = volume dims) : List.Sublist (narrow first last dims l) l := by
  induction dims generalizing l with
  | nil => exact List.Sublist.refl l
  | cons d inner ih =>
    rw [volume_cons] at hl
    cases inner with
    | nil => exact (List.take_sublist _ _).trans (List.drop_sublist _ _)
    | cons e inner =>
      -- chunk by chunk, for any list of subscripts
      have hparts : ∀ is : List Nat, (∀ i ∈ is, i < d.len) → List.Sublist
          (is.flatMap fun i => narrow first last (e :: inner) (chunk (volume (e :: inner)) i l))
          (is.flatMap fun i => chunk (volume (e :: inner)) i l) := by
        intro is
        induction is with
        | nil => exact fun _ => List.Sublist.refl []
        | cons i rest ihrest =>
          intro his
          rw [List.flatMap_cons, List.flatMap_cons]
          exact (ih (length_chunk hl (his i List.mem_cons_self))).append
            (ihrest fun j hj => his j (List.mem_cons_of_mem i hj))
      have hall := hparts (List.range d.len) fun i hi => List.mem_range.mp hi
      rwa [flatMap_chunk hl] at hall

/-- Lists that agree place by place agree in what is left of them. -/
theorem forall₂_narrow {r : Option α → Option β → Prop} (first last : Int) (dims : List ArrayDim)
    {l : List (Option α)} {m : List (Option β)} (h : List.Forall₂ r l m) :
    List.Forall₂ r (narrow first last dims l) (narrow first last dims m) := by
  induction dims generalizing l m with
  | nil => exact h
  | cons d inner ih =>
    cases inner with
    | nil => exact List.forall₂_take _ (List.forall₂_drop _ h)
    | cons e inner =>
      have hparts : ∀ is : List Nat, List.Forall₂ r
          (is.flatMap fun i => narrow first last (e :: inner) (chunk (volume (e :: inner)) i l))
          (is.flatMap fun i =>
            narrow first last (e :: inner) (chunk (volume (e :: inner)) i m)) := by
        intro is
        induction is with
        | nil => exact .nil
        | cons i rest ihrest =>
          rw [List.flatMap_cons, List.flatMap_cons]
          exact List.rel_append (ih (List.forall₂_take _ (List.forall₂_drop _ h))) ihrest
      exact hparts _

/-! ### The nest -/

/-- The nest of dimensions below an outer one. -/
theorem nest_outer (d : ArrayDim) {inner : List ArrayDim} (hne : inner ≠ [])
    (l : List (Option ScriptValue)) :
    nest (d :: inner) l = (List.range d.len).map fun i =>
      (subscript d i, .table (nest inner (chunk (volume inner) i l))) := by
  cases inner with
  | nil => exact absurd rfl hne
  | cons e inner => exact nest_cons d e inner l

theorem present_eq_nil {base : Nat} {l : List (Option α)} (h : ∀ a, some a ∉ l) :
    present base l = [] := by
  induction l generalizing base with
  | nil => rfl
  | cons a rest ih =>
    cases a with
    | none => exact ih fun a ha => h a (List.mem_cons_of_mem _ ha)
    | some a => exact absurd List.mem_cons_self (h a)

/-- Between the first and the last element that is present, the same is present. -/
theorem present_take_drop {l : List (Option α)} {start count : Nat}
    (h : ∀ i a, l[i]? = some (some a) → start ≤ i ∧ i < start + count) :
    present 0 l =
      (present 0 ((l.drop start).take count)).map fun p => (start + p.1, p.2) := by
  -- nothing is present before the part, and nothing behind it
  have hbefore : present 0 (l.take start) = [] := by
    refine present_eq_nil fun a ha => ?_
    obtain ⟨i, hi⟩ := List.mem_iff_getElem?.mp ha
    rw [List.getElem?_take] at hi
    split at hi
    next hlt => exact absurd (h i a hi).1 (Nat.not_le.mpr hlt)
    · exact nomatch hi
  have hbehind : ∀ base, present base ((l.drop start).drop count) = [] := by
    intro base
    refine present_eq_nil fun a ha => ?_
    obtain ⟨i, hi⟩ := List.mem_iff_getElem?.mp ha
    rw [List.getElem?_drop, List.getElem?_drop] at hi
    have hlt := (h _ a hi).2
    omega
  have hlength : start ≤ l.length ∨ (l.drop start).take count = [] := by
    by_cases hle : start ≤ l.length
    · exact Or.inl hle
    · right
      rw [List.drop_of_length_le (Nat.le_of_not_le hle), List.take_nil]
  calc present 0 l
      = present 0 (l.take start ++ ((l.drop start).take count ++ (l.drop start).drop count)) := by
        rw [List.take_append_drop, List.take_append_drop]
    _ = present (l.take start).length ((l.drop start).take count) := by
        rw [present_append, present_append, hbefore, hbehind, List.nil_append, List.append_nil,
          Nat.zero_add]
    _ = present (start + 0) ((l.drop start).take count) := by
        rcases hlength with hle | hnil
        · rw [List.length_take_of_le hle, Nat.add_zero]
        · rw [hnil]
          rfl
    _ = _ := present_add start 0 _

/-- The nest of one dimension does not change if only NULLs are left out at its ends. -/
theorem nest_narrow_single {first last : Int} {d : ArrayDim} (hd : Extent d)
    (h : Inner first last [d]) {l : List (Option ScriptValue)} (hl : l.length = d.len)
    (hnull : ∀ (i : Nat) v, l[i]? = some (some v) →
      first ≤ d.lower.toInt + i ∧ d.lower.toInt + i ≤ last) :
    nest [dimOfBounds (first, last)] (narrow first last [d] l) = nest [d] l := by
  have hne : [d] ≠ [] := List.cons_ne_nil d []
  obtain ⟨hlower, hextent, hupper⟩ := h.range hne fun x hx => (List.mem_singleton.mp hx) ▸ hd
  have hlo := h.lower d rfl
  have hedges : ∀ i v, l[i]? = some (some v) → (first - d.lower.toInt).toNat ≤ i ∧
      i < (first - d.lower.toInt).toNat + (last - first + 1).toNat := by
    intro i v hi
    have hin := hnull i v hi
    omega
  have hvolume : l.length = volume [d] := hl.trans (Nat.one_mul d.len).symm
  have hlength : (narrow first last [d] l).length = (dimOfBounds (first, last)).len :=
    (length_narrow hne h hvolume).trans (Nat.one_mul _)
  rw [nest_single hl, nest_single hlength, present_take_drop hedges, List.map_map]
  refine List.map_congr_left fun p hp => ?_
  -- a key counts from its own lower bound, and the two bounds are as far apart as the places
  have hsame : (dimOfBounds (first, last)).lower.toInt + p.1 =
      d.lower.toInt + ((first - d.lower.toInt).toNat + p.1 : Nat) := by omega
  show (subscript _ p.1, p.2) = (subscript d ((first - d.lower.toInt).toNat + p.1), p.2)
  unfold subscript
  rw [hsame]

/-- If only NULLs are left out, the nest is the same. -/
theorem nest_narrow {first last : Int} {dims : List ArrayDim} (hne : dims ≠ [])
    (hdims : ∀ d ∈ dims, Extent d) (h : Inner first last dims) {l : List (Option ScriptValue)}
    (hl : l.length = volume dims)
    (hnull : ∀ ks v, Within dims ks → l[place dims ks]? = some (some v) →
      ∃ k, ks.getLast? = some k ∧ first ≤ k ∧ k ≤ last) :
    nest (narrowDims first last dims) (narrow first last dims l) = nest dims l := by
  induction dims generalizing l with
  | nil => exact absurd rfl hne
  | cons d inner ih =>
    rw [volume_cons] at hl
    cases inner with
    | nil =>
      have hl : l.length = d.len := hl.trans (Nat.mul_one d.len)
      refine nest_narrow_single (hdims d List.mem_cons_self) h hl fun i v hi => ?_
      have hlt : i < d.len := hl ▸ (List.getElem?_eq_some_iff.mp hi).1
      have hplace : place [d] [d.lower.toInt + i] = i := by
        show (d.lower.toInt + i - d.lower.toInt).toNat * 1 + 0 = i
        omega
      obtain ⟨k, hk, hbounds⟩ := hnull [d.lower.toInt + i] v
        (within_cons.mpr ⟨⟨by omega, by omega⟩, .nil⟩) (hplace.symm ▸ hi)
      obtain rfl : d.lower.toInt + i = k := Option.some.inj hk
      exact hbounds
    | cons e inner =>
      have hinner : ∀ x ∈ e :: inner, Extent x := fun x hx => hdims x (List.mem_cons_of_mem d hx)
      have hlen : ∀ i < d.len,
          (narrow first last (e :: inner) (chunk (volume (e :: inner)) i l)).length =
            volume (narrowDims first last (e :: inner)) := fun i hi =>
        length_narrow (List.cons_ne_nil e inner) h.tail (length_chunk hl hi)
      rw [narrowDims_cons_cons, nest_outer d (narrowDims_ne_nil first last _),
        nest_outer d (List.cons_ne_nil e inner)]
      refine List.map_congr_left fun i hi => ?_
      have hi : i < d.len := List.mem_range.mp hi
      rw [narrow, chunk_flatMap_range hlen hi,
        ih (List.cons_ne_nil e inner) hinner h.tail (length_chunk hl hi)]
      -- an element of a chunk is one of the list, with one subscript more
      intro ks v hks hv
      have hwithin : Within (d :: e :: inner) ((d.lower.toInt + i) :: ks) :=
        within_cons.mpr ⟨⟨by omega, by omega⟩, hks⟩
      have hplace : place (d :: e :: inner) ((d.lower.toInt + i) :: ks) =
          i * volume (e :: inner) + place (e :: inner) ks := by
        rw [place_cons]
        congr 2
        omega
      rw [getElem?_chunk l (place_lt hks), ← hplace] at hv
      obtain ⟨k, hk, hbounds⟩ := hnull _ v hwithin hv
      cases hks with
      | cons _ _ =>
        rw [List.getLast?_cons_cons] at hk
        exact ⟨k, hk, hbounds⟩

/-- The last subscript runs fastest. -/
theorem place_mod {dims : List ArrayDim} {ks : List Int} {d : ArrayDim} {k : Int}
    (h : Within dims ks) (hd : dims.getLast? = some d) (hk : ks.getLast? = some k) :
    place dims ks % d.len = (k - d.lower.toInt).toNat := by
  induction h with
  | nil => exact nomatch hd
  | @cons d₀ k₀ inner rest hk₀ hrest ih =>
    rw [place_cons]
    cases hrest with
    | nil =>
      obtain rfl : d₀ = d := Option.some.inj hd
      obtain rfl : k₀ = k := Option.some.inj hk
      show ((k₀ - d₀.lower.toInt).toNat * 1 + 0) % d₀.len = _
      rw [Nat.mul_one, Nat.add_zero, Nat.mod_eq_of_lt (by omega)]
    | cons _ _ =>
      rw [List.getLast?_cons_cons] at hd hk
      rw [Nat.add_mod, Nat.mod_eq_zero_of_dvd (Nat.dvd_mul_left_of_dvd (getLast_dvd_volume hd) _),
        Nat.zero_add, Nat.mod_mod, ih hd hk]

/-- If elements stand at both new bounds, the shape can be seen from outside. -/
theorem edgesPresent_narrow {first last : Int} {dims : List ArrayDim} (hne : dims ≠ [])
    (hdims : ∀ d ∈ dims, Extent d) (h : Inner first last dims) {l : List (Option α)}
    (hl : l.length = volume dims)
    (hlo : ∃ ks a, Within dims ks ∧ l[place dims ks]? = some (some a) ∧ ks.getLast? = some first)
    (hhi : ∃ ks a, Within dims ks ∧ l[place dims ks]? = some (some a) ∧ ks.getLast? = some last) :
    EdgesPresent (narrowDims first last dims) (narrow first last dims l) := by
  have hend := getLast?_narrowDims first last dims
  obtain ⟨hlower, -, hupper⟩ := h.range hne hdims
  have hle := h.le
  -- an element keeps its distance to the first of the new bounds
  have hat : ∀ k, first ≤ k → k ≤ last →
      (∃ ks a, Within dims ks ∧ l[place dims ks]? = some (some a) ∧ ks.getLast? = some k) →
      ∃ i a, (narrow first last dims l)[i]? = some (some a) ∧
        i % (dimOfBounds (first, last)).len = (k - first).toNat := by
    rintro k hklo hkhi ⟨ks, a, hks, ha, hk⟩
    have hwithin := (within_narrowDims hne hdims h).mpr ⟨hks, k, hk, hklo, hkhi⟩
    refine ⟨place (narrowDims first last dims) ks, a, ?_, ?_⟩
    · rw [getElem?_narrow hne hdims h hl hwithin]
      exact ha
    · rw [place_mod hwithin hend hk, hlower]
  obtain ⟨i, a, hi, hmod⟩ := hat first (Int.le_refl first) hle hlo
  obtain ⟨j, a', hj, hmod'⟩ := hat last hle (Int.le_refl last) hhi
  exact ⟨⟨_, i, a, hend, hi, by omega⟩, ⟨_, j, a', hend, hj, by omega⟩⟩

end StoredRoutine.Marshal
