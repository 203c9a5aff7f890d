import Mathlib
import StoredRoutine.Script.Table.Basic

/-!
# `StoredRoutine.Proofs.Script.Layout`: tables that are made with enough room

A table that is made for a known number of entries has a node for each of them, and is never laid
out anew while they are entered. Which nodes they get depends on how they are hashed, but every key
gets one, and keeps one when it has to move (`Shape.place_ok`). So the traversal of the finished
table meets each entry that has a value exactly once (`Table.pairs_enter`), in whatever order.
-/

set_option autoImplicit false

namespace StoredRoutine.Script

namespace Shape

/-! ### Layouts without items -/

/-- A layout without items, in which the map of places agrees with the nodes, and all nodes from the
given one on are taken. -/
structure Laid (s : Shape) : Prop where
  items : s.items = 0
  size : 0 < s.nodes.size → ∃ exponent, s.nodes.size = 2 ^ exponent
  placed : ∀ (k : Key) (i : Nat), s.places[k]? = some i ↔ s.nodes[i]? = some (some k)
  bounded : s.free ≤ s.nodes.size
  taken : ∀ i, s.free ≤ i → s.nodes[i]? ≠ some none

variable {s : Shape}

/-- Without items no key is that of an item. -/
theorem isItem_eq_false (h : s.items = 0) (key : Key) : s.isItem key = false := by
  unfold isItem Key.itemNumber?
  cases key with
  | int value =>
    dsimp only
    by_cases hpos : 0 < value
    · have hpositive := Int64.lt_iff_toInt_lt.mp hpos
      rw [Int64.toInt_zero] at hpositive
      rw [if_pos hpos, h]
      exact decide_eq_false (by omega)
    · rw [if_neg hpos]
  | _ => rfl

theorem contains_iff (h : s.items = 0) (key : Key) : s.contains key = true ↔ key ∈ s.places := by
  rw [contains, isItem_eq_false h, Bool.false_or, Std.HashMap.mem_iff_contains]

/-- The preferred node of a key is a node, if there is any. -/
theorem preferred_lt (h : s.Laid) (hpos : 0 < s.nodes.size) (key : Key) :
    s.preferred key < s.nodes.size := by
  obtain ⟨exponent, hsize⟩ := h.size hpos
  have hodd : 0 < (s.nodes.size - 1) ||| 1 ∧ (s.nodes.size - 1) ||| 1 ≤ s.nodes.size := by
    refine ⟨Nat.lt_of_lt_of_le Nat.zero_lt_one Nat.right_le_or, ?_⟩
    rw [hsize]
    cases exponent with
    | zero => decide
    | succ exponent =>
      have hone : 1 < 2 ^ (exponent + 1) := Nat.one_lt_two_pow (Nat.succ_ne_zero _)
      exact (Nat.or_lt_two_pow (by omega) hone).le
  have hmod (n : Nat) : n % ((s.nodes.size - 1) ||| 1) < s.nodes.size :=
    Nat.lt_of_lt_of_le (Nat.mod_lt n hodd.1) hodd.2
  unfold preferred
  cases key with
  | bool b => exact Nat.mod_lt _ hpos
  | _ => exact hmod _

/-- The search looks at each node below the given one, from the last to the first. -/
theorem freeBefore?_succ {node : Nat} (hnode : node < s.nodes.size) :
    s.freeBefore? (node + 1) =
      if s.nodes[node]? = some none then some node else s.freeBefore? node := by
  rw [freeBefore?, Array.getD_eq_getD_getElem?, Array.getElem?_eq_getElem hnode,
    Option.getD_some]
  simp only [Option.isNone_iff_eq_none, Option.some.injEq]

/-- What the search for a free node finds. -/
theorem freeBefore?_eq_some {node free : Nat} (hnode : node ≤ s.nodes.size)
    (h : s.freeBefore? node = some free) :
    free < node ∧ s.nodes[free]? = some none ∧
      ∀ i, free < i → i < node → s.nodes[i]? ≠ some none := by
  induction node with
  | zero => exact nomatch h
  | succ node ih =>
    rw [freeBefore?_succ hnode] at h
    split at h
    next hvacant =>
      obtain rfl := Option.some.inj h
      exact ⟨Nat.lt_succ_self _, hvacant, fun i h₁ h₂ => by omega⟩
    next htaken =>
      obtain ⟨hlt, hvacant, hbetween⟩ := ih (Nat.le_of_succ_le hnode) h
      refine ⟨Nat.lt_succ_of_lt hlt, hvacant, fun i h₁ h₂ => ?_⟩
      obtain rfl | hi := Nat.eq_or_lt_of_le (Nat.le_of_lt_succ h₂)
      · exact htaken
      · exact hbetween i h₁ hi

theorem freeBefore?_eq_none {node : Nat} (hnode : node ≤ s.nodes.size)
    (h : s.freeBefore? node = none) : ∀ i < node, s.nodes[i]? ≠ some none := by
  induction node with
  | zero => exact fun i hi => absurd hi (Nat.not_lt_zero i)
  | succ node ih =>
    rw [freeBefore?_succ hnode] at h
    split at h
    · exact nomatch h
    next htaken =>
      intro i hi
      obtain rfl | hi := Nat.eq_or_lt_of_le (Nat.le_of_lt_succ hi)
      · exact htaken
      · exact ih (Nat.le_of_succ_le hnode) h i hi

/-- Behind the free ones all nodes are taken, so if any is left, the search finds the last one. -/
theorem Laid.exists_freeBefore? (h : s.Laid) {vacant : Nat}
    (hroom : s.nodes[vacant]? = some none) :
    ∃ free, s.freeBefore? s.free = some free ∧ free < s.nodes.size ∧
      s.nodes[free]? = some none ∧ ∀ i, free < i → s.nodes[i]? ≠ some none := by
  have hbefore : vacant < s.free := Nat.lt_of_not_le fun hle => h.taken vacant hle hroom
  cases hfree : s.freeBefore? s.free with
  | none => exact absurd hroom (freeBefore?_eq_none h.bounded hfree vacant hbefore)
  | some free =>
    obtain ⟨hlt, hvacant, hbetween⟩ := freeBefore?_eq_some h.bounded hfree
    refine ⟨free, rfl, Nat.lt_of_lt_of_le hlt h.bounded, hvacant, fun i hi => ?_⟩
    by_cases hi' : i < s.free
    · exact hbetween i hi hi'
    · exact h.taken i (Nat.not_lt.mp hi')

/-! ### A new key -/

/-- The agreement of places and nodes alone. -/
def Placed (s : Shape) : Prop :=
  ∀ (k : Key) (i : Nat), s.places[k]? = some i ↔ s.nodes[i]? = some (some k)

/-- A key that is put onto a node without one. -/
theorem put_vacant {key : Key} {node : Nat} (hvacant : s.nodes[node]? = some none) :
    s.put key node = { s with
      nodes := s.nodes.setIfInBounds node (some key), places := s.places.insert key node } := by
  obtain ⟨items, hint, nodes, places, free⟩ := s
  have hget : nodes.getD node none = none := by
    rw [Array.getD_eq_getD_getElem?]
    exact congrArg (·.getD none) hvacant
  unfold put
  dsimp only
  rw [hget]

theorem getElem?_put {key : Key} {node : Nat} (hvacant : s.nodes[node]? = some none) (i : Nat) :
    (s.put key node).nodes[i]? = if node = i then some (some key) else s.nodes[i]? := by
  obtain ⟨hlt, -⟩ := Array.getElem?_eq_some_iff.mp hvacant
  rw [put_vacant hvacant, Array.getElem?_setIfInBounds, if_pos hlt]

/-- A new key gets a node that nothing stands on. -/
theorem Placed.put (h : s.Placed) {key : Key} {node : Nat} (hvacant : s.nodes[node]? = some none)
    (hnew : key ∉ s.places) : (s.put key node).Placed := by
  intro k i
  have hplaces : (s.put key node).places[k]? = if key = k then some node else s.places[k]? := by
    rw [put_vacant hvacant, Std.HashMap.getElem?_insert]
    simp only [beq_iff_eq]
  rw [hplaces, getElem?_put hvacant]
  by_cases hk : key = k
  · subst hk
    rw [if_pos rfl]
    by_cases hi : node = i
    · rw [if_pos hi, hi]
      simp
    · rw [if_neg hi]
      have hnode : s.nodes[i]? ≠ some (some key) := fun heq => by
        have hplace := (h key i).mpr heq
        exact hnew (Std.HashMap.mem_iff_isSome_getElem?.mpr (hplace ▸ rfl))
      simp [hi, hnode]
  · rw [if_neg hk, h k i]
    by_cases hi : node = i
    · subst hi
      rw [if_pos rfl, hvacant]
      simp [hk]
    · rw [if_neg hi]

section Move

variable {other : Key} {source dest : Nat}

/-- A move leaves the node of the key empty, and puts the key onto the other one. -/
theorem move_vacant (hsource : s.nodes[source]? = some (some other))
    (hdest : s.nodes[dest]? = some none) :
    s.move other source dest = { s with
      nodes := (s.nodes.setIfInBounds source none).setIfInBounds dest (some other)
      places := s.places.insert other dest } := by
  have hne : source ≠ dest := by
    rintro rfl
    rw [hsource] at hdest
    exact nomatch hdest
  let left : Shape := { s with nodes := s.nodes.setIfInBounds source none }
  have hvacant : left.nodes[dest]? = some none := by
    show (s.nodes.setIfInBounds source none)[dest]? = _
    rw [Array.getElem?_setIfInBounds_ne hne, hdest]
  exact put_vacant hvacant

theorem getElem?_move (hsource : s.nodes[source]? = some (some other))
    (hdest : s.nodes[dest]? = some none) (i : Nat) :
    (s.move other source dest).nodes[i]? =
      if dest = i then some (some other) else if source = i then some none else s.nodes[i]? := by
  obtain ⟨hlt, -⟩ := Array.getElem?_eq_some_iff.mp hsource
  obtain ⟨hlt', -⟩ := Array.getElem?_eq_some_iff.mp hdest
  rw [move_vacant hsource hdest, Array.getElem?_setIfInBounds, Array.size_setIfInBounds,
    if_pos hlt', Array.getElem?_setIfInBounds, if_pos hlt]

/-- A key that is moved to another node stands on that node alone. -/
theorem Placed.move (h : s.Placed) (hsource : s.nodes[source]? = some (some other))
    (hdest : s.nodes[dest]? = some none) : (s.move other source dest).Placed := by
  intro k i
  have hplaces : (s.move other source dest).places[k]? =
      if other = k then some dest else s.places[k]? := by
    rw [move_vacant hsource hdest, Std.HashMap.getElem?_insert]
    simp only [beq_iff_eq]
  rw [hplaces, getElem?_move hsource hdest]
  -- For the key that moves the old node is now free; for any other both nodes are not its own.
  by_cases hk : other = k
  · subst hk
    rw [if_pos rfl]
    by_cases hi : dest = i
    · simp [hi]
    rw [if_neg hi]
    by_cases hi' : source = i
    · simp [hi, hi']
    · have hnode : s.nodes[i]? ≠ some (some other) := fun heq =>
        hi' (Option.some.inj (((h other source).mpr hsource).symm.trans ((h other i).mpr heq)))
      simp [hi, hi', hnode]
  · rw [if_neg hk, h k i]
    by_cases hi : dest = i
    · subst hi
      rw [if_pos rfl, hdest]
      simp [hk]
    rw [if_neg hi]
    by_cases hi' : source = i
    · subst hi'
      rw [if_pos rfl, hsource]
      simp [hk]
    · rw [if_neg hi']

theorem mem_places_move (hsource : s.nodes[source]? = some (some other))
    (hdest : s.nodes[dest]? = some none) (hheld : other ∈ s.places) (k : Key) :
    k ∈ (s.move other source dest).places ↔ k ∈ s.places := by
  rw [move_vacant hsource hdest, Std.HashMap.mem_insert, beq_iff_eq, or_iff_right_iff_imp]
  rintro rfl
  exact hheld

end Move

/-- A new key on a node, if that is the only one behind the free ones that nothing stands on. -/
theorem Placed.laid_put (h : s.Placed) (hitems : s.items = 0)
    (hsize : 0 < s.nodes.size → ∃ exponent, s.nodes.size = 2 ^ exponent)
    (hbounded : s.free ≤ s.nodes.size) {key : Key}
    {node : Nat} (hvacant : s.nodes[node]? = some none) (hnew : key ∉ s.places)
    (htaken : ∀ i, s.free ≤ i → node ≠ i → s.nodes[i]? ≠ some none) :
    (s.put key node).Laid ∧ (s.put key node).nodes.size = s.nodes.size ∧
      ∀ k, k ∈ (s.put key node).places ↔ k = key ∨ k ∈ s.places := by
  have hput : s.put key node = _ := put_vacant hvacant
  have hsame : (s.put key node).nodes.size = s.nodes.size := by
    rw [hput]
    exact Array.size_setIfInBounds
  refine ⟨⟨?_, ?_, h.put hvacant hnew, ?_, fun i hi => ?_⟩, hsame, fun k => ?_⟩
  · rw [hput]
    exact hitems
  · rwa [hsame]
  · rw [hsame, hput]
    exact hbounded
  · rw [getElem?_put hvacant]
    split
    · exact fun heq => nomatch heq
    next hne =>
      rw [hput] at hi
      exact htaken i hi hne
  · rw [hput, Std.HashMap.mem_insert, beq_iff_eq, eq_comm]

/-- A new key takes the node of another key, and that key gets the node that was free. -/
theorem Placed.laid_move_put (h : s.Placed) (hitems : s.items = 0)
    (hsize : 0 < s.nodes.size → ∃ exponent, s.nodes.size = 2 ^ exponent)
    (hbounded : s.free ≤ s.nodes.size) {key other : Key} {node : Nat}
    (hheld : s.nodes[node]? = some (some other)) (hvacant : s.nodes[s.free]? = some none)
    (hnew : key ∉ s.places) (htaken : ∀ i, s.free < i → s.nodes[i]? ≠ some none) :
    ((s.move other node s.free).put key node).Laid ∧
      ((s.move other node s.free).put key node).nodes.size = s.nodes.size ∧
      ∀ k, k ∈ ((s.move other node s.free).put key node).places ↔ k = key ∨ k ∈ s.places := by
  have hother : other ∈ s.places :=
    Std.HashMap.mem_iff_isSome_getElem?.mpr (((h other _).mpr hheld) ▸ rfl)
  -- First the move: it leaves the keys as they are and makes the node of the other key free.
  have hmove : s.move other node s.free = _ := move_vacant hheld hvacant
  have hnodes := getElem?_move hheld hvacant
  have hmem := mem_places_move hheld hvacant hother
  have hfree : (s.move other node s.free).free = s.free := by rw [hmove]
  have hsame : (s.move other node s.free).nodes.size = s.nodes.size := by
    rw [hmove, Array.size_setIfInBounds, Array.size_setIfInBounds]
  have hempty : (s.move other node s.free).nodes[node]? = some none := by
    rw [hnodes, if_neg, if_pos rfl]
    rintro heq
    rw [heq, hheld] at hvacant
    exact nomatch hvacant
  have htaken' (i : Nat) (hi : (s.move other node s.free).free ≤ i) (hne : node ≠ i) :
      (s.move other node s.free).nodes[i]? ≠ some none := by
    rw [hfree] at hi
    rw [hnodes, if_neg hne]
    split
    · exact fun heq => nomatch heq
    next hne' => exact htaken i (Nat.lt_of_le_of_ne hi hne')
  obtain ⟨hlaid, hsize', hmem'⟩ := (h.move hheld hvacant).laid_put (hmove ▸ hitems)
    (hsame ▸ hsize) (by rw [hsame, hfree]; exact hbounded) hempty
    (fun hin => hnew ((hmem key).mp hin)) htaken'
  exact ⟨hlaid, hsize'.trans hsame, fun k => (hmem' k).trans (by rw [hmem k])⟩

/-- As long as there is a node that nothing stands on, a new key gets one, and all others keep
one. -/
theorem place_ok (h : s.Laid) {holds : Key → Bool} (hholds : ∀ k ∈ s.places, holds k = true)
    {key : Key} (hnew : key ∉ s.places) {vacant : Nat} (hroom : s.nodes[vacant]? = some none) :
    ∃ s', s.place holds key = (true, s') ∧ s'.Laid ∧ s'.nodes.size = s.nodes.size ∧
      ∀ k, k ∈ s'.places ↔ k = key ∨ k ∈ s.places := by
  obtain ⟨hlt, -⟩ := Array.getElem?_eq_some_iff.mp hroom
  have hnonempty : ¬s.nodes.isEmpty = true := by
    rw [Array.isEmpty_iff_size_eq_zero]
    omega
  unfold place
  rw [if_neg hnonempty]
  dsimp only
  generalize hpreferred : s.preferred key = node
  have hnode : node < s.nodes.size := hpreferred ▸ preferred_lt h (Nat.zero_lt_of_lt hlt) key
  cases hheld : s.nodes[node]? with
  | none => exact absurd hnode (Nat.not_lt.mpr (Array.getElem?_eq_none_iff.mp hheld))
  | some held =>
    rw [Array.getD_eq_getD_getElem?, hheld, Option.getD_some]
    cases held with
    | none =>
      exact ⟨_, rfl, Placed.laid_put h.placed h.items h.size h.bounded hheld hnew
        fun i hi _ => h.taken i hi⟩
    | some other =>
      have hother : other ∈ s.places :=
        Std.HashMap.mem_iff_isSome_getElem?.mpr (((h.placed other _).mpr hheld) ▸ rfl)
      obtain ⟨free, hfree, hbound, hvacant, htaken⟩ := h.exists_freeBefore? hroom
      rw [Option.filter_some, if_pos (hholds other hother), hfree]
      dsimp only
      let s₁ : Shape := { s with free }
      have hplaced₁ : s₁.Placed := h.placed
      split
      · -- the other key is where it belongs, so the new one has to go elsewhere
        exact ⟨_, rfl, Placed.laid_put hplaced₁ h.items h.size hbound.le hvacant hnew
          fun i hi hne => htaken i (Nat.lt_of_le_of_ne hi hne)⟩
      · exact ⟨_, rfl, hplaced₁.laid_move_put h.items h.size hbound.le hheld hvacant hnew htaken⟩

/-! ### All keys -/

theorem keyAt?_eq (h : s.items = 0) (place : Nat) : s.keyAt? place = s.nodes.getD place none := by
  rw [keyAt?, h, if_neg (Nat.not_lt_zero _), Nat.sub_zero]

/-- A key has a place exactly if the traversal meets it. -/
theorem Laid.mem_keys (h : s.Laid) {key : Key} : key ∈ s.keys ↔ key ∈ s.places := by
  rw [keys, List.mem_filterMap, Std.HashMap.mem_iff_isSome_getElem?, Option.isSome_iff_exists]
  refine exists_congr fun i => ?_
  rw [keyAt?_eq h.items, Array.getD_eq_getD_getElem?, h.placed, List.mem_range, Shape.size, h.items,
    Nat.zero_add]
  constructor
  · rintro ⟨hlt, heq⟩
    rw [Array.getElem?_eq_getElem hlt] at heq ⊢
    exact congrArg some heq
  · intro heq
    obtain ⟨hlt, -⟩ := Array.getElem?_eq_some_iff.mp heq
    exact ⟨hlt, by rw [heq]; rfl⟩

/-- The traversal meets no key twice. -/
theorem Laid.nodup_keys (h : s.Laid) : s.keys.Nodup := by
  refine List.Nodup.filterMap (fun i j key hi hj => ?_) List.nodup_range
  have hnode (i : Nat) (hi : key ∈ s.keyAt? i) : s.places[key]? = some i := by
    rw [keyAt?_eq h.items, Array.getD_eq_getD_getElem?] at hi
    rw [h.placed]
    cases hget : s.nodes[i]? with
    | none =>
      rw [hget] at hi
      exact nomatch hi
    | some held =>
      rw [hget] at hi
      exact congrArg some hi
  exact Option.some.inj ((hnode i hi).symm.trans (hnode j hj))

/-- With fewer keys than nodes there is a node that nothing stands on. -/
theorem Laid.exists_vacant (h : s.Laid) (hroom : s.keys.length < s.nodes.size) :
    ∃ i : Nat, s.nodes[i]? = some none := by
  by_contra hfull
  have hall : ∀ i ∈ List.range s.size, (s.keyAt? i).isSome = true := by
    intro i hi
    rw [List.mem_range, Shape.size, h.items, Nat.zero_add] at hi
    rw [keyAt?_eq h.items, Array.getD_eq_getD_getElem?, Array.getElem?_eq_getElem hi]
    rw [Option.getD_some, Option.isSome_iff_ne_none]
    exact fun heq => hfull ⟨i, by rw [Array.getElem?_eq_getElem hi, heq]⟩
  have hlength : s.keys.length = (List.range s.size).length :=
    List.filterMap_length_eq_length.mpr hall
  rw [List.length_range, Shape.size, h.items, Nat.zero_add] at hlength
  omega

theorem le_two_pow_ceilLog (n : Nat) : n ≤ 2 ^ ceilLog n := by
  unfold ceilLog
  split
  next hle => exact hle
  next hle =>
    have hlt := Nat.lt_log2_self (n := n - 1)
    omega

/-- A layout for keys on nodes, before any is entered. -/
theorem laid_ofSizes (nodes : Nat) : (ofSizes 0 nodes).Laid where
  items := rfl
  size h := by
    unfold ofSizes at h ⊢
    dsimp only at h ⊢
    split
    next hzero =>
      rw [if_pos hzero] at h
      exact absurd h (by simp)
    · exact ⟨ceilLog nodes, Array.size_replicate⟩
  placed k i := by
    have hno : (ofSizes 0 nodes).places[k]? = none := Std.HashMap.getElem?_empty
    rw [hno]
    constructor
    · exact fun heq => nomatch heq
    intro heq
    have hnone : (some k : Option Key) = none :=
      Array.eq_of_mem_replicate (Array.mem_of_getElem? heq)
    exact nomatch hnone
  bounded := by
    unfold ofSizes
    simp
  taken i hi heq := by
    obtain ⟨hlt, -⟩ := Array.getElem?_eq_some_iff.mp heq
    unfold ofSizes at hi hlt
    simp only [Array.size_replicate] at hi hlt
    omega

end Shape

namespace Table

/-! ### Tables that are being filled -/

/-- A table without items that holds exactly the given entries, and has places for their keys and no
others. -/
structure HoldsExactly (t : Table) (entries : List (Key × Value)) : Prop where
  laid : t.shape.Laid
  places : ∀ k, k ∈ t.shape.places ↔ k ∈ entries.map (·.1)
  values : ∀ k v, t.values[k]? = some v ↔ (k, v) ∈ entries
  nodup : (entries.map (·.1)).Nodup

variable {t : Table} {entries : List (Key × Value)}

/-- The traversal meets exactly the keys of the entries. -/
theorem HoldsExactly.keys_perm (h : t.HoldsExactly entries) :
    t.shape.keys.Perm (entries.map (·.1)) :=
  (List.perm_ext_iff_of_nodup h.laid.nodup_keys h.nodup).mpr fun k =>
    h.laid.mem_keys.trans (h.places k)

/-- The pairs of a table are its entries, in some order. -/
theorem HoldsExactly.pairs_perm (h : t.HoldsExactly entries) :
    t.pairs.Perm (entries.map fun e => (e.1.value, e.2)) := by
  have hfound : ∀ e ∈ entries,
      (t.values[e.1]?).map (fun v => (e.1.value, v)) = some (e.1.value, e.2) := fun e he => by
    rw [(h.values e.1 e.2).mpr he]
    rfl
  refine (h.keys_perm.filterMap _).trans (.of_eq ?_)
  rw [List.filterMap_map]
  exact (List.filterMap_congr hfound).trans (congrFun List.filterMap_eq_map entries)

theorem HoldsExactly.contains_eq_false (h : t.HoldsExactly entries) {key : Key}
    (hnew : key ∉ entries.map (·.1)) : t.shape.contains key = false := by
  rw [← Bool.not_eq_true, Shape.contains_iff h.laid.items, h.places]
  exact hnew

/-- A key that has no entry yet gets one, if there is room. -/
theorem HoldsExactly.setKey (h : t.HoldsExactly entries) {key : Key}
    (hnew : key ∉ entries.map (·.1)) {v : Value} (hv : v.isNil = false)
    (hroom : entries.length < t.shape.nodes.size) :
    (t.setKey key v).HoldsExactly ((key, v) :: entries) ∧
      (t.setKey key v).shape.nodes.size = t.shape.nodes.size := by
  have hvacant := h.laid.exists_vacant (by rwa [h.keys_perm.length_eq, List.length_map])
  obtain ⟨vacant, hvacant⟩ := hvacant
  have hholds : ∀ k ∈ t.shape.places, t.values.contains k = true := by
    intro k hk
    obtain ⟨e, he, rfl⟩ := List.mem_map.mp ((h.places k).mp hk)
    rw [Std.HashMap.contains_eq_isSome_getElem?, (h.values e.1 e.2).mpr he]
    rfl
  have hunplaced : key ∉ t.shape.places := fun hin => hnew ((h.places key).mp hin)
  obtain ⟨s, hplace, hlaid, hsize, hplaces⟩ := Shape.place_ok h.laid hholds hunplaced hvacant
  -- With the key absent and the value present, setting is an insertion into both parts.
  have hset : t.setKey key v = ⟨t.values.insert key v, s, t.metatable⟩ := by
    have hinsert : t.shape.insert (fun k => t.values.contains k) key = s := by
      rw [Shape.insert, hplace]
    have hcontains := h.contains_eq_false hnew
    obtain ⟨values, shape, metatable⟩ := t
    simp only [Table.setKey, hcontains, hv, Bool.false_eq_true, if_false]
    rw [hinsert]
  rw [hset]
  refine ⟨⟨hlaid, fun k => ?_, fun k w => ?_, List.nodup_cons.mpr ⟨hnew, h.nodup⟩⟩, hsize⟩
  · rw [hplaces, List.map_cons, List.mem_cons, h.places]
  · rw [Std.HashMap.getElem?_insert, List.mem_cons]
    by_cases hk : key = k
    · subst hk
      have hno : (key, w) ∉ entries := fun hin => hnew (List.mem_map_of_mem hin)
      simp only [beq_self_eq_true, if_true, Option.some.injEq, Prod.mk.injEq, true_and, hno,
        or_false]
      exact eq_comm
    · have hne : ¬(k = key ∧ w = v) := fun heq => hk heq.1.symm
      simp only [beq_iff_eq, hk, if_false, Prod.mk.injEq, hne, false_or]
      exact h.values k w

/-- Nothing changes when a key that has no entry is set to nil. -/
theorem HoldsExactly.setKey_nil (h : t.HoldsExactly entries) {key : Key}
    (hnew : key ∉ entries.map (·.1)) {v : Value} (hv : v.isNil = true) :
    (t.setKey key v).HoldsExactly entries ∧
      (t.setKey key v).shape.nodes.size = t.shape.nodes.size := by
  have hset : t.setKey key v = ⟨t.values.erase key, t.shape, t.metatable⟩ := by
    have hcontains := h.contains_eq_false hnew
    obtain ⟨values, shape, metatable⟩ := t
    simp only [Table.setKey, hcontains, hv, Bool.false_eq_true, if_false, if_true]
  rw [hset]
  refine ⟨⟨h.laid, h.places, fun k w => ?_, h.nodup⟩, rfl⟩
  rw [Std.HashMap.getElem?_erase]
  by_cases hk : key = k
  · subst hk
    have hno : (key, w) ∉ entries := fun hin => hnew (List.mem_map_of_mem hin)
    simp [hno]
  · rw [if_neg (by simpa using hk)]
    exact h.values k w

/-- Enters values under keys. -/
def enter (t : Table) (entries : List (Key × Value)) : Table :=
  entries.foldl (fun t e => t.setKey e.1 e.2) t

/-- Entries with different keys all find room in a table that was made for them. Those whose values
are nil are left out. -/
theorem HoldsExactly.enter (h : t.HoldsExactly entries) {more : List (Key × Value)}
    (hnodup : (more.map (·.1)).Nodup) (hnew : ∀ e ∈ more, e.1 ∉ entries.map (·.1))
    (hroom : entries.length + more.length ≤ t.shape.nodes.size) :
    (t.enter more).HoldsExactly ((more.filter fun e => !e.2.isNil).reverse ++ entries) := by
  induction more generalizing t entries with
  | nil => exact h
  | cons e more ih =>
    rw [List.map_cons, List.nodup_cons] at hnodup
    obtain ⟨hfirst, hnodup⟩ := hnodup
    obtain ⟨hkey, hnew⟩ := List.forall_mem_cons.mp hnew
    rw [List.length_cons] at hroom
    show ((t.setKey e.1 e.2).enter more).HoldsExactly _
    cases hv : e.2.isNil with
    | true =>
      obtain ⟨hset, hsize⟩ := h.setKey_nil hkey hv
      rw [List.filter_cons_of_neg (by simp [hv])]
      exact ih hset hnodup hnew (by rw [hsize]; omega)
    | false =>
      obtain ⟨hset, hsize⟩ := h.setKey hkey hv (by omega)
      rw [List.filter_cons_of_pos (by simp [hv]), List.reverse_cons, List.append_assoc,
        List.singleton_append]
      refine ih hset hnodup (fun x hx => ?_) (by rw [hsize, List.length_cons]; omega)
      rw [List.map_cons, List.mem_cons, not_or]
      refine ⟨fun heq => hfirst ?_, hnew x hx⟩
      rw [← heq]
      exact List.mem_map_of_mem hx

/-- The traversal of a table that was made for some entries with different keys. -/
theorem pairs_enter (hnodup : (entries.map (·.1)).Nodup) :
    ((withRoom 0 entries.length).enter entries).pairs.Perm
      ((entries.filter fun e => !e.2.isNil).map fun e => (e.1.value, e.2)) := by
  have hempty : (withRoom 0 entries.length).HoldsExactly [] :=
    { laid := Shape.laid_ofSizes _
      places k := by simp [withRoom, Shape.ofSizes]
      values k v := by simp [withRoom]
      nodup := List.nodup_nil }
  have hroom : ([] : List (Key × Value)).length + entries.length ≤
      (withRoom 0 entries.length).shape.nodes.size := by
    unfold withRoom Shape.ofSizes
    simp only [List.length_nil, Nat.zero_add, Array.size_replicate]
    split
    next hzero => exact hzero.le
    · exact Shape.le_two_pow_ceilLog _
  have hall := hempty.enter hnodup (fun e _ => List.not_mem_nil) hroom
  rw [List.append_nil] at hall
  exact hall.pairs_perm.trans ((List.reverse_perm _).map _)

end Table

end StoredRoutine.Script
