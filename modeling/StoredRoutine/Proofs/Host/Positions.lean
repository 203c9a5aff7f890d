import Mathlib.Data.List.Intervals
import StoredRoutine.Proofs.Host.Portals

/-!
# `StoredRoutine.Proofs.Host.Positions`: where cursors stand

A cursor over `n` rows stands at one of the positions `0, …, n + 1`: on a row, before the first or
after the last. `Portal.Gives` says of a fetch which rows it answers, by their numbers, and where it
leaves the cursor. Each direction has its law: `gives_forward` and `gives_backward` for counts of
rows, `gives_seek` for targets. The position goes past the end only when a row is asked for that is
not there, so the laws differ at the ends.

A count of rows is also so many fetches of one row (`forward_eq_walk`, `backward_eq_walk`). The end
of the rows is where a walk stays, so two fetches in one direction are the same as one
(`forward_add`, `backward_add`).

No operation of a host puts a cursor anywhere else (`inside_performAll`), so the laws hold of every
cursor of a host, whatever it was told to do (`positioning_performAll`).
-/

set_option autoImplicit false

namespace StoredRoutine

namespace Portal

variable {p : Portal}

/-- The row with the given number. Rows are counted from 1. -/
def row? (p : Portal) : Nat → Option Row
  | 0 => none
  | n + 1 => p.rows.rows[n]?

/-- What a fetch answers: the rows with the given numbers, in this order. The portal is left at the
given position, and is otherwise the same. -/
structure Gives (p : Portal) (numbers : List Nat) (position : Nat) (answer : List Row × Portal) :
    Prop where
  rows : answer.1.map some = numbers.map p.row?
  portal : answer.2 = { p with position }

/-- A part of the rows, by the numbers of its rows. -/
theorem rows_slice (p : Portal) {first last : Nat} (hlast : last ≤ p.total) :
    ((p.rows.rows.drop first).take (last - first)).map some =
      (List.Ico (first + 1) (last + 1)).map p.row? := by
  have htotal : p.total = p.rows.rows.length := rfl
  -- both lists have so many rows, and the same one at every place
  refine List.ext_getElem ?_ fun n hn _ => ?_
  · rw [List.length_map, List.length_take, List.length_drop, List.length_map, List.Ico.length]
    omega
  · rw [List.length_map, List.length_take, List.length_drop] at hn
    have hrow : first + n < p.rows.rows.length := by omega
    simp only [List.getElem_map, List.getElem_take, List.getElem_drop, List.Ico,
      List.getElem_range', Nat.one_mul]
    rw [Nat.add_right_comm]
    exact (List.getElem?_eq_getElem hrow).symm

/-- The two parts of an answer, whether rows are asked for or not. -/
theorem forward_eq (hin : p.position ≤ p.total + 1) (count : Nat) :
    p.forward count = ((p.rows.rows.drop p.position).take count,
      { p with position := min (p.position + count) (p.total + 1) }) := by
  unfold forward
  split
  next hnone =>
    rw [hnone, List.take_zero, Nat.add_zero, Nat.min_eq_left hin]
  next =>
    have hposition : (if p.total < p.position + count then p.total + 1 else p.position + count) =
        min (p.position + count) (p.total + 1) := by
      split <;> omega
    rw [hposition]

theorem backward_eq (p : Portal) (count : Nat) :
    p.backward count = ((p.rows.rows.take (p.position - 1)).reverse.take count,
      { p with position := p.position - count }) := by
  unfold backward
  split
  next hnone => rw [hnone, List.take_zero, Nat.sub_zero]
  next => rfl

theorem gives_forward (hin : p.position ≤ p.total + 1) (count : Nat) :
    p.Gives (List.Ico (p.position + 1) (min (p.position + count) p.total + 1))
      (min (p.position + count) (p.total + 1)) (p.forward count) := by
  -- what is asked for beyond the last row is not there
  have htake : (p.rows.rows.drop p.position).take count =
      (p.rows.rows.drop p.position).take (min (p.position + count) p.total - p.position) := by
    rw [List.take_eq_take_iff, List.length_drop]
    unfold total
    omega
  rw [forward_eq hin, htake]
  exact ⟨p.rows_slice (Nat.min_le_right _ _), rfl⟩

theorem gives_backward (hin : p.position ≤ p.total + 1) (count : Nat) :
    p.Gives (List.Ico (max (p.position - count) 1) p.position).reverse (p.position - count)
      (p.backward count) := by
  rw [backward_eq]
  refine ⟨?_, rfl⟩
  cases hposition : p.position with
  | zero =>
    rw [List.Ico.eq_nil_of_le (Nat.zero_le _)]
    exact congrArg (List.map some) List.take_nil
  | succ before =>
    -- so many rows are in front of the position
    have hlength : (p.rows.rows.take before).length = before := by
      have htotal : p.total = p.rows.rows.length := rfl
      rw [List.length_take]
      omega
    rw [Nat.add_sub_cancel, List.take_reverse, hlength, List.drop_take, List.map_reverse,
      p.rows_slice (by omega), List.map_reverse]
    congr 3
    omega

/-- The numbers of the rows that a target stands for: there is one at most. -/
def within (p : Portal) (target : Int) : List Nat :=
  if 1 ≤ target ∧ target ≤ p.total then [target.toNat] else []

/-- The target, moved to the nearest position. -/
def clamp (p : Portal) (target : Int) : Nat := (max 0 (min target (p.total + 1))).toNat

theorem gives_seek (p : Portal) (target : Int) :
    p.Gives (p.within target) (p.clamp target) (p.seek target) := by
  have htotal : p.total = p.rows.rows.length := rfl
  constructor
  · show List.map some (if 1 ≤ target then (p.rows.rows[target.toNat - 1]?).toList else []) =
      (p.within target).map p.row?
    unfold within
    -- the target is one of the rows, or lies beyond them, or before them
    by_cases hlow : 1 ≤ target
    · obtain ⟨n, hn⟩ : ∃ n, target.toNat = n + 1 := ⟨target.toNat - 1, by omega⟩
      rw [if_pos hlow, hn, Nat.add_sub_cancel]
      by_cases hup : target ≤ p.total
      · rw [if_pos ⟨hlow, hup⟩, List.getElem?_eq_getElem (by omega)]
        exact congrArg ([·]) (List.getElem?_eq_getElem (by omega)).symm
      · rw [if_neg fun h => hup h.2, List.getElem?_eq_none (by omega)]
        rfl
    · rw [if_neg hlow, if_neg fun h => hlow h.1]
      rfl
  · have hposition : (if target < 0 then 0 else min target.toNat (p.total + 1)) =
        p.clamp target := by
      unfold clamp
      split <;> omega
    show ({ p with position := if _ then _ else _ } : Portal) = _
    rw [hposition]

theorem clamp_le (p : Portal) (target : Int) : p.clamp target ≤ p.total + 1 := by
  unfold clamp
  omega

/-- A fetch from a portal leaves it at one of its positions. -/
theorem position_fetch_le (hin : p.position ≤ p.total + 1) (direction : FetchDirection)
    (count : Int64) : (p.fetch direction count).2.position ≤ p.total + 1 := by
  cases direction with
  | forward =>
    show (p.forward _).2.position ≤ _
    rw [(gives_forward hin _).portal]
    exact Nat.min_le_right _ _
  | backward =>
    show (p.backward _).2.position ≤ _
    rw [(gives_backward hin _).portal]
    exact Nat.le_trans (Nat.sub_le _ _) hin
  | absolute =>
    show (p.seek _).2.position ≤ _
    rw [(gives_seek p _).portal]
    exact clamp_le p _
  | relative =>
    show (p.seek _).2.position ≤ _
    rw [(gives_seek p _).portal]
    exact clamp_le p _

/-! ### Row by row -/

/-- One row forwards. Where there is none, the portal goes after the last one. -/
def next (p : Portal) : Option Row × Portal :=
  match p.row? (p.position + 1) with
  | none => (none, { p with position := p.total + 1 })
  | some row => (some row, { p with position := p.position + 1 })

/-- One row backwards. Where there is none, the portal goes before the first one. -/
def previous (p : Portal) : Option Row × Portal :=
  match p.row? (p.position - 1) with
  | none => (none, { p with position := 0 })
  | some row => (some row, { p with position := p.position - 1 })

/-- So many rows, one after the other, until there is none. -/
def walk (step : Portal → Option Row × Portal) : Nat → Portal → List Row × Portal
  | 0, p => ([], p)
  | count + 1, p =>
    match step p with
    | (none, p) => ([], p)
    | (some row, p) => (row :: (walk step count p).1, (walk step count p).2)

section Walk

variable {step : Portal → Option Row × Portal} {q : Portal} {row : Row}

theorem walk_none (hstep : step p = (none, q)) (count : Nat) :
    walk step (count + 1) p = ([], q) := by
  unfold walk
  rw [hstep]

theorem walk_some (hstep : step p = (some row, q)) (count : Nat) :
    walk step (count + 1) p = (row :: (walk step count q).1, (walk step count q).2) := by
  rw [walk, hstep]

/-- Where the rows have come to an end they do not go on, so a walk in two parts is one walk. -/
theorem walk_add (hend : ∀ p q, step p = (none, q) → step q = (none, q)) (a b : Nat)
    (p : Portal) :
    walk step (a + b) p = ((walk step a p).1 ++ (walk step b (walk step a p).2).1,
      (walk step b (walk step a p).2).2) := by
  induction a generalizing p with
  | zero =>
    rw [Nat.zero_add]
    rfl
  | succ a ih =>
    rw [Nat.succ_add]
    cases hstep : step p with
    | mk row q =>
      cases row with
      | none =>
        -- the first part has come to the end, and the second one stays there
        rw [walk_none hstep, walk_none hstep]
        cases b with
        | zero => rfl
        | succ b =>
          rw [walk_none (hend p q hstep)]
          rfl
      | some row =>
        rw [walk_some hstep, walk_some hstep, ih q]
        rfl

end Walk

theorem row?_eq_none {n : Nat} (hn : n = 0 ∨ p.total < n) : p.row? n = none := by
  cases n with
  | zero => rfl
  | succ n => exact List.getElem?_eq_none (Nat.le_of_lt_succ (hn.resolve_left (Nat.succ_ne_zero n)))

theorem row?_eq_some {n : Nat} (hn : n < p.total) : p.row? (n + 1) = some p.rows.rows[n] :=
  List.getElem?_eq_getElem hn

theorem next_of_none (hrow : p.row? (p.position + 1) = none) :
    p.next = (none, { p with position := p.total + 1 }) := by
  unfold next
  rw [hrow]

theorem next_of_some {row : Row} (hrow : p.row? (p.position + 1) = some row) :
    p.next = (some row, { p with position := p.position + 1 }) := by
  unfold next
  rw [hrow]

theorem next_end (p q : Portal) (hnone : p.next = (none, q)) : q.next = (none, q) := by
  cases hrow : p.row? (p.position + 1) with
  | none =>
    rw [next_of_none hrow] at hnone
    cases hnone
    exact next_of_none (row?_eq_none (.inr (Nat.lt_succ_of_lt (Nat.lt_succ_self _))))
  | some row =>
    rw [next_of_some hrow] at hnone
    cases hnone

theorem previous_of_none (hrow : p.row? (p.position - 1) = none) :
    p.previous = (none, { p with position := 0 }) := by
  unfold previous
  rw [hrow]

theorem previous_of_some {row : Row} (hrow : p.row? (p.position - 1) = some row) :
    p.previous = (some row, { p with position := p.position - 1 }) := by
  unfold previous
  rw [hrow]

theorem previous_end (p q : Portal) (hnone : p.previous = (none, q)) : q.previous = (none, q) := by
  cases hrow : p.row? (p.position - 1) with
  | none =>
    rw [previous_of_none hrow] at hnone
    cases hnone
    exact previous_of_none rfl
  | some row =>
    rw [previous_of_some hrow] at hnone
    cases hnone

/-- A count of rows forwards is so many rows, one after the other. -/
theorem forward_eq_walk (hin : p.position ≤ p.total + 1) (count : Nat) :
    p.forward count = walk next count p := by
  induction count generalizing p with
  | zero => rfl
  | succ count ih =>
    rw [forward_eq hin]
    rcases Nat.lt_or_ge p.position p.total with hrow | hlast
    · -- there is a row, and the walk goes on behind it
      have hbehind : p.position + 1 ≤ p.total + 1 := Nat.succ_le_succ (Nat.le_of_lt hrow)
      rw [walk_some (next_of_some (row?_eq_some hrow)), ← ih hbehind, forward_eq hbehind,
        List.drop_eq_getElem_cons hrow, List.take_succ_cons, Nat.add_right_comm, ← Nat.add_assoc]
      rfl
    · -- there is none, and the position goes past the end
      rw [walk_none (next_of_none (row?_eq_none (.inr (Nat.lt_succ_of_le hlast)))),
        List.drop_of_length_le hlast, List.take_nil, Nat.min_eq_right (by omega)]

/-- A count of rows backwards is so many rows, each before the last. -/
theorem backward_eq_walk (hin : p.position ≤ p.total + 1) (count : Nat) :
    p.backward count = walk previous count p := by
  induction count generalizing p with
  | zero => rfl
  | succ count ih =>
    rw [backward_eq]
    rcases Nat.lt_or_ge 1 p.position with hmore | hfirst
    · -- there is a row, and the walk goes on before it
      obtain ⟨before, hposition⟩ := Nat.exists_eq_add_of_le' hmore
      have hrow : before < p.total := by omega
      have hprevious : p.row? (p.position - 1) = some p.rows.rows[before] := by
        rw [hposition]
        exact row?_eq_some hrow
      have hbefore : p.position - 1 = before + 1 := by omega
      have hlast : p.position - (count + 1) = before + 1 - count := by omega
      rw [walk_some (previous_of_some hprevious), hbefore, hlast,
        ← ih (p := { p with position := before + 1 }) (Nat.succ_le_succ (Nat.le_of_lt hrow)),
        backward_eq, List.take_succ_eq_append_getElem hrow, List.reverse_append]
      rfl
    · -- there is none, and the position goes to the start
      have hnone : p.position - 1 = 0 := by omega
      have hstart : p.position - (count + 1) = 0 := by omega
      rw [walk_none (previous_of_none (row?_eq_none (.inl hnone))), hnone, hstart]
      rfl

/-- To fetch rows in two parts is to fetch them at once. -/
theorem forward_add (hin : p.position ≤ p.total + 1) (a b : Nat) :
    p.forward (a + b) =
      ((p.forward a).1 ++ ((p.forward a).2.forward b).1, ((p.forward a).2.forward b).2) := by
  have hmoved : (p.forward a).2.position ≤ (p.forward a).2.total + 1 := by
    rw [(gives_forward hin a).portal]
    exact Nat.min_le_right _ _
  rw [forward_eq_walk hmoved, forward_eq_walk hin, forward_eq_walk hin, walk_add next_end]

theorem backward_add (hin : p.position ≤ p.total + 1) (a b : Nat) :
    p.backward (a + b) =
      ((p.backward a).1 ++ ((p.backward a).2.backward b).1, ((p.backward a).2.backward b).2) := by
  have hmoved : (p.backward a).2.position ≤ (p.backward a).2.total + 1 := by
    rw [(gives_backward hin a).portal]
    exact Nat.le_trans (Nat.sub_le _ _) hin
  rw [backward_eq_walk hmoved, backward_eq_walk hin, backward_eq_walk hin, walk_add previous_end]

/-! ### Counts in words -/

/-- Counts that are not negative are added as numbers. -/
theorem toNat_toInt_add {a b : Int64} (ha : 0 ≤ a) (hb : 0 ≤ b)
    (hsum : a.toInt + b.toInt < 2 ^ 63) :
    (a + b).toInt.toNat = a.toInt.toNat + b.toInt.toNat := by
  have ha' : 0 ≤ a.toInt := Int64.le_iff_toInt_le.mp ha
  have hb' : 0 ≤ b.toInt := Int64.le_iff_toInt_le.mp hb
  rw [Int64.toInt_add, Int.bmod_eq_of_le (by omega) (by omega)]
  omega

/-- Two fetches of rows in one direction are one fetch of both counts. -/
theorem fetch_add (hin : p.position ≤ p.total + 1) {direction : FetchDirection}
    (hdirection : direction = .forward ∨ direction = .backward) {a b : Int64} (ha : 0 ≤ a)
    (hb : 0 ≤ b) (hsum : a.toInt + b.toInt < 2 ^ 63) :
    p.fetch direction (a + b) =
      ((p.fetch direction a).1 ++ ((p.fetch direction a).2.fetch direction b).1,
        ((p.fetch direction a).2.fetch direction b).2) := by
  have hadd := toNat_toInt_add ha hb hsum
  rcases hdirection with rfl | rfl
  · show p.forward _ = _
    rw [hadd]
    exact forward_add hin _ _
  · show p.backward _ = _
    rw [hadd]
    exact backward_add hin _ _

/-- A negative count of rows is none. -/
theorem fetch_of_neg {direction : FetchDirection}
    (hdirection : direction = .forward ∨ direction = .backward) {count : Int64}
    (hneg : count < 0) : p.fetch direction count = ([], p) := by
  have hzero : count.toInt.toNat = 0 :=
    Int.toNat_of_nonpos (Int.le_of_lt (Int64.lt_iff_toInt_lt.mp hneg))
  rcases hdirection with rfl | rfl
  · show p.forward _ = _
    rw [hzero]
    rfl
  · show p.backward _ = _
    rw [hzero]
    rfl

theorem relativeTarget_eq_bmod (p : Portal) (count : Int64) :
    p.relativeTarget count = ((p.position : Int) + count.toInt).bmod (2 ^ 64) := by
  have hsize : Int64.size = 2 ^ 64 := rfl
  unfold relativeTarget
  rw [Int64.toInt_add, Int64.toInt_ofNat', hsize, Int.bmod_add_bmod]

/-- The target of a relative fetch is the sum if the sum is less than `2 ^ 63`. -/
theorem relativeTarget_eq {count : Int64} (hsum : (p.position : Int) + count.toInt < 2 ^ 63) :
    p.relativeTarget count = p.position + count.toInt := by
  have hlow := Int64.le_toInt count
  rw [relativeTarget_eq_bmod]
  exact Int.bmod_eq_of_le (by omega) (by omega)

end Portal

namespace Host

variable {h : Host} {name : String} {p : Portal} {direction : FetchDirection} {count : Int64}

/-- Every cursor stands on one of its rows, before the first or after the last. -/
def Inside (h : Host) : Prop := ∀ name p, h.portal? name = some p → p.position ≤ p.total + 1

/-- An operation leaves no cursor anywhere else. -/
theorem Inside.perform (hin : h.Inside) (op : HostOperation) : (h.perform op).Inside := by
  intro name p hportal
  by_cases hopens : h.opens? op = some name
  · obtain ⟨rows, hnew⟩ := portal_opened hopens
    cases hnew.symm.trans hportal
    exact Nat.zero_le _
  · obtain ⟨q, hq, rfl | ⟨direction, count, rfl⟩⟩ := portal_stayed hopens hportal
    · exact hin name p hq
    · have hrows := q.fetch_rows direction count
      unfold Portal.total
      rw [hrows]
      exact q.position_fetch_le (hin name q hq) direction count

theorem inside_performAll (ops : List HostOperation) : (new.performAll ops).Inside := by
  have hrun (h : Host) (hin : h.Inside) : (h.performAll ops).Inside := by
    induction ops generalizing h with
    | nil => exact hin
    | cons op rest ih => exact ih (h.perform op) (hin.perform op)
  exact hrun new fun name p hportal => nomatch hportal

/-! ### Fetches from an open cursor -/

/-- To fetch from the cursor of a name answers its rows with the given numbers, in this order, and
leaves it at the given position. -/
structure Reads (h : Host) (name : String) (p : Portal) (direction : FetchDirection)
    (count : Int64) (numbers : List Nat) (position : Nat) : Prop where
  answer : ∃ rows, (h.fetch name direction count).1 = .ok { layout := p.rows.layout, rows } ∧
    rows.map some = numbers.map p.row?
  portal : (h.fetch name direction count).2.portal? name = some { p with position }

theorem Reads.ofGives {numbers : List Nat} {position : Nat} (hportal : h.portal? name = some p)
    (hgives : p.Gives numbers position (p.fetch direction count)) :
    h.Reads name p direction count numbers position := by
  obtain ⟨h', hfetch, hmoved, -⟩ := fetch_open hportal direction count
  rw [hgives.portal] at hmoved
  exact ⟨⟨_, congrArg Prod.fst hfetch, hgives.rows⟩, by rw [hfetch]; exact hmoved⟩

/-- A fetch in two parts: the rows of the first and those of the second are the rows of one fetch of
both counts, and it leaves the host as the second part does. -/
def Joins (h : Host) (name : String) (direction : FetchDirection) (a b : Int64) : Prop :=
  ∃ layout first second last,
    (h.fetch name direction a).1 = .ok { layout, rows := first } ∧
    (h.fetch name direction a).2.fetch name direction b =
      (.ok { layout, rows := second }, last) ∧
    h.fetch name direction (a + b) = (.ok { layout, rows := first ++ second }, last)

/-- The host with another portal under a name. -/
def replacePortal (h : Host) (name : String) (p : Portal) : Host :=
  { h with portals := h.portals.map fun q => if q.1 = name then (q.1, p) else q }

theorem fetch_eq (hportal : h.portal? name = some p) (direction : FetchDirection) (count : Int64) :
    h.fetch name direction count =
      (.ok { layout := p.rows.layout, rows := (p.fetch direction count).1 },
        h.replacePortal name (p.fetch direction count).2) := by
  unfold fetch
  rw [hportal]
  rfl

theorem replacePortal_replacePortal (h : Host) (name : String) (p q : Portal) :
    (h.replacePortal name p).replacePortal name q = h.replacePortal name q := by
  unfold replacePortal
  simp only [List.map_map]
  congr 1
  refine List.map_congr_left fun r _ => ?_
  show (if (if r.1 = name then (r.1, p) else r).1 = name then _ else _) = _
  split <;> simp_all

theorem portal_replacePortal (hportal : h.portal? name = some p) (q : Portal) :
    (h.replacePortal name q).portal? name = some q := by
  have hmoved := lookup_map_key name (fun _ => q) name h.portals
  rw [if_pos rfl, show h.portals.lookup name = some p from hportal] at hmoved
  exact hmoved

/-- Two fetches from a cursor join if they do as fetches of its portal. -/
theorem joins_of_fetch (hportal : h.portal? name = some p) {a b : Int64}
    (hadd : p.fetch direction (a + b) =
      ((p.fetch direction a).1 ++ ((p.fetch direction a).2.fetch direction b).1,
        ((p.fetch direction a).2.fetch direction b).2)) : h.Joins name direction a b := by
  have hfirst := fetch_eq hportal direction a
  have hsecond := fetch_eq (portal_replacePortal hportal (p.fetch direction a).2) direction b
  have hmoved : (h.fetch name direction a).2 = h.replacePortal name (p.fetch direction a).2 :=
    congrArg Prod.snd hfirst
  -- the second fetch replaces what the first one has put there
  rw [replacePortal_replacePortal, ← hmoved, p.fetch_rows direction a] at hsecond
  refine ⟨_, _, _, _, congrArg Prod.fst hfirst, hsecond, ?_⟩
  rw [fetch_eq hportal, hadd]

/-- What a cursor does when rows are fetched from it. -/
structure Positioning (h : Host) (name : String) (p : Portal) : Prop where
  /-- It stands on a row, before the first or after the last. -/
  inside : p.position ≤ p.total + 1
  /-- A count of rows forwards gives the next rows, and leaves the cursor on the last of them, or
  after the last row of all if there were not so many. -/
  forward : ∀ count : Int64, 0 ≤ count → h.Reads name p .forward count
    (List.Ico (p.position + 1) (min (p.position + count.toInt.toNat) p.total + 1))
    (min (p.position + count.toInt.toNat) (p.total + 1))
  /-- A count of rows backwards gives the rows before, nearest first. -/
  backward : ∀ count : Int64, 0 ≤ count → h.Reads name p .backward count
    (List.Ico (max (p.position - count.toInt.toNat) 1) p.position).reverse
    (p.position - count.toInt.toNat)
  /-- A negative count of rows is none. -/
  negative : ∀ count : Int64, count < 0 →
    h.Reads name p .forward count [] p.position ∧ h.Reads name p .backward count [] p.position
  /-- The number of a row counts from the end if it is negative. -/
  absolute : ∀ count : Int64,
    let target : Int := if count < 0 then p.total + 1 + count.toInt else count.toInt
    h.Reads name p .absolute count (p.within target) (p.clamp target)
  /-- A distance is from the current row. -/
  relative : ∀ count : Int64, (p.position : Int) + count.toInt < 2 ^ 63 →
    let target : Int := p.position + count.toInt
    h.Reads name p .relative count (p.within target) (p.clamp target)
  /-- To move is to fetch without rows. -/
  move : ∀ direction count,
    h.moveCursor name direction count = (.ok (), (h.fetch name direction count).2)
  /-- Two fetches in one direction are one fetch of both counts. -/
  joins : ∀ a b : Int64, 0 ≤ a → 0 ≤ b → a.toInt + b.toInt < 2 ^ 63 →
    h.Joins name .forward a b ∧ h.Joins name .backward a b
  /-- The cursor stands where a cursor can stand afterwards, with the same rows. All other cursors,
  the tables and the rest of the host are as before. -/
  after : ∀ direction count, let h' := (h.fetch name direction count).2
    (∃ position, h'.portal? name = some { p with position } ∧ position ≤ p.total + 1) ∧
      (∀ other, other ≠ name → h'.portal? other = h.portal? other) ∧
      h'.tables = h.tables ∧ { h' with portals := h.portals } = h
  /-- As long as it is open, no operation changes its rows. -/
  rows : ∀ op q, h.opens? op ≠ some name → (h.perform op).portal? name = some q → q.rows = p.rows

theorem positioning_of_inside (hin : h.Inside) (hportal : h.portal? name = some p) :
    h.Positioning name p := by
  have hinside := hin name p hportal
  exact {
    inside := hinside
    forward := fun count _ => .ofGives hportal (Portal.gives_forward hinside _)
    backward := fun count _ => .ofGives hportal (Portal.gives_backward hinside _)
    negative := by
      intro count hneg
      have hforward := Portal.fetch_of_neg (p := p) (.inl rfl) hneg
      have hbackward := Portal.fetch_of_neg (p := p) (.inr rfl) hneg
      exact ⟨.ofGives hportal (hforward ▸ ⟨rfl, rfl⟩), .ofGives hportal (hbackward ▸ ⟨rfl, rfl⟩)⟩
    absolute := fun count => .ofGives hportal (Portal.gives_seek p _)
    relative := by
      intro count hsum
      rw [← Portal.relativeTarget_eq hsum]
      exact .ofGives hportal (Portal.gives_seek p _)
    move := by
      intro direction count
      unfold moveCursor
      rw [fetch_eq hportal]
      rfl
    joins := fun a b ha hb hsum =>
      ⟨joins_of_fetch hportal (Portal.fetch_add hinside (.inl rfl) ha hb hsum),
        joins_of_fetch hportal (Portal.fetch_add hinside (.inr rfl) ha hb hsum)⟩
    after := by
      intro direction count
      refine ⟨?_, fun other hother => ?_, ?_, ?_⟩
      · refine ⟨_, ?_, p.position_fetch_le hinside direction count⟩
        rw [portal_fetch, if_pos rfl, hportal, ← p.fetch_rows direction count]
        rfl
      · rw [portal_fetch, if_neg hother]
      · rw [fetch_eq hportal]
        rfl
      · rw [fetch_eq hportal]
        rfl
    rows := by
      intro op q hopens hq
      -- a portal that stays is another one only if it was fetched from
      obtain ⟨before, hbefore, hstayed⟩ := portal_stayed hopens hq
      cases hportal.symm.trans hbefore
      rcases hstayed with rfl | ⟨direction, count, rfl⟩
      · rfl
      · exact p.fetch_rows direction count }

/-- Whatever a new host was told to do, its open cursors obey the laws of positions. -/
theorem positioning_performAll {ops : List HostOperation}
    (hopen : (new.performAll ops).portal? name = some p) :
    (new.performAll ops).Positioning name p :=
  positioning_of_inside (inside_performAll ops) hopen

/-- A new host with a table of two rows, and a cursor on the first of them. -/
def reading : List HostOperation :=
  [.defineTable "items" [{ name := "id", typeId := Scalar.int4.id }],
    .defineStatement "sel" { kind := .select, action := .selectAll "items" },
    .insertRow "items" [some (.int4 1)], .insertRow "items" [some (.int4 2)],
    .openCursor "sel" [] (some "c") false, .fetch "c" .forward 1]

theorem positioning_performAll_reading :
    ∃ p, (new.performAll reading).portal? "c" = some p ∧ p.position = 1 ∧ p.total = 2 ∧
      (new.performAll reading).Positioning "c" p :=
  ⟨_, rfl, rfl, rfl, positioning_performAll rfl⟩

end Host

end StoredRoutine
