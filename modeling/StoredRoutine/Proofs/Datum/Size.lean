import Mathlib.Data.List.Forall2
import StoredRoutine.Datum.Basic

/-!
# `StoredRoutine.Proofs.Datum.Size`: smaller arrays take less space

The stored size of an array is found by going through its elements, each behind the padding of the
one before. Leaving elements out or making them smaller does not make the array larger
(`storedSize_le`): the padding depends on what came before, but alignment is monotone.
-/

set_option autoImplicit false

namespace StoredRoutine

namespace Alignment

theorem le_align (a : Alignment) (n : Nat) : n ≤ a.align n := by
  cases a <;> simp only [align, bytes] <;> omega

theorem align_le_align (a : Alignment) {m n : Nat} (h : m ≤ n) : a.align m ≤ a.align n := by
  cases a <;> simp only [align, bytes] <;> omega

end Alignment

namespace ArrayOf

theorem elementSize_le_elementSize {m n : Nat} (h : m ≤ n) (len : Int16) :
    elementSize m len ≤ elementSize n len := by
  unfold elementSize
  split
  · exact Nat.le_refl _
  · split <;> omega

theorem overhead_le_overhead {ndims ndims' items items' : Nat} {nulls nulls' : Bool}
    (hdims : ndims' ≤ ndims) (hitems : items' ≤ items) (hnulls : nulls' = true → nulls = true) :
    overhead ndims' items' nulls' ≤ overhead ndims items nulls := by
  unfold overhead
  apply Alignment.align_le_align
  cases nulls' with
  | false =>
    simp only [Bool.false_eq_true, if_false]
    omega
  | true =>
    rw [hnulls rfl]
    simp only [if_true]
    omega

/-- The end of the data of elements that are stored from a place on. -/
def dataEnd (len : Int16) (align : Alignment) : Nat → List (Option Nat) → Nat
  | start, [] => start
  | start, none :: rest => dataEnd len align start rest
  | start, some n :: rest => dataEnd len align (align.align start + elementSize n len) rest

/-- The data of an array begins behind its header. -/
theorem storedSize_eq (ndims : Nat) (sizes : List (Option Nat)) (len : Int16) (align : Alignment) :
    storedSize ndims sizes len align =
      dataEnd len align (overhead ndims sizes.length (sizes.any Option.isNone)) sizes := by
  unfold storedSize
  generalize overhead ndims sizes.length (sizes.any Option.isNone) = start
  induction sizes generalizing start with
  | nil => rfl
  | cons e rest ih => cases e with
    | none => exact ih start
    | some n => exact ih _

theorem le_dataEnd (len : Int16) (align : Alignment) (start : Nat) (sizes : List (Option Nat)) :
    start ≤ dataEnd len align start sizes := by
  induction sizes generalizing start with
  | nil => exact Nat.le_refl start
  | cons e rest ih =>
    cases e with
    | none => exact ih start
    | some n => calc
        start ≤ align.align start := align.le_align start
        _ ≤ align.align start + elementSize n len := Nat.le_add_right _ _
        _ ≤ dataEnd len align start (some n :: rest) := ih _

/-- Fewer or smaller elements, stored from no later a place on, end no later. -/
theorem dataEnd_le (len : Int16) (align : Alignment) {sizes sizes' : List (Option Nat)}
    (h : List.SublistForall₂ (Option.Rel (· ≤ ·)) sizes' sizes) {start start' : Nat}
    (hstart : start' ≤ start) :
    dataEnd len align start' sizes' ≤ dataEnd len align start sizes := by
  induction h generalizing start start' with
  | nil => exact Nat.le_trans hstart (le_dataEnd len align start _)
  | cons hrel _ ih =>
    cases hrel with
    | none => exact ih hstart
    | some hsize =>
      exact ih (Nat.add_le_add (align.align_le_align hstart) (elementSize_le_elementSize hsize len))
  | @cons_right e rest' rest _ ih =>
    cases e with
    | none => exact ih hstart
    | some n => exact ih (Nat.le_trans hstart
        (Nat.le_trans (align.le_align start) (Nat.le_add_right _ _)))

/-- An array with fewer or smaller elements, and no more dimensions, takes no more space. -/
theorem storedSize_le {ndims ndims' : Nat} {sizes sizes' : List (Option Nat)}
    (hdims : ndims' ≤ ndims) (h : List.SublistForall₂ (Option.Rel (· ≤ ·)) sizes' sizes)
    (len : Int16) (align : Alignment) :
    storedSize ndims' sizes' len align ≤ storedSize ndims sizes len align := by
  have hlength : sizes'.length ≤ sizes.length := by
    obtain ⟨l, hl, hsub⟩ := List.sublistForall₂_iff.mp h
    rw [hl.length_eq]
    exact hsub.length_le
  have hnulls : sizes'.any Option.isNone = true → sizes.any Option.isNone = true := by
    clear hlength
    induction h with
    | nil => exact fun hfalse => nomatch hfalse
    | cons hrel _ ih =>
      intro hany
      rw [List.any_cons, Bool.or_eq_true] at hany ⊢
      rcases hany with hnone | hany
      · cases hrel with
        | none => exact Or.inl rfl
        | some _ => exact nomatch hnone
      · exact Or.inr (ih hany)
    | cons_right _ ih =>
      intro hany
      rw [List.any_cons, ih hany, Bool.or_true]
  rw [storedSize_eq, storedSize_eq]
  exact dataEnd_le len align h (overhead_le_overhead hdims hlength hnulls)

end ArrayOf

namespace Datum

/-- The sizes of a list of values are those of its members. -/
theorem dataSizes_eq_map (l : List (Option Datum)) : dataSizes l = l.map (·.map dataSize) := by
  induction l with
  | nil => simp only [dataSizes, List.map_nil]
  | cons d rest ih => cases d <;> simp only [dataSizes, List.map_cons, ih, Option.map]

/-- A row without values takes no more space than one with as many columns. -/
theorem rowSize_le {sizes sizes' : List (Option Nat)} (hlength : sizes'.length = sizes.length)
    (hnull : ∀ s ∈ sizes', s = none) : rowSize sizes' ≤ rowSize sizes := by
  have hgrows : ∀ (l : List (Option Nat)) (start : Nat),
      start ≤ l.foldl (fun total s => total + (s.map (· + 4)).getD 0) start := by
    intro l
    induction l with
    | nil => exact fun start => Nat.le_refl start
    | cons s rest ih => exact fun start => Nat.le_trans (Nat.le_add_right _ _) (ih _)
  have hempty : ∀ (l : List (Option Nat)) (start : Nat), (∀ s ∈ l, s = none) →
      l.foldl (fun total s => total + (s.map (· + 4)).getD 0) start = start := by
    intro l
    induction l with
    | nil => exact fun _ _ => rfl
    | cons s rest ih =>
      intro start hall
      rw [hall s List.mem_cons_self]
      exact ih start fun x hx => hall x (List.mem_cons_of_mem _ hx)
  unfold rowSize
  rw [hempty sizes' _ hnull, hlength]
  exact hgrows sizes _

end Datum

end StoredRoutine
