import StoredRoutine.ScriptValue

/-!
# `StoredRoutine.Marshal.Shape`: arrays as nested tables

An array is a nest of tables, one level for each dimension, keyed by the subscripts. Going out
(`nest`), NULL elements are absent. Coming back, `scan` finds the shape of a table: the bounds of
a dimension are the smallest and largest integer keys at its level, anywhere in the nest, and all
chains of integer keys that end in an element have the same length. `placements` then says which
value goes to which slot of the row-major order, and `scatter` puts them there.
-/

set_option autoImplicit false

namespace StoredRoutine.Marshal

/-! ### Out: from elements to tables -/

/-- The number of elements below one subscript of each dimension. -/
def strides : List ArrayDim → List Nat
  | [] => []
  | _ :: inner => (inner.map (·.len)).foldl (· * ·) 1 :: strides inner

/-- The subscript that lies `i` after the lower bound. -/
def subscript (d : ArrayDim) (i : Nat) : ScriptKey := .int (Int64.ofInt (d.lower.toInt + i))

/-- The entries of the innermost dimension; absent elements have none. -/
def leafEntries (d : ArrayDim) (elements : List (Option ScriptValue)) : ScriptTable :=
  elements.zipIdx.filterMap fun e => e.1.map fun v => (subscript d e.2, v)

/-- The nest of tables for the elements of an array. -/
def nest : List ArrayDim → List (Option ScriptValue) → ScriptTable
  | [], _ => []
  | [d], elements => leafEntries d (elements.take d.len)
  | d :: inner, elements =>
    let stride := (inner.map (·.len)).foldl (· * ·) 1
    (List.range d.len).map fun i =>
      (subscript d i, .table (nest inner ((elements.drop (i * stride)).take stride)))

/-! ### Back: the shape of a nest -/

/-- The smallest and largest key of each level that has one, outermost first. -/
abbrev Bounds : Type := List (Int × Int)

/-- Widens the bounds of a level so that they hold a key. -/
def Bounds.widen : Bounds → Nat → Int → Bounds
  | [], _, i => [(i, i)]
  | (lo, hi) :: rest, 0, i => (min lo i, max hi i) :: rest
  | b :: rest, level + 1, i => b :: widen rest level i

/-- The failure for chains of different length. -/
def unevenDepth : Failure :=
  .conversion "multidimensional arrays must have sub-arrays with matching dimensions"

/-- The failure for a nest that is too deep. -/
def tooManyDims (maxDims : Nat) : Failure :=
  .conversion s!"number of array dimensions exceeds the maximum allowed ({maxDims})"

/-- The failure for a subscript that does not fit thirty-two bits. -/
def subscriptRange (i : Int) : Failure := .conversion s!"array subscript {i} is out of range"

/-- Joins what is known of the depth below earlier keys with the depth below one more. -/
def joinDepth : Option Nat → Option Nat → Outcome (Option Nat)
  | none, below => .ok below
  | some a, none => .ok (some a)
  | some a, some b => if a = b then .ok (some a) else .error unevenDepth

mutual

/-- What one entry of level `level` adds: the depth of the chains that begin with it. When
`leafTables` is set a table is an element like any other. -/
def scanValue (maxDims : Nat) (leafTables : Bool) (level : Nat) (bounds : Bounds) :
    ScriptValue → Outcome (Option Nat × Bounds)
  | .table entries =>
    if leafTables then .ok (some 1, bounds)
    else
      (scanEntries maxDims leafTables (level + 1) none bounds entries).map fun r =>
        (r.1.map (· + 1), r.2)
  | _ => .ok (some 1, bounds)

/-- The depth of the chains in a table of level `level`, none when there is no chain, and the bounds
with its keys. -/
def scanEntries (maxDims : Nat) (leafTables : Bool) (level : Nat) (depth : Option Nat)
    (bounds : Bounds) : List (ScriptKey × ScriptValue) → Outcome (Option Nat × Bounds)
  | [] => .ok (depth, bounds)
  | (.text _, _) :: rest => scanEntries maxDims leafTables level depth bounds rest
  | (.int k, v) :: rest =>
    let i := k.toInt
    if maxDims ≤ level then .error (tooManyDims maxDims)
    else if i < -(2 ^ 31) ∨ 2 ^ 31 - 1 < i then .error (subscriptRange i)
    else
      match scanValue maxDims leafTables level (bounds.widen level i) v with
      | .error f => .error f
      | .ok (below, bounds) =>
        match joinDepth depth below with
        | .error f => .error f
        | .ok depth => scanEntries maxDims leafTables level depth bounds rest

end

/-- The dimension with the given bounds. -/
def dimOfBounds (b : Int × Int) : ArrayDim :=
  { len := (b.2 - b.1 + 1).toNat, lower := Int32.ofInt b.1 }

/-- The dimensions of a nest; there are none when no chain of keys leads to an element. -/
def scan (maxDims : Nat) (leafTables : Bool) (entries : ScriptTable) : Outcome (List ArrayDim) :=
  (scanEntries maxDims leafTables 0 none [] entries).map fun r =>
    match r.1 with
    | none => []
    | some depth => (r.2.take depth).map dimOfBounds

/-! ### Back: the elements of a nest -/

/-- The slot of every element of a nest, in the order of the keys. `base` is the slot reached by the
outer levels. -/
def placementsFrom : List ArrayDim → Nat → ScriptTable → List (Nat × ScriptValue)
  | [], _, _ => []
  | d :: inner, base, entries =>
    let stride := (inner.map (·.len)).foldl (· * ·) 1
    entries.flatMap fun e =>
      match e.1 with
      | .text _ => []
      | .int k =>
        let slot := base + (k.toInt - d.lower.toInt).toNat * stride
        if inner.isEmpty then [(slot, e.2)]
        else
          match e.2 with
          | .table sub => placementsFrom inner slot sub
          | _ => []

/-- The slot of every element of a nest. -/
def placements (dims : List ArrayDim) (entries : ScriptTable) : List (Nat × ScriptValue) :=
  placementsFrom dims 0 entries

/-- Puts values into their slots; the other slots are NULL. -/
def scatter {α : Type} (count : Nat) (placed : List (Nat × Option α)) : List (Option α) :=
  (placed.foldl (fun slots p => slots.setIfInBounds p.1 p.2) (Array.replicate count none)).toList

/-- The bytes that one slot takes in memory. -/
def slotBytes : Nat := 56

/-- The number of slots of an array, as long as it stays under the ceiling. -/
def slotCount? (maxAllocSize : Nat) (dims : List ArrayDim) : Option Nat :=
  dims.foldl
    (fun acc d => acc.bind fun n =>
      if n * d.len ≤ maxAllocSize / slotBytes then some (n * d.len) else none)
    (some 1)

/-- Every value that is placed is smaller than the nest it comes from. -/
theorem sizeOf_of_mem_placementsFrom {dims : List ArrayDim} {base : Nat} {entries : ScriptTable}
    {p : Nat × ScriptValue} (h : p ∈ placementsFrom dims base entries) :
    sizeOf p.2 < sizeOf entries := by
  induction dims generalizing base entries with
  | nil => simp [placementsFrom] at h
  | cons d inner ih =>
    simp only [placementsFrom, List.mem_flatMap] at h
    obtain ⟨⟨key, value⟩, hmem, hp⟩ := h
    have hlt := List.sizeOf_lt_of_mem hmem
    simp only [Prod.mk.sizeOf_spec] at hlt
    cases key with
    | text _ => simp at hp
    | int k =>
      simp only at hp
      split at hp
      · simp only [List.mem_singleton] at hp
        subst hp
        simp only
        omega
      · split at hp
        · rename_i sub
          have := ih hp
          simp only [ScriptValue.table.sizeOf_spec] at hlt
          omega
        · simp at hp

end StoredRoutine.Marshal
