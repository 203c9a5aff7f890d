import StoredRoutine.Script.Library.Arguments

/-!
# `StoredRoutine.Script.Library.Lists`: functions on the numbered values of tables

The values at `1, 2, …` of a table can be joined, moved up and down, and spread. Where the numbered
values end is the length of the table; a range that is given goes where it says, also beyond that
end.
-/

set_option autoImplicit false

namespace StoredRoutine.Script.Library

/-- The greatest number of values that are put side by side. -/
def maxUnpacked : Int := 1000000

/-- The values of a table between two numbers, both included. -/
def items (h : Heap) (id : TableId) (first last : Int64) : List (Int64 × Value) :=
  (List.range (last.toInt - first.toInt + 1).toNat).map fun i =>
    let n := first + Int64.ofNat i
    (n, h.rawGet id (.ofInt n))

/-- The length of a table, as a word. -/
def lengthOf (h : Heap) (id : TableId) : Int64 × Heap :=
  let (n, h) := h.length id
  (Int64.ofNat n, h)

/-- The strings at so many numbers of a table, from the given one on, behind those found so far,
which are in reverse. -/
def strings (h : Heap) (id : TableId) : Nat → Int64 → List ByteArray → Answer (List ByteArray)
  | 0, _, found => .ok found.reverse
  | count + 1, n, found =>
    match (h.rawGet id (.ofInt n)).stringForm? with
    | some b => strings h id count (n + 1) (b :: found)
    | none => .error (.message s!"invalid value (at index {n.toInt}) in table for 'concat'")

/-- Joins the strings and numbers of a table, with a separator between. -/
def concat (h : Heap) (args : List Value) : Answer (List Value × Heap) := do
  let id ← table args 0
  let (length, h) := lengthOf h id
  let sep ← stringOr args 1 ByteArray.empty
  let first ← wholeOr args 2 1
  let last ← wholeOr args 3 length
  match ← strings h id (last.toInt - first.toInt + 1).toNat first [] with
  | [] => return ([.string ByteArray.empty], h)
  | p :: rest => return ([.string (rest.foldl (fun acc q => acc ++ sep ++ q) p)], h)

/-- Puts a value into a table, at its end or at a number from which on the others move up. -/
def insert (h : Heap) (args : List Value) : Answer (List Value × Heap) := do
  let id ← table args 0
  let (length, h) := lengthOf h id
  if args.length = 2 then return ([], h.rawSet id (.ofInt (length + 1)) (argument args 1))
  else if args.length = 3 then
    let place ← whole args 1
    if place < 1 ∨ length + 1 < place then throw (.argument 2 "position out of bounds")
    else
      let moved := (items h id place length).reverse
      let h := moved.foldl (fun h e => h.rawSet id (.ofInt (e.1 + 1)) e.2) h
      return ([], h.rawSet id (.ofInt place) (argument args 2))
  else throw (.message "wrong number of arguments to 'insert'")

/-- Takes a value out of a table, at its end or at a number behind which the others move down. -/
def remove (h : Heap) (args : List Value) : Answer (List Value × Heap) := do
  let id ← table args 0
  let (length, h) := lengthOf h id
  let place ← wholeOr args 1 length
  let inRange := (1 ≤ place ∧ place ≤ length + 1) ∨ (length = 0 ∧ place = 0)
  if 2 ≤ args.length ∧ ¬(length + 1 = place ∨ inRange) then
    throw (.argument 2 "position out of bounds")
  else
    let value := h.rawGet id (.ofInt place)
    let moved := items h id (place + 1) length
    let h := moved.foldl (fun h e => h.rawSet id (.ofInt (e.1 - 1)) e.2) h
    return ([value], h.rawSet id (.ofInt (max place length)) .nil)

/-- The arguments as a table, with their number as a field. -/
def pack (h : Heap) (args : List Value) : List Value × Heap :=
  let t := (Table.withRoom args.length 1).fill 0 args
  let (id, h) := h.newTable (t.setKey (.ofText "n") (.ofNat args.length))
  ([.table id], h)

/-- The values of a table side by side. -/
def unpack (h : Heap) (args : List Value) : Answer (List Value × Heap) := do
  let id ← table args 0
  let (length, h) := lengthOf h id
  let first ← wholeOr args 1 1
  let last ← wholeOr args 2 length
  if maxUnpacked ≤ last.toInt - first.toInt then throw (.message "too many results to unpack")
  else return ((items h id first last).map (·.2), h)

end StoredRoutine.Script.Library
