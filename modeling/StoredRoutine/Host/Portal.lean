import StoredRoutine.Host.Statement

/-!
# `StoredRoutine.Host.Portal`: open cursors

A portal holds the rows that its statement returned when it was opened, and a position from 0,
before the first row, to one more than the number of rows, after the last. Fetching moves the
position, also when no row is returned. Targets of absolute and relative fetches are computed in
words of sixty-four bits.
-/

set_option autoImplicit false

namespace StoredRoutine

/-- How the count of a fetch is meant. -/
inductive FetchDirection where
  /-- The next rows. -/
  | forward
  /-- The rows before, nearest first. -/
  | backward
  /-- The row with that number, counted from the end when negative. -/
  | absolute
  /-- The row that far from the current one. -/
  | relative
  deriving Repr, DecidableEq

/-- An open cursor. -/
structure Portal where
  rows : RowSet
  /-- The number of the current row; 0 is before the first. -/
  position : Nat

namespace Portal

/-- The number of rows. -/
def total (p : Portal) : Nat := p.rows.rows.length

/-- The rows after the position, at most `count`, and the new position. -/
def forward (p : Portal) (count : Nat) : List Row × Portal :=
  if count = 0 then ([], p)
  else
    let rows := (p.rows.rows.drop p.position).take count
    let position :=
      if p.total < p.position + count then p.total + 1 else p.position + count
    (rows, { p with position })

/-- The rows before the position, nearest first, at most `count`, and the new position. -/
def backward (p : Portal) (count : Nat) : List Row × Portal :=
  if count = 0 then ([], p)
  else
    let rows := ((p.rows.rows.take (p.position - 1)).reverse).take count
    (rows, { p with position := p.position - count })

/-- The row with the given number, if there is one, and the position there, within the ends. -/
def seek (p : Portal) (target : Int) : List Row × Portal :=
  let rows := if 1 ≤ target then (p.rows.rows[target.toNat - 1]?).toList else []
  let position := if target < 0 then 0 else min target.toNat (p.total + 1)
  (rows, { p with position })

/-- The number of the row that a count asks for. -/
def absoluteTarget (p : Portal) (count : Int64) : Int :=
  if count < 0 then (p.total : Int) + 1 + count.toInt else count.toInt

/-- The number of the row that lies `count` from the current one, in words. -/
def relativeTarget (p : Portal) (count : Int64) : Int := (Int64.ofNat p.position + count).toInt

/-- Fetches rows and moves. A negative count of rows is none. -/
def fetch (p : Portal) (direction : FetchDirection) (count : Int64) : List Row × Portal :=
  match direction with
  | .forward => p.forward count.toInt.toNat
  | .backward => p.backward count.toInt.toNat
  | .absolute => p.seek (p.absoluteTarget count)
  | .relative => p.seek (p.relativeTarget count)

end Portal

end StoredRoutine
