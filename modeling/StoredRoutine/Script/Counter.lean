import StoredRoutine.Script.Heap

/-!
# `StoredRoutine.Script.Counter`: loops that count

A loop counts in words if its start and its step are words, whatever its limit is, and in doubles
otherwise. A loop in words knows the number of its rounds before the first one, so it cannot run
past the largest word. A limit that is no word is moved to the nearest word on the near side.
-/

set_option autoImplicit false

namespace StoredRoutine.Script

/-- A counting loop that has started a round. -/
inductive Counter where
  /-- A loop in words, with the number of rounds that are left after this one. -/
  | ints (here step : Int64) (left : UInt64)
  | floats (here step limit : Float)

namespace Counter

/-- The value of the variable in the round in progress. -/
def value : Counter → Value
  | .ints here .. => .ofInt here
  | .floats here .. => .number (.ofFloat here)

/-- The counter of the round after this one; nothing after the last. -/
def next? : Counter → Option Counter
  | .ints here step left => if left = 0 then none else some (.ints (here + step) step (left - 1))
  | .floats here step limit =>
    let here := here + step
    let goesOn := if 0 < step then here ≤ limit else limit ≤ here
    if goesOn then some (.floats here step limit) else none

/-! ### In registers -/

/-- What the second of the three registers of a loop holds: the rounds that are left, or the
limit. -/
def bound : Counter → Value
  | .ints _ _ left => .ofInt left.toInt64
  | .floats _ _ limit => .number (.ofFloat limit)

/-- What the third register of a loop holds. -/
def step : Counter → Value
  | .ints _ step _ => .ofInt step
  | .floats _ step _ => .number (.ofFloat step)

/-- The double of a register. -/
def floatOf : Value → Float
  | .number n => n.toFloat
  | _ => 0

/-- The counter that the registers of a loop hold. -/
def ofRegisters : Value → Value → Value → Counter
  | .number (.int here), .number (.int left), .number (.int step) =>
    .ints here step left.toUInt64
  | here, limit, step => .floats (floatOf here) (floatOf step) (floatOf limit)

/-! ### The first round -/

/-- The word to which a loop with a step of the given sign counts; nothing if it has no round on
account of its limit alone. -/
def wholeLimit? (up : Bool) : Number → Option Int64
  | .int n => some n
  | .nan _ => if up then none else some Int64.minValue
  | .float x =>
    match (if up then Number.floorOf? x else Number.ceilOf? x).bind Number.intOfWhole? with
    | some n => some n
    | none =>
      if 0 < x then (if up then some Int64.maxValue else none)
      else if up then none else some Int64.minValue

/-- The number of rounds after the first one. -/
def roundsAfter (start limit step : Int64) : UInt64 :=
  .ofNat
    (if 0 < step then ((limit.toInt - start.toInt) / step.toInt).toNat
    else ((start.toInt - limit.toInt) / (-step.toInt)).toNat)

/-- The message for a bound of a loop that is no number. -/
def wrongBound (h : Heap) (what : String) (v : Value) : String :=
  s!"bad 'for' {what} (number expected, got {h.typeLabel v})"

/-- The counter of the first round; nothing if there is none. -/
def start? (h : Heap) (start limit step : Value) : Except String (Option Counter) := do
  match start, step with
  | .number (.int a), .number (.int s) =>
    if s = 0 then throw "'for' step is zero"
    match limit.numberForm? with
    | none => throw (wrongBound h "limit" limit)
    | some l =>
      match wholeLimit? (decide (0 < s)) l with
      | none => return none
      | some b =>
        let runs := if 0 < s then a ≤ b else b ≤ a
        return if runs then some (.ints a s (roundsAfter a b s)) else none
  | start, step =>
    let float (what : String) (v : Value) : Except String Float :=
      v.numberForm?.elim (.error (wrongBound h what v)) fun n => .ok n.toFloat
    let b ← float "limit" limit
    let s ← float "step" step
    let a ← float "initial value" start
    if s == 0 then throw "'for' step is zero"
    let skipped := if 0 < s then b < a else a < b
    return if skipped then none else some (.floats a s b)

end Counter

end StoredRoutine.Script
