import StoredRoutine.Script.Code.Operand

/-!
# `StoredRoutine.Script.Code.Assignment`: several values for several targets

The values of a list are in registers one after the other, but the last one, which may have any
number of values. When a variable is assigned to, targets before it that refer to the variable go on
with a copy.
-/

set_option autoImplicit false

namespace StoredRoutine.Script.Drafting

/-- The values of a list of expressions: how many expressions there are, and the last one. -/
structure Values where
  count : Nat
  last : Operand

namespace Values

/-- No values. -/
def none : Values := ⟨0, { held := .nothing }⟩

/-- Whether the last expression may have any number of values. -/
def isOpen (v : Values) : Bool := v.last.isOpen

end Values

/-- Asks an open expression for so many values; nothing asks for all there are. Further arguments
come into the next register. -/
def setCount (o : Operand) (count : Option Nat) : Drafting Unit :=
  match o.held with
  | .call position _ =>
    rewrite position fun
      | .call first args _ => .call first args count
      | i => i
  | .varargs position => do
    let dest ← next
    rewrite position fun _ => .varargs dest count
  | _ => pure ()

/-- Brings as many values into registers as there are targets. -/
def adjust (targets : Nat) (v : Values) : Drafting Unit := do
  if v.isOpen then
    setCount v.last (some (targets + 1 - v.count))
  else
    if v.count ≠ 0 then
      let _ ← toNext v.last
    if v.count < targets then
      let _ ← emit 0 (.loadNils (← current).used (targets - v.count))
  if v.count < targets then reserve (targets - v.count)
  else change fun d => { d with used := d.used - (v.count - targets) }

/-- Brings all values into registers. Answers how many there are, or nothing if the last expression
may have any number of values. -/
def spread (v : Values) : Drafting (Option Nat) := do
  if v.isOpen then
    setCount v.last none
    return none
  else
    if v.count ≠ 0 then
      let _ ← toNext v.last
    return some v.count

/-- The target with a copy in the place of what is assigned to behind it. The flag is set if it
refers to that. -/
def AssignTarget.withCopy (assigned : AssignTarget) (copy : Place) (target : AssignTarget) :
    AssignTarget × Bool :=
  match target, assigned with
  | .field (.outer i) key, .outer j =>
    if i = j then (.field (.place copy) key, true) else (target, false)
  | .field (.place p) key, .variable q =>
    let inObject := p.register == q.register
    let inKey :=
      match key with
      | .place k => k.register == q.register
      | .constant _ => false
    (.field (.place (if inObject then copy else p)) (if inKey then .place copy else key),
      inObject || inKey)
  | _, _ => (target, false)

/-- Takes care of targets that refer to a variable which is assigned to behind them. -/
def keepCopies (targets : List AssignTarget) (assigned : AssignTarget) :
    Drafting (List AssignTarget) := do
  let copy : Place := ⟨(← current).used, false⟩
  let changed := targets.map (AssignTarget.withCopy assigned copy)
  if changed.any (·.2) then
    match assigned with
    | .variable p =>
      let _ ← emit 0 (.copy copy p)
      reserve 1
    | .outer i =>
      let _ ← emit 0 (.getOuter copy i)
      reserve 1
    | .field .. => pure ()
  return changed.map (·.1)

/-- Assigns values to targets, given from the last one on. The last target takes the last value
without a detour if there are as many values as targets; the others take theirs from registers. -/
def assignAll (line : Nat) (targets : List AssignTarget) (v : Values) : Drafting Unit := do
  let fromRegister (target : AssignTarget) : Drafting Unit := do
    let register := (← current).used - 1
    store line target { held := .place ⟨register, false⟩ }
  match targets with
  | [] => pure ()
  | last :: rest =>
    if v.count = targets.length then
      store line last (← oneValue v.last)
    else
      adjust targets.length v
      fromRegister last
    rest.forM fromRegister
where
  /-- The first value of an expression. -/
  oneValue (o : Operand) : Drafting Operand :=
    match o.held with
    | .call .. => settle o
    | .varargs _ => settle o
    | _ => pure o

end StoredRoutine.Script.Drafting
