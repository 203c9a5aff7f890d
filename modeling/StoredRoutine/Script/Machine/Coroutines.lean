import StoredRoutine.Script.Machine.Basic

/-!
# `StoredRoutine.Script.Machine.Coroutines`: errors and coroutines

What is raised goes to the innermost protected call of the coroutine in progress, and ends the
coroutine if there is none in it. Coroutines yield to whoever resumed them, which must not be a
service. While a function of the library or a service waits for a call that it has made itself, the
coroutine cannot be left by yielding.
-/

set_option autoImplicit false

namespace StoredRoutine.Script.Machine

/-- Goes back to a stack that waits for a coroutine. -/
def goBack (c : Control) (r : Resumption) (rest : List Resumption) (focus : Focus) : Control :=
  { c with
    callers := r.callers
    thread := r.thread
    outerLevel := r.outerLevel
    level := r.level
    resumptions := rest
    focus }

/-- The values that a resumption answers with. -/
def answerOf (r : Resumption) (values : List Value) : Focus :=
  .give (if r.wraps then values else .bool true :: values)

/-- The error of a coroutine, for whoever resumed it. -/
def errorOf (r : Resumption) (error : Value) : Focus :=
  if r.wraps then
    match error with
    | .string b =>
      let place := (r.callers.head?).elim [] Caller.place
      .raise (.string (Text.bytesOfChars place ++ b))
    | e => .raise e
  else .give [.bool false, error]

/-- The stack that waits for a coroutine which is resumed now. -/
def resumptionOf (c : Control) (wraps : Bool) : Resumption :=
  { callers := c.callers, thread := c.thread, wraps, outerLevel := c.outerLevel, level := c.level }

/-- The control in a coroutine that is resumed. -/
def enterThread (c : Control) (t : ThreadId) (wraps : Bool) (callers : List Caller)
    (focus : Focus) : Control :=
  let r := resumptionOf c wraps
  { c with
    callers
    thread := some t
    resumptions := r :: c.resumptions
    outerLevel := c.outerLevel + c.level + 1
    level := 0
    focus }

/-- Where the function of a coroutine is on its stack. -/
def threadPosition : Nat := 1

/-- What a coroutine starts with: its function, unless calls are nested too deep. -/
def startOf (c : Control) (body : Value) (args : List Value) : Focus :=
  if maxLevel ≤ c.outerLevel + c.level + 1 then .raise (.ofText "C stack overflow")
  else .call threadPosition body args

/-- Resumes a coroutine. -/
def resume (h : Heap) (c : Control) (t : ThreadId) (args : List Value) (wraps : Bool) : Step :=
  let refuse (text : String) : Step :=
    .next h (c.withFocus (errorOf (resumptionOf c wraps) (.ofText text)))
  match h.thread t with
  | .active => refuse "cannot resume non-suspended coroutine"
  | .dead => refuse "cannot resume dead coroutine"
  | .fresh body => .next (h.setThread t .active) (enterThread c t wraps [] (startOf c body args))
  | .waiting callers => .next (h.setThread t .active) (enterThread c t wraps callers (.give args))

/-- Yields. -/
def yieldValues (h : Heap) (c : Control) (values : List Value) : Step :=
  let refuse (text : String) : Step := .next h (c.withFocus (.raise (.ofText text)))
  match c.thread with
  | none =>
    if c.within.isSome then refuse "attempt to yield across a C-call boundary"
    else refuse "attempt to yield from outside a coroutine"
  | some t =>
    if !c.canYield then refuse "attempt to yield across a C-call boundary"
    else
      let h := h.setThread t (.waiting c.callers)
      match c.resumptions with
      | [] => .ended (.yielded values) h
      | r :: rest => .next h (goBack c r rest (answerOf r values))

/-- The function at the bottom of a stack has returned. -/
def endStack (h : Heap) (c : Control) (values : List Value) : Step :=
  match c.thread with
  | none => .ended (.finished values) h
  | some t =>
    let h := h.setThread t .dead
    match c.resumptions with
    | [] => .ended (.finished values) h
    | r :: rest => .next h (goBack c r rest (answerOf r values))

/-- The innermost protected call: how deep it is nested, and what is around it. -/
def catcher? : List Caller → Option (Nat × List Caller)
  | [] => none
  | .native .guarded _ level :: rest => some (level, rest)
  | _ :: rest => catcher? rest

/-- Raises an error. A coroutine that could yield where the error is caught starts again to count
how deep calls are nested. -/
def raise (h : Heap) (c : Control) (error : Value) : Step :=
  match catcher? c.callers with
  | some (level, callers) =>
    let c := { c with callers, focus := .give [.bool false, error] }
    .next h { c with level := if c.canYield then 0 else level }
  | none =>
    match c.thread with
    | none => .ended (.failed error) h
    | some t =>
      let h := h.setThread t .dead
      match c.resumptions with
      | [] => .ended (.failed error) h
      | r :: rest => .next h (goBack c r rest (errorOf r error))

/-- What a coroutine is doing, in a word. -/
def statusOf (h : Heap) (c : Control) (t : ThreadId) : String :=
  match h.thread t with
  | .fresh _ => "suspended"
  | .waiting _ => "suspended"
  | .dead => "dead"
  | .active => if c.running = some t then "running" else "normal"

end StoredRoutine.Script.Machine
