import StoredRoutine.Engine.Arguments
import StoredRoutine.Engine.Protected
import StoredRoutine.Engine.Queries

/-!
# `StoredRoutine.Engine.Serve`: answering scripts

Every service converts its arguments and then does its work. The functions of objects take their
object as the first argument; called on anything else they fail. A message consists of the texts of
its parts, which the function that is the global `tostring` makes.
-/

set_option autoImplicit false

namespace StoredRoutine

open Script (Announcer Value)

/-- The severity of a message, by the function that sends it. -/
def Script.Announcer.level : Announcer → NoticeLevel
  | .log => .debug
  | .warning => .warn
  | _ => .info

namespace Serving

/-- Sends a message. -/
def announce (call : Caller) (a : Announcer) (args : List Value) : Serving Unit := do
  let toText := (← get).heap.global "tostring"
  if !toText.isFunction then throw mismatch
  let parts ← args.mapM fun v => do
    let results ← runUnprotected call toText [v]
    return Text.display (← ofOutcome (Arguments.bytes (results.headD .nil)))
  modify fun e => { e with host := e.host.notice a.level ("\t".intercalate parts) }

end Serving

end StoredRoutine

namespace StoredRoutine.Serving

open Script (ObjectId ObjectKind Service Value)
open Arguments (nth text optional whole flag table limit)

/-- The failure for a global that a script may not set. -/
def globalsAreReadOnly (name : String) : Failure :=
  .runtime { message := s!"attempt to set global var '{name}', use setshared" }

/-- The object of a kind that a method is called on, and the further arguments. -/
def ownArguments (kind : ObjectKind) (args : List Value) : Serving (ObjectId × List Value) :=
  match args with
  | .object k id :: rest => if k = kind then pure (id, rest) else throw mismatch
  | _ => throw mismatch

/-- A position and whether it is relative. -/
def position (args : List Value) : Outcome (FetchDirection × Int64) := do
  return (positionDirection (flag (nth args 1)), ← whole (nth args 0))

/-- Answers a method of a plan. -/
def servePlan (s : Service) (args : List Value) : Serving (List Value) := do
  let (id, rest) ← ownArguments .plan args
  match s with
  | .planExecute =>
    let given ← ofOutcome (optional table (nth rest 0))
    let count ← ofOutcome (limit (nth rest 2))
    let p ← planOf id
    let params ← bindParams p given
    return [← execute p.sql params (flag (nth rest 1)) count]
  | .planCursor =>
    let given ← ofOutcome (optional table (nth rest 0))
    let name ← ofOutcome (optional text (nth rest 2))
    let p ← planOf id
    let params ← bindParams p given
    return [← newCursor (← openPortal p.sql params name (flag (nth rest 1)))]
  | .planRows =>
    let given ← ofOutcome (optional table (nth rest 0))
    let p ← planOf id
    let params ← bindParams p given
    return [← newIterator (← openPortal p.sql params none true)]
  | .planSave =>
    savePlan id
    return [.bool true]
  | _ => return [.bool (← planOf id).saved]

/-- Answers a method of a cursor. -/
def serveCursor (s : Service) (args : List Value) : Serving (List Value) := do
  let (id, rest) ← ownArguments .cursor args
  match s with
  | .cursorFetch =>
    let count ← ofOutcome (optional whole (nth rest 0))
    return [← fetchRows id .forward (count.getD Int64.maxValue)]
  | .cursorMove =>
    let count ← ofOutcome (optional whole (nth rest 0))
    moveCursor id .forward (count.getD 0)
    return []
  | .cursorFetchAt =>
    let (direction, n) ← ofOutcome (position rest)
    return [← fetchRows id direction n]
  | .cursorMoveTo =>
    let (direction, n) ← ofOutcome (position rest)
    moveCursor id direction n
    return []
  | _ =>
    closeCursor id
    return []

/-- Answers a service. -/
def serve (call : Caller) (s : Service) (args : List Value) : Serving (List Value) := do
  match s with
  | .announce a =>
    announce call a args
    return []
  | .setShared =>
    let name ← ofOutcome (Arguments.bytes (nth args 0))
    modify fun e =>
      { e with heap := e.heap.rawSet e.heap.globals (.string name) (nth args 1) }
    return []
  | .denyGlobal =>
    let name ← ofOutcome (Arguments.bytes (nth args 1))
    throw (globalsAreReadOnly (Text.display name))
  | .protectedCall _ => protectedCall call args
  | .execute =>
    let sql ← ofOutcome (text (nth args 0))
    let count ← ofOutcome (limit (nth args 2))
    return [← execute sql [] (flag (nth args 1)) count]
  | .openRows =>
    let sql ← ofOutcome (text (nth args 0))
    return [← newIterator (← openPortal sql [] none true)]
  | .findCursor =>
    let name ← ofOutcome (text (nth args 0))
    return [← findCursor name]
  | .prepare =>
    let sql ← ofOutcome (text (nth args 0))
    let types ← ofOutcome (optional table (nth args 1))
    return [← newPlan sql types]
  | .nextRow id => return [← nextRow id]
  | .readField =>
    match args with
    | .object _ id :: rest => return [← readField id (nth rest 0)]
    | _ => throw mismatch
  | .writeField =>
    match args with
    | .object _ id :: rest =>
      writeField id (nth rest 0) (nth rest 1)
      return []
    | _ => throw mismatch
  | .countRows =>
    match args with
    | .object _ id :: _ => return [.ofNat (← countRows id)]
    | _ => throw mismatch
  | .objectText =>
    match args with
    | .object _ id :: _ => return [.ofText (← objectText id)]
    | _ => throw mismatch
  | .planExecute | .planCursor | .planRows | .planSave | .planIsSaved => servePlan s args
  | .cursorFetch | .cursorMove | .cursorFetchAt | .cursorMoveTo | .cursorClose => serveCursor s args

end StoredRoutine.Serving
