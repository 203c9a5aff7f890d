import StoredRoutine.Engine.SetCall

/-!
# `StoredRoutine.Engine.Transaction`: the end of a transaction

The end of a transaction runs all cleanups, the newest first: cursors count as closed, and calls
of set-returning routines that wait are dropped. Nothing is registered meanwhile, so the entries
that there are at the start are all that run.
-/

set_option autoImplicit false

namespace StoredRoutine.Engine

/-- Does what a cleanup entry says. -/
def clean (e : Engine) : CleanupAction → Engine
  | .closeCursor id => e.modifyObject id (Object.mapCursor fun c => { c with closed := true })
  | .dropExecution id => e.dropExecution id

/-- Runs and removes all cleanup entries, and counts them. -/
def drain (e : Engine) : Nat × Engine :=
  let entries := e.cleanups.entries
  let e := { e with cleanups := { e.cleanups with entries := [] } }
  (entries.length, entries.foldl (fun e entry => e.clean entry.2) e)

/-- Tells the engine of a transaction. Answers how many cleanups have run. -/
def onTransaction (e : Engine) (event : TransactionEvent) : Nat × Engine :=
  if event.drains then e.drain else (0, e)

end StoredRoutine.Engine
