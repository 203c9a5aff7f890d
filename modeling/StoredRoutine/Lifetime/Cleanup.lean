/-!
# `StoredRoutine.Lifetime.Cleanup`: what to do when the transaction ends

The registry holds cleanup entries in the order of their registration. An entry is removed before
its action runs, and the newest entry runs first. The registry is generic in the actions.
-/

set_option autoImplicit false

namespace StoredRoutine

/-- Names a cleanup entry. -/
structure CleanupId where
  number : Nat
  deriving Repr, DecidableEq

/-- What happens to a transaction. -/
inductive TransactionEvent where
  | preCommit | commit | abort | prePrepare | prepare
  deriving Repr, DecidableEq

/-- Whether the event ends the transaction, so that the registry is drained. -/
def TransactionEvent.drains : TransactionEvent → Bool
  | .commit => true
  | .abort => true
  | .prepare => true
  | .preCommit => false
  | .prePrepare => false

/-- Cleanup entries, the newest first, and the number of the next one. -/
structure CleanupRegistry (α : Type) where
  entries : List (CleanupId × α) := []
  next : Nat := 0
  deriving Repr

namespace CleanupRegistry

variable {α : Type}

/-- Adds an entry. -/
def register (r : CleanupRegistry α) (action : α) : CleanupId × CleanupRegistry α :=
  (⟨r.next⟩, { entries := (⟨r.next⟩, action) :: r.entries, next := r.next + 1 })

/-- The names of the entries, the newest first. -/
def ids (r : CleanupRegistry α) : List CleanupId := r.entries.map (·.1)

/-- Whether an entry is registered. -/
def contains (r : CleanupRegistry α) (id : CleanupId) : Bool := r.entries.any fun e => e.1 == id

/-- Removes an entry; its action does not run. The flag says whether it was there. -/
def unregister (r : CleanupRegistry α) (id : CleanupId) : Bool × CleanupRegistry α :=
  (r.contains id, { r with entries := r.entries.eraseP fun e => e.1 == id })

/-- Removes the newest entry. -/
def pop? (r : CleanupRegistry α) : Option ((CleanupId × α) × CleanupRegistry α) :=
  match r.entries with
  | [] => none
  | e :: rest => some (e, { r with entries := rest })

/-- The number of entries. -/
def size (r : CleanupRegistry α) : Nat := r.entries.length

end CleanupRegistry

end StoredRoutine
