import StoredRoutine.Routine.Definition
import StoredRoutine.Script.Value

/-!
# `StoredRoutine.Routine.Compiled`: compiled routines, kept until they change

The cache keeps the function of a routine together with what the catalog said when it was
compiled. An entry counts as long as the stamp of the catalog row is the same. A routine that does
not compile any more leaves its old entry in place, which its stamp keeps from being used.
-/

set_option autoImplicit false

namespace StoredRoutine

/-- A routine with its function. -/
structure CompiledRoutine where
  name : String
  stamp : RowStamp
  argTypes : List TypeId
  resultType : TypeId
  returnsSet : Bool
  function : Script.Value

namespace CompiledRoutine

/-- The compiled form of a definition. -/
def ofDefinition (d : RoutineDefinition) (function : Script.Value) : CompiledRoutine :=
  { name := d.name, stamp := d.stamp, argTypes := d.argTypes, resultType := d.resultType,
    returnsSet := d.returnsSet, function }

/-- Whether the routine is a trigger function. -/
def isTrigger (r : CompiledRoutine) : Bool := r.resultType == TypeId.trigger

end CompiledRoutine

/-- The compiled routines, newest first, and how often one was compiled. -/
structure RoutineCache where
  entries : List (TypeId × CompiledRoutine) := []
  compiles : Nat := 0

namespace RoutineCache

/-- The number of routines kept. -/
def size (c : RoutineCache) : Nat := c.entries.length

/-- The entry of a routine, whether it still counts or not. -/
def find? (c : RoutineCache) (id : TypeId) : Option CompiledRoutine := c.entries.lookup id

/-- The entry of a routine, if it was compiled from the catalog row with the given stamp. -/
def current? (c : RoutineCache) (id : TypeId) (stamp : RowStamp) : Option CompiledRoutine :=
  (c.find? id).filter fun r => decide (r.stamp = stamp)

/-- Enters a routine that was just compiled, in the place of its old entry. -/
def enter (c : RoutineCache) (id : TypeId) (r : CompiledRoutine) : RoutineCache :=
  { entries := (id, r) :: c.entries.filter fun e => e.1 != id, compiles := c.compiles + 1 }

/-- Drops the entry of a routine. The flag says whether there was one. -/
def invalidate (c : RoutineCache) (id : TypeId) : Bool × RoutineCache :=
  ((c.find? id).isSome, { c with entries := c.entries.filter fun e => e.1 != id })

end RoutineCache

end StoredRoutine
