import StoredRoutine.Catalog.Entry
import StoredRoutine.Routine.Identifier

/-!
# `StoredRoutine.Routine.Definition`: routines as the catalog describes them

The catalog row of a routine has an identity, its stamp, which every redefinition changes. Compiled
routines are kept as long as the stamp is the same.

The body of a routine is wrapped into a source that defines one local function and returns it. The
body starts on the first line, so that the lines in messages are those of the body. Arguments have
names in the body if all of them have a usable name of their own; otherwise the body takes them as
`...`.
-/

set_option autoImplicit false

namespace StoredRoutine

/-- The identity of a catalog row: the transaction that wrote it, and where it is stored. -/
structure RowStamp where
  transaction : UInt32
  block : UInt32
  offset : UInt16
  deriving Repr, DecidableEq

namespace RowStamp

/-- The text of a stamp. -/
def display (s : RowStamp) : String := s!"{s.transaction}@({s.block},{s.offset})"

/-- The stamp of the row that the given transaction writes: sixty-four rows go to a block. -/
def ofTransaction (transaction : UInt32) : RowStamp :=
  { transaction, block := transaction / 64, offset := (transaction % 64).toUInt16 + 1 }

end RowStamp

/-- A routine. -/
structure RoutineDefinition where
  id : TypeId
  name : String
  source : String
  /-- The names of the arguments; an empty one is unnamed. -/
  argNames : List String
  argTypes : List TypeId
  resultType : TypeId
  returnsSet : Bool
  stamp : RowStamp
  deriving Repr, DecidableEq

/-- A module that is evaluated when an engine starts, under a global name. -/
structure InitModule where
  name : String
  source : String
  deriving Repr, DecidableEq

end StoredRoutine

namespace StoredRoutine.RoutineDefinition

/-- The names of the parameters, or nothing when the arguments have to be taken as `...`. -/
def parameters? (d : RoutineDefinition) : Option (List String) :=
  if !d.argNames.isEmpty && d.argNames.all Identifier.isValid && decide d.argNames.Nodup then
    some d.argNames
  else none

/-- The source of the function. -/
def chunk (d : RoutineDefinition) : String :=
  let name := Identifier.sanitize d.name
  let parameters := d.parameters?.elim "..." (", ".intercalate ·)
  "local " ++ name ++ " " ++ name ++ " = function(" ++ parameters ++ ") " ++ d.source
    ++ "\nend return " ++ name

end StoredRoutine.RoutineDefinition
