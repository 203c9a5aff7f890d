import StoredRoutine.Catalog.Entry
import StoredRoutine.Failure

/-!
# `StoredRoutine.Catalog.Descriptor`: the resolved view of a type

A `TypeDescriptor` is a catalog entry with the data of its kind and no other. Resolving fails only
for a domain that names no underlying type. Two checks say which types a routine may take and
return.
-/

set_option autoImplicit false

namespace StoredRoutine

/-- The kind of a type, with the data of that kind. -/
inductive TypeKind where
  | base
  /-- Values are those of the underlying type. -/
  | domain (base : TypeId) (typeMod : Int32)
  | enum (labels : List String)
  | array (element : TypeId)
  | composite (layout : RowLayout)
  | pseudo
  deriving Repr, DecidableEq

/-- The resolved description of a type. -/
structure TypeDescriptor where
  id : TypeId
  name : String
  kind : TypeKind
  len : Int16
  byValue : Bool
  align : Alignment
  deriving Repr, DecidableEq

namespace TypeDescriptor

/-- Whether values are arrays. -/
def isArray (d : TypeDescriptor) : Bool :=
  match d.kind with
  | .array _ => true
  | _ => false

/-- Whether values are rows; the anonymous record counts. -/
def isRow (d : TypeDescriptor) : Bool :=
  match d.kind with
  | .composite _ => true
  | _ => d.id == TypeId.record

/-- Refuses types a routine cannot take: the pseudo-types, except the anonymous record. -/
def checkArgument (d : TypeDescriptor) : Outcome Unit :=
  if d.kind = .pseudo ∧ d.id ≠ TypeId.record then
    .error (.conversion s!"functions cannot take type '{d.name}'")
  else .ok ()

/-- Refuses types a routine cannot return: the pseudo-types, except void, trigger and the anonymous
record. -/
def checkResult (d : TypeDescriptor) : Outcome Unit :=
  if d.kind = .pseudo ∧ d.id ≠ TypeId.void ∧ d.id ≠ TypeId.trigger ∧ d.id ≠ TypeId.record then
    .error (.conversion s!"functions cannot return type '{d.name}'")
  else .ok ()

end TypeDescriptor

namespace Catalog

/-- The kind of an entry. A base type of variable length with an element is an array type. -/
def Entry.kind (e : Entry) : Outcome TypeKind :=
  match e.typeClass with
  | .base =>
    match e.element with
    | some element => .ok (if e.len = -1 then .array element else .base)
    | none => .ok .base
  | .domain =>
    match e.base with
    | some base => .ok (.domain base e.baseTypeMod)
    | none => .error (.conversion s!"domain '{e.name}' has no underlying type")
  | .enum => .ok (.enum e.labels)
  | .composite => .ok (.composite ⟨e.id, e.attributes⟩)
  | .pseudo => .ok .pseudo

/-- The descriptor of an entry. -/
def Entry.describe (e : Entry) : Outcome TypeDescriptor :=
  e.kind.map fun kind =>
    { id := e.id, name := e.name, kind, len := e.len, byValue := e.byValue, align := e.align }

end Catalog

end StoredRoutine
