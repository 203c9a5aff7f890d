import StoredRoutine.Catalog.TypeCache
import StoredRoutine.Datum.Text
import StoredRoutine.Marshal.Document
import StoredRoutine.Marshal.Shape
import StoredRoutine.Options

/-!
# `StoredRoutine.Marshal.ToScript`: relational values as script values

The declared type decides, never the shape of the value alone. Domains convert as their underlying
type. Truth values, numbers, texts, bytes and documents have a script form of their own; every
other value becomes its text. An array becomes a nest of tables, a row a table keyed by column
name in which NULL columns are absent.
-/

set_option autoImplicit false

namespace StoredRoutine

/-- What conversions need to know of their surroundings. -/
structure Border where
  catalog : Catalog.Lookup
  /-- Whether a portal of the given name is open. -/
  hasPortal : String → Bool
  options : Options

namespace Marshal

/-- A value of a kind its type does not have. -/
def noScriptForm (d : Datum) (typeName : String) : Failure :=
  .conversion s!"cannot convert {d.kindName} value to script for type {typeName}"

/-- The script form of a value of a scalar type. A value of another kind, and a value of a type
without a form of its own, becomes its text. -/
def scalarToScript (b : Border) (type : Option Scalar) (d : Datum) : Outcome ScriptValue :=
  match type, d with
  | some .bool, .bool v => .ok (.bool v)
  | some .int2, .int2 v => .ok (.int v.toInt64)
  | some .int4, .int4 v => .ok (.int v.toInt64)
  | some .int8, .int8 v => .ok (.int v)
  | some .float4, .float4 v => .ok (.number v.toFloat)
  | some .float8, .float8 v => .ok (.number v)
  | some .text, .text s => .ok (.ofText s)
  | some .varchar, .text s => .ok (.ofText s)
  | some .bpchar, .text s => .ok (.ofText s)
  | some .bytea, .bytea bytes => .ok (.string bytes)
  | some .json, .json j => .ok (.ofJson j)
  | some .refcursor, .refcursor name => .ok (if b.hasPortal name then .cursor name else .nil)
  | _, d => d.toText.map .ofText

/-- The script form of a value that is neither an array nor a row of its type. -/
def plainToScript (b : Border) (type : TypeDescriptor) (d : Datum) : Outcome ScriptValue :=
  match type.kind with
  | .enum _ => d.toText.map .ofText
  | .base => scalarToScript b (Scalar.ofId? type.id) d
  | _ => .error (noScriptForm d type.name)

mutual

/-- The script form of a value of the given type. -/
def toScript (b : Border) : Datum → TypeId → Resolving ScriptValue
  | .array ⟨t, dims, elements⟩, id => do
    let (type, _) ← Resolving.resolveDomain b.catalog id (-1)
    match type.kind with
    | .array element =>
      if elements.isEmpty then pure (.table [])
      else
        let values ← elementsToScript b elements element
        pure (.table (nest dims values))
    | _ => liftExcept (plainToScript b type (.array ⟨t, dims, elements⟩))
  | .row ⟨layout, values⟩, id => do
    let (type, _) ← Resolving.resolveDomain b.catalog id (-1)
    if type.isRow then
      let entries ← columnsToScript b layout.attributes values []
      pure (.table entries)
    else liftExcept (plainToScript b type (.row ⟨layout, values⟩))
  | d, id => do
    let (type, _) ← Resolving.resolveDomain b.catalog id (-1)
    liftExcept (plainToScript b type d)

/-- The script forms of the elements of an array, in order. -/
def elementsToScript (b : Border) :
    List (Option Datum) → TypeId → Resolving (List (Option ScriptValue))
  | [], _ => pure []
  | none :: rest, id => do
    let values ← elementsToScript b rest id
    pure (none :: values)
  | some d :: rest, id => do
    let value ← toScript b d id
    let values ← elementsToScript b rest id
    pure (some value :: values)

/-- Enters the columns of a row into a table, under their names and without the NULL ones. Of
several columns with one name the last counts. -/
def columnsToScript (b : Border) :
    List Attribute → List (Option Datum) → ScriptTable → Resolving ScriptTable
  | a :: attributes, some d :: values, table => do
    let value ← toScript b d a.typeId
    columnsToScript b attributes values (table.insert (.text a.name) value)
  | _ :: attributes, none :: values, table => columnsToScript b attributes values table
  | _, _, table => pure table

end

/-- The script form of a value that may be NULL, which is nil. -/
def optionToScript (b : Border) (d : Option Datum) (id : TypeId) : Resolving ScriptValue :=
  match d with
  | none => pure .nil
  | some d => toScript b d id

end Marshal

end StoredRoutine
