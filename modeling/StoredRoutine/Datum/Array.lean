import StoredRoutine.Catalog.Entry
import StoredRoutine.Failure
import StoredRoutine.Instances

/-!
# `StoredRoutine.Datum.Array`: arrays of any dimension with lower bounds

An array has an element type, its dimensions from the outermost one, and its elements in row-major
order, where `none` is a NULL. The empty array has no dimensions. The module is generic in the
elements: an array is built from dimensions and elements (`ofDims`), from a list (`ofList`), or from
its dense form, the values that are present and a bitmap (`ofDense`), and read by subscript
(`offset?`, `get?`).
-/

set_option autoImplicit false

namespace StoredRoutine

/-- The extent of one dimension. -/
structure ArrayDim where
  len : Nat
  /-- The subscript of the first element. -/
  lower : Int32
  deriving Repr, DecidableEq

/-- The subscript of the last element, in the arithmetic of thirty-two bits. -/
def ArrayDim.upper (d : ArrayDim) : Int32 := d.lower + Int32.ofNat d.len - 1

/-- An array of elements of type `α`. -/
structure ArrayOf (α : Type) where
  elementType : TypeId
  dims : List ArrayDim
  /-- The elements in row-major order. -/
  elements : List (Option α)
  deriving Repr, DecidableEq

namespace ArrayOf

variable {α : Type}

/-- The failure for a count of elements no array can have. -/
def tooLarge : Failure := .size "array size exceeds the maximum allowed"

/-- The array without elements. -/
def empty (elementType : TypeId) : ArrayOf α := ⟨elementType, [], []⟩

/-- Builds an array. The dimensions have to describe as many elements as are given, and every
last subscript has to fit thirty-two bits. -/
def ofDims (elementType : TypeId) (dims : List ArrayDim) (elements : List (Option α)) :
    Outcome (ArrayOf α) :=
  -- The product is formed from the left and may not exceed sixty-four bits on the way.
  let count? := dims.foldl
    (fun acc d => acc.bind fun n => if n * d.len < 2 ^ 64 then some (n * d.len) else none) (some 1)
  match count? with
  | none => .error tooLarge
  | some count =>
    if dims = [] ∨ count = 0 then
      if elements.isEmpty then .ok (empty elementType)
      else .error (.conversion "empty array cannot carry elements")
    else if count ≠ elements.length then
      .error (.conversion
        s!"array dimensions describe {count} elements but {elements.length} were given")
    else if dims.any fun d => decide (d.lower.toInt + d.len - 1 > 2 ^ 31 - 1) then
      .error (.size "array upper bound is too large")
    else .ok ⟨elementType, dims, elements⟩

/-- The array of one dimension that starts at subscript 1. -/
def ofList (elementType : TypeId) (elements : List (Option α)) : ArrayOf α :=
  if elements.isEmpty then empty elementType
  else ⟨elementType, [⟨elements.length, 1⟩], elements⟩

/-! ### The dense form -/

/-- The bits of a byte, lowest first. -/
def byteBits (b : UInt8) : List Bool := (List.range 8).map fun i => b.toNat.testBit i

/-- The byte of at most eight bits, lowest first. -/
def byteOfBits (bits : List Bool) : UInt8 :=
  UInt8.ofNat (bits.foldr (fun bit acc => 2 * acc + bit.toNat) 0)

/-- Puts the values in the places whose bit is set and NULL in the others. -/
def spread : List Bool → List α → Outcome (List (Option α))
  | [], [] => .ok []
  | [], _ :: _ => .error (.conversion "more values given than the null bitmap marks")
  | false :: bits, values => (spread bits values).map (none :: ·)
  | true :: _, [] => .error (.conversion "null bitmap marks more values than given")
  | true :: bits, v :: values => (spread bits values).map (some v :: ·)

/-- The number of elements that dimensions describe, in words of sixty-four bits. -/
def wordCount (dims : List ArrayDim) : UInt64 :=
  dims.foldl (fun acc d => acc * UInt64.ofNat d.len) 1

/-- Builds an array from the values that are present, in order, and a bitmap in which a set bit
marks a present value. Without a bitmap all elements are present. -/
def ofDense (elementType : TypeId) (dims : List ArrayDim) (values : List α)
    (bitmap : Option (List UInt8)) : Outcome (ArrayOf α) :=
  match bitmap with
  | none => ofDims elementType dims (values.map some)
  | some bytes =>
    let count := wordCount dims
    if bytes.length < ((count + 7) / 8).toNat then
      .error (.conversion "null bitmap is too short")
    else
      match spread ((bytes.flatMap byteBits).take count.toNat) values with
      | .error f => .error f
      | .ok elements => ofDims elementType dims elements

/-- Whether an element is NULL. -/
def hasNulls (a : ArrayOf α) : Bool := a.elements.any Option.isNone

/-- Packs bits into bytes, lowest first. -/
def packBits (bits : List Bool) : List UInt8 :=
  (List.range ((bits.length + 7) / 8)).map fun i => byteOfBits ((bits.drop (8 * i)).take 8)

/-- The bitmap of the dense form, for an array with a NULL. -/
def nullBitmap? (a : ArrayOf α) : Option (List UInt8) :=
  if a.hasNulls then some (packBits (a.elements.map Option.isSome)) else none

/-! ### Subscripts -/

/-- The offset of a subscript in row-major order, from the offset reached by the outer
dimensions. -/
def offsetFrom : Nat → List ArrayDim → List Int32 → Option Nat
  | offset, [], [] => some offset
  | offset, d :: dims, s :: subscript =>
    if s < d.lower ∨ d.upper < s then none
    else offsetFrom (offset * d.len + (s.toInt - d.lower.toInt).toNat) dims subscript
  | _, _, _ => none

/-- The offset of a subscript, if it has one part for each dimension and lies within the bounds. -/
def offset? (a : ArrayOf α) (subscript : List Int32) : Option Nat :=
  if a.dims = [] then none else offsetFrom 0 a.dims subscript

/-- The element at a subscript; `none` also when it is NULL. -/
def get? (a : ArrayOf α) (subscript : List Int32) : Option α :=
  (a.offset? subscript).bind fun i => (a.elements[i]?).join

/-! ### Stored size -/

/-- The size of the header: a fixed part, the dimensions, and the bitmap when there is a NULL. -/
def overhead (ndims items : Nat) (nulls : Bool) : Nat :=
  Alignment.double.align (16 + 8 * ndims + if nulls then (items + 7) / 8 else 0)

/-- The stored size of an element whose data takes `size` bytes: fixed, with an end mark, or with a
length word. -/
def elementSize (size : Nat) (elementLen : Int16) : Nat :=
  if 0 < elementLen then elementLen.toInt.toNat
  else if elementLen = -2 then size + 1
  else size + 4

/-- The stored size of an array, from the data sizes of its elements. -/
def storedSize (ndims : Nat) (sizes : List (Option Nat)) (elementLen : Int16)
    (align : Alignment) : Nat :=
  sizes.foldl
    (fun size element =>
      match element with
      | none => size
      | some n => align.align size + elementSize n elementLen)
    (overhead ndims sizes.length (sizes.any Option.isNone))

end ArrayOf

end StoredRoutine
