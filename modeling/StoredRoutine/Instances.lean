/-!
# `StoredRoutine.Instances`: instances of the core library

Powers of numbers and the equality of byte arrays have instances in other libraries too. Here those
of the core library come first, so that a definition means the same whatever else is in scope.
-/

set_option autoImplicit false

attribute [instance (high), default_instance 10001] instPowNat
attribute [instance (high)] ByteArray.instDecidableEq
