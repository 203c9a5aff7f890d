/-!
# `StoredRoutine.Lifetime.Slots`: reusable slots with generations

A store of values in numbered slots. A slot that is emptied is used again, most recently emptied
first, and its generation goes up by one, so that an identifier taken before does not name what is
stored there later. Generations are words of thirty-two bits and wrap around.
-/

set_option autoImplicit false

namespace StoredRoutine

/-- Names a slot at one generation. -/
structure SlotId where
  index : Nat
  generation : UInt32
  deriving Repr, DecidableEq

/-- One slot: its generation, and its value while it is in use. -/
structure Slot (α : Type) where
  generation : UInt32
  content : Option α
  deriving Repr

/-- Slots, and the indices of those that are free, the next to be used first. -/
structure Slots (α : Type) where
  slots : List (Slot α) := []
  free : List Nat := []
  deriving Repr

namespace Slots

variable {α : Type}

/-- The slot that an identifier names, while it is of that generation. -/
def slot? (s : Slots α) (id : SlotId) : Option (Slot α) :=
  (s.slots[id.index]?).filter fun slot => slot.generation == id.generation

/-- The value that an identifier names. -/
def find? (s : Slots α) (id : SlotId) : Option α := (s.slot? id).bind (·.content)

/-- Stores a value and answers its identifier. -/
def insert (s : Slots α) (value : α) : SlotId × Slots α :=
  match s.free with
  | index :: free =>
    let generation := ((s.slots[index]?).map (·.generation)).getD 0
    (⟨index, generation⟩, { slots := s.slots.set index ⟨generation, some value⟩, free })
  | [] => (⟨s.slots.length, 0⟩, { s with slots := s.slots ++ [⟨0, some value⟩] })

/-- Changes the value that an identifier names. -/
def modify (s : Slots α) (id : SlotId) (f : α → α) : Slots α :=
  match s.find? id with
  | some value => { s with slots := s.slots.set id.index ⟨id.generation, some (f value)⟩ }
  | none => s

/-- Empties the slot that an identifier names. -/
def erase (s : Slots α) (id : SlotId) : Slots α :=
  match s.find? id with
  | some _ =>
    { slots := s.slots.set id.index ⟨id.generation + 1, none⟩, free := id.index :: s.free }
  | none => s

/-- The number of slots in use. -/
def size (s : Slots α) : Nat := s.slots.countP fun slot => slot.content.isSome

end Slots

end StoredRoutine
