import Std.Data.HashMap
import StoredRoutine.Script.Table.Key

/-!
# `StoredRoutine.Script.Table.Shape`: how the entries of a table are laid out

A table with gaps between its numbered values has several numbers that can count as its length.
Which one it is, and in which order a table is traversed, follows from how its entries are laid out.
What the table holds does not: a shape knows keys only, and is asked about a table together with a
predicate that tells which keys have a value.

The first numbers have places in a row, the items. All other keys are on nodes. A key has a
preferred node; if that is taken one of the two keys goes to the last free node. A table whose nodes
are all taken is laid out anew: there are as many items as possible so that more than half of them
have values, and as many nodes as the rest needs.
-/

set_option autoImplicit false

namespace StoredRoutine.Script

/-- The layout of a table. -/
structure Shape where
  /-- The number of items. -/
  items : Nat := 0
  /-- A number of an item at which the length may be looked for. -/
  hint : Nat := 0
  /-- The keys on nodes. A key without a value stays until its node is needed. -/
  nodes : Array (Option Key) := #[]
  /-- The nodes of keys. -/
  places : Std.HashMap Key Nat := {}
  /-- All nodes from here on are, or were, taken. -/
  free : Nat := 0

namespace Shape

/-- The least exponent whose power of two is not less. -/
def ceilLog (n : Nat) : Nat := if n ≤ 1 then 0 else (n - 1).log2 + 1

/-- A layout with so many items, and with nodes for so many keys. -/
def ofSizes (items nodes : Nat) : Shape :=
  let size := if nodes = 0 then 0 else 2 ^ ceilLog nodes
  { items, hint := items, nodes := Array.replicate size none, free := size }

/-- Whether a key is the number of an item. -/
def isItem (s : Shape) (key : Key) : Bool :=
  match key.itemNumber? with
  | some n => n ≤ s.items
  | none => false

/-- Whether a key has a place. -/
def contains (s : Shape) (key : Key) : Bool := s.isItem key || s.places.contains key

/-- The preferred node of a key. -/
def preferred (s : Shape) (key : Key) : Nat :=
  let odd := (s.nodes.size - 1) ||| 1
  match key with
  | .int n => n.toUInt64.toNat % odd
  | .bool b => b.toNat % s.nodes.size
  | key => (hash key).toNat % odd

/-- The nodes of keys without that of a key that stood on a node. -/
def withoutPlace (places : Std.HashMap Key Nat) (old : Key) (node : Nat) : Std.HashMap Key Nat :=
  if places.getD old node = node then places.erase old else places

/-- Puts a key onto a node, in the place of the key that was there. -/
def put (s : Shape) (key : Key) (node : Nat) : Shape :=
  let ⟨items, hint, nodes, places, free⟩ := s
  let places :=
    match nodes.getD node none with
    | some old => withoutPlace places old node
    | none => places
  ⟨items, hint, nodes.setIfInBounds node (some key), places.insert key node, free⟩

/-- Moves the key on a node to another node, and leaves the first one empty. -/
def move (s : Shape) (key : Key) (source dest : Nat) : Shape :=
  let ⟨items, hint, nodes, places, free⟩ := s
  ({ items, hint, nodes := nodes.setIfInBounds source none, places, free } : Shape).put key dest

/-- The last free node before a node. -/
def freeBefore? (s : Shape) : Nat → Option Nat
  | 0 => none
  | node + 1 => if (s.nodes.getD node none).isNone then some node else freeBefore? s node

/-- Gives a key a node. The flag says whether there is one. -/
def place (holds : Key → Bool) (s : Shape) (key : Key) : Bool × Shape :=
  if s.nodes.isEmpty then (false, s)
  else
    let node := s.preferred key
    match (s.nodes.getD node none).filter holds with
    | none => (true, s.put key node)
    | some other =>
      match s.freeBefore? s.free with
      | none => (false, s)
      | some free =>
        let otherNode := s.preferred other
        let s := { s with free }
        if otherNode = node then (true, s.put key free)
        else (true, (s.move other node free).put key node)

/-- Gives keys nodes; there have to be enough. -/
def placeAll (s : Shape) (keys : List Key) : Shape :=
  keys.foldl (fun s key => if s.isItem key then s else (s.place (fun _ => true) key).2) s

/-- Lays a table out with so many items, and with nodes for so many keys. The keys with values keep
their order. -/
def resize (holds : Key → Bool) (s : Shape) (items nodes : Nat) : Shape :=
  let vanishing := (List.range' (items + 1) (s.items - items)).map Key.ofNat
  let kept := s.nodes.toList.filterMap id
  (ofSizes items nodes).placeAll ((vanishing ++ kept).filter holds)

/-- Counts a number by its size: how many are above one power of two and not above the next. -/
def count (counts : Array Nat) (key : Key) : Array Nat :=
  match key.itemNumber? with
  | some n => if n ≤ 2 ^ 31 then counts.modify (ceilLog n) (· + 1) else counts
  | none => counts

/-- The greatest power of two of which more than half are numbers with values, and how many there
are up to it. `counts` are those above `2 ^ (i - 1)`. -/
def bestSize (total : Nat) : List Nat → Nat → Nat → Nat × Nat → Nat × Nat
  | [], _, _, best => best
  | n :: counts, i, before, best =>
    if 2 ^ i / 2 < total then
      let up := before + n
      bestSize total counts (i + 1) up (if 2 ^ i / 2 < up then (2 ^ i, up) else best)
    else best

/-- Lays a table out anew, with room for one more key. -/
def grow (holds : Key → Bool) (s : Shape) (key : Key) : Shape :=
  let items := (List.range' 1 s.items).map Key.ofNat
  let keys := key :: (items ++ s.nodes.toList.filterMap id).filter holds
  let counts := keys.foldl count (Array.replicate 32 0)
  let numbers := counts.foldl (· + ·) 0
  let (size, inItems) := bestSize numbers counts.toList 0 0 (0, 0)
  s.resize holds size (keys.length - inItems)

/-- Gives a new key a place. -/
def insert (holds : Key → Bool) (s : Shape) (key : Key) : Shape :=
  match s.place holds key with
  | (true, s) => s
  | (false, s) =>
    let s := s.grow holds key
    if s.isItem key then s else (s.place holds key).2

/-- A key was looked up: an item behind the hint becomes the hint. -/
def touch (s : Shape) (key : Key) : Shape :=
  match key.itemNumber? with
  | some n => if s.hint < n && n ≤ s.items then { s with hint := n } else s
  | none => s

/-- Makes sure that there are so many items. -/
def ensureItems (holds : Key → Bool) (s : Shape) (items : Nat) : Shape :=
  if s.items < items then s.resize holds items s.nodes.size else s

/-! ### Length -/

/-- A number with a value and without one behind it, between one that has a value, or zero, and one
that has none. -/
def border (has : Nat → Bool) : Nat → Nat → Nat → Nat
  | 0, low, _ => low
  | fuel + 1, low, high =>
    if high ≤ low + 1 then low
    else
      let middle := (low + high) / 2
      if has middle then border has fuel middle high else border has fuel low middle

/-- Looks for a border behind a number with a value, by doubling it. -/
def borderBehind (has : Nat → Bool) : Nat → Nat → Nat
  | 0, n => n
  | fuel + 1, n => if has (2 * n) then borderBehind has fuel (2 * n) else border has n n (2 * n)

/-- Whether the number of items is a power of two. -/
def isPowerOfTwo (n : Nat) : Bool := n != 0 && n &&& (n - 1) == 0

/-- The length of a table, where `has` tells which numbers have values. The hint may move to it. -/
def length (has : Nat → Bool) (s : Shape) : Nat × Shape :=
  let limit := s.hint
  let moved (n : Nat) : Nat × Shape :=
    (n, if isPowerOfTwo s.items && s.items / 2 < n then { s with hint := n } else s)
  if limit ≠ 0 ∧ !has limit then
    if 2 ≤ limit ∧ has (limit - 1) then moved (limit - 1) else moved (border has limit 0 limit)
  else if limit ≠ s.items ∧ !has (limit + 1) then (limit, s)
  else if limit ≠ s.items ∧ !has s.items then
    let n := border has s.items limit s.items
    (n, { s with hint := n })
  else if s.nodes.isEmpty || !has (s.items + 1) then (s.items, s)
  else (borderBehind has 64 (max s.items 1), s)

/-! ### Traversal -/

/-- The key at a place of the traversal: the items come first, then the nodes. -/
def keyAt? (s : Shape) (place : Nat) : Option Key :=
  if place < s.items then some (.ofNat (place + 1)) else s.nodes.getD (place - s.items) none

/-- The number of places of the traversal. -/
def size (s : Shape) : Nat := s.items + s.nodes.size

/-- The place of a key in the traversal. -/
def placeOf? (s : Shape) (key : Key) : Option Nat :=
  match key.itemNumber?.filter fun n => n ≤ s.items with
  | some n => some (n - 1)
  | none => (s.places[key]?).map fun node => s.items + node

/-- The first key with a value, of so many places from one on. -/
def firstFrom? (holds : Key → Bool) (s : Shape) : Nat → Nat → Option Key
  | 0, _ => none
  | count + 1, place =>
    match (s.keyAt? place).filter holds with
    | some key => some key
    | none => firstFrom? holds s count (place + 1)

/-- The keys in the order of the traversal. -/
def keys (s : Shape) : List Key := (List.range s.size).filterMap s.keyAt?

end Shape

end StoredRoutine.Script
