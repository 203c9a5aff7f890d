import StoredRoutine.Catalog.Descriptor

/-!
# `StoredRoutine.Catalog.TypeCache`: descriptors kept after their first use

The cache asks the catalog once for each type and keeps the descriptor for good; a lookup that
fails keeps nothing and is asked again the next time. Four counters record what happened.
Computations that look types up run in `Resolving`, which threads the cache and keeps it when they
fail.
-/

set_option autoImplicit false

namespace StoredRoutine

namespace Catalog

/-- A catalog answers with the entry of a type, with nothing for an unknown one, or fails. -/
abbrev Lookup : Type := TypeId → Outcome (Option Entry)

end Catalog

/-- What the cache has done so far. -/
structure CacheStats where
  lookups : Nat := 0
  hits : Nat := 0
  misses : Nat := 0
  insertions : Nat := 0
  deriving Repr, DecidableEq

/-- The share of lookups answered from the cache; zero before the first lookup. -/
def CacheStats.hitRate (s : CacheStats) : Float :=
  if s.lookups = 0 then 0 else Float.ofNat s.hits / Float.ofNat s.lookups

/-- The descriptors resolved so far, newest first, and the counters. -/
structure TypeCache where
  entries : List (TypeId × TypeDescriptor) := []
  stats : CacheStats := {}
  deriving Repr, DecidableEq

/-- A computation that may look types up and may fail. The cache outlives a failure. -/
abbrev Resolving : Type → Type := ExceptT Failure (StateM TypeCache)

namespace TypeCache

/-- The number of descriptors kept. -/
def size (c : TypeCache) : Nat := c.entries.length

/-- The descriptor kept for a type. -/
def find? (c : TypeCache) (id : TypeId) : Option TypeDescriptor := c.entries.lookup id

/-- The descriptor of a type straight from the catalog. -/
def resolve (catalog : Catalog.Lookup) (id : TypeId) : Outcome TypeDescriptor :=
  match catalog id with
  | .error f => .error f
  | .ok none => .error (.conversion s!"cache lookup failed for type {id}")
  | .ok (some entry) => entry.describe

/-- One lookup: from the cache when the type is known, from the catalog otherwise. -/
def get (catalog : Catalog.Lookup) (id : TypeId) (c : TypeCache) :
    Outcome TypeDescriptor × TypeCache :=
  let asked := { c.stats with lookups := c.stats.lookups + 1 }
  match c.find? id with
  | some d => (.ok d, { c with stats := { asked with hits := asked.hits + 1 } })
  | none =>
    let missed := { asked with misses := asked.misses + 1 }
    match resolve catalog id with
    | .error f => (.error f, { c with stats := missed })
    | .ok d =>
      (.ok d,
        { entries := (id, d) :: c.entries
          stats := { missed with insertions := missed.insertions + 1 } })

end TypeCache

namespace Resolving

/-- Looks up the descriptor of a type. -/
def descriptor (catalog : Catalog.Lookup) (id : TypeId) : Resolving TypeDescriptor :=
  fun c => TypeCache.get catalog id c

/-- The greatest number of domains followed from a type to its underlying type. -/
def maxDomainHops : Nat := 32

/-- Follows domains from a descriptor, at most `hops` of them. The deepest modifier other than -1
replaces the one given. `start` is the type the walk began with, for the message. -/
def underlying (catalog : Catalog.Lookup) (start : TypeId) :
    Nat → TypeDescriptor → Int32 → Resolving (TypeDescriptor × Int32)
  | hops, d, typeMod =>
    match d.kind with
    | .domain base baseMod =>
      match hops with
      | 0 => throw (.conversion s!"domain chain too deep for type {start}")
      | hops + 1 => do
        let next ← descriptor catalog base
        underlying catalog start hops next (if baseMod = -1 then typeMod else baseMod)
    | _ => pure (d, typeMod)

/-- The type a domain stands for in the end, and the modifier in force there. A type that is no
domain is answered as it is. -/
def resolveDomain (catalog : Catalog.Lookup) (id : TypeId) (typeMod : Int32) :
    Resolving (TypeDescriptor × Int32) := do
  let d ← descriptor catalog id
  underlying catalog id maxDomainHops d typeMod

end Resolving

end StoredRoutine
