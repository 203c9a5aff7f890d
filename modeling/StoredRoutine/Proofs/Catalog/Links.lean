import StoredRoutine.Proofs.Catalog.Domains

/-!
# `StoredRoutine.Proofs.Catalog.Links`: how far domains are followed

The catalog says of each domain which type it is based on, and nothing keeps these links from
leading nowhere, or in a circle. `Linked` follows them in the entries of the catalog alone. What
`Resolving.resolveDomain` makes of a chain is said in its terms (`resolveDomain_linked`): it answers
if and only if at most 32 domains lead to a type of another class, and it is a conversion failure
in every other case. Either way it has looked at 33 types at most, and has kept what it has seen.

The outcome is that of `Catalog.resolveDomain`, which has no cache. The cache is followed along the
same recursion (`underlying_run`).
-/

set_option autoImplicit false

namespace StoredRoutine

namespace Catalog

variable {catalog : Lookup}

/-- No lookup in the catalog fails; a type may be unknown. -/
def Lookup.Answers (catalog : Lookup) : Prop := ∀ id, ∃ entry, catalog id = .ok entry

/-- The links of domains lead from one type to another. The modifiers are those of the domains on
the way, the outermost first. -/
inductive Linked (catalog : Lookup) : TypeId → List Int32 → TypeId → Prop
  | self (id : TypeId) : Linked catalog id [] id
  | domain {id base id' : TypeId} {e : Entry} {mods : List Int32}
      (hentry : catalog id = .ok (some e)) (hclass : e.typeClass = .domain)
      (hbase : e.base = some base) (hrest : Linked catalog base mods id') :
      Linked catalog id (e.baseTypeMod :: mods) id'

/-- A type stands at the end of its links: it has an entry, and is no domain. -/
structure Last (catalog : Lookup) (id : TypeId) (e : Entry) : Prop where
  entry : catalog id = .ok (some e)
  other : e.typeClass ≠ .domain

/-! ### Entries and descriptors -/

theorem resolve_of_entry {id : TypeId} {e : Entry} (h : catalog id = .ok (some e)) :
    TypeCache.resolve catalog id = e.describe := by
  unfold TypeCache.resolve
  rw [h]

/-- Only an entry has a descriptor. -/
theorem entry_of_resolve {id : TypeId} {d : TypeDescriptor}
    (h : TypeCache.resolve catalog id = .ok d) :
    ∃ e, catalog id = .ok (some e) ∧ e.describe = .ok d := by
  unfold TypeCache.resolve at h
  split at h
  · exact nomatch h
  · exact nomatch h
  next e hentry => exact ⟨e, hentry, h⟩

/-- A type with a descriptor is the end of its links, or a domain whose link and modifier the
descriptor has. -/
theorem last_or_domain {id : TypeId} {d : TypeDescriptor}
    (h : TypeCache.resolve catalog id = .ok d) :
    (∃ e, Last catalog id e ∧ e.describe = .ok d ∧ ∀ base baseMod, d.kind ≠ .domain base baseMod) ∨
      ∃ e base, catalog id = .ok (some e) ∧ e.typeClass = .domain ∧ e.base = some base ∧
        d.kind = .domain base e.baseTypeMod := by
  obtain ⟨e, hentry, hdescribe⟩ := entry_of_resolve h
  obtain ⟨-, hkind⟩ := e.describe_ok hdescribe
  unfold Entry.kind at hkind
  cases hclass : e.typeClass with
  | domain =>
    simp only [hclass] at hkind
    split at hkind
    next base hbase => exact .inr ⟨e, base, hentry, hclass, hbase, (Except.ok.inj hkind).symm⟩
    · exact nomatch hkind
  | base =>
    refine .inl ⟨e, ⟨hentry, by simp [hclass]⟩, hdescribe, fun base baseMod heq => ?_⟩
    simp only [hclass, heq] at hkind
    split at hkind
    · split at hkind <;> exact nomatch hkind
    · exact nomatch hkind
  | enum | composite | pseudo =>
    refine .inl ⟨e, ⟨hentry, by simp [hclass]⟩, hdescribe, fun base baseMod heq => ?_⟩
    simp only [hclass, heq] at hkind
    exact nomatch hkind

/-- An entry of another class has a descriptor. -/
theorem Entry.exists_describe {e : Entry} (h : e.typeClass ≠ .domain) :
    ∃ d, e.describe = .ok d := by
  unfold Entry.describe Entry.kind
  cases hclass : e.typeClass with
  | domain => exact absurd hclass h
  | base => cases e.element <;> exact ⟨_, rfl⟩
  | enum | composite | pseudo => exact ⟨_, rfl⟩

/-- If no lookup fails, an unknown type and a domain without a base are conversion failures. -/
theorem resolve_conversion (hanswers : catalog.Answers) {id : TypeId} {f : Failure}
    (h : TypeCache.resolve catalog id = .error f) : ∃ text, f = .conversion text := by
  obtain ⟨entry, hentry⟩ := hanswers id
  unfold TypeCache.resolve at h
  rw [hentry] at h
  cases entry with
  | none => exact ⟨_, (Except.error.inj h).symm⟩
  | some e =>
    by_cases hclass : e.typeClass = .domain
    · simp only [Entry.describe, Entry.kind, hclass] at h
      split at h
      · exact nomatch h
      · exact ⟨_, (Except.error.inj h).symm⟩
    · obtain ⟨d, hd⟩ := Entry.exists_describe hclass
      exact nomatch hd.symm.trans h

/-! ### The outcome -/

/-- What a walk along links finds: the descriptor at their end, and the modifier in force there. -/
def Found (catalog : Lookup) (id : TypeId) (hops : Nat) (typeMod : Int32)
    (r : TypeDescriptor × Int32) : Prop :=
  ∃ mods id' e, Linked catalog id mods id' ∧ mods.length ≤ hops ∧ Last catalog id' e ∧
    e.describe = .ok r.1 ∧ r.2 = inForce mods typeMod

/-- A type that is no domain is the end of its links. -/
theorem found_last {id : TypeId} {hops : Nat} {typeMod : Int32} {r : TypeDescriptor × Int32}
    {e : Entry} (h : Last catalog id e) :
    Found catalog id hops typeMod r ↔ e.describe = .ok r.1 ∧ r.2 = typeMod := by
  constructor
  · rintro ⟨mods, id', e', hlinked, -, hlast, hdescribe, hmod⟩
    cases hlinked with
    | self =>
      obtain rfl : e = e' := Option.some.inj (Except.ok.inj (h.entry.symm.trans hlast.entry))
      exact ⟨hdescribe, hmod⟩
    | domain hentry hclass _ _ =>
      cases Except.ok.inj (h.entry.symm.trans hentry)
      exact absurd hclass h.other
  · rintro ⟨hdescribe, hmod⟩
    exact ⟨[], id, e, .self id, Nat.zero_le _, h, hdescribe, hmod⟩

/-- Behind a domain the walk goes on at its base, with one hop less. -/
theorem found_domain {id base : TypeId} {hops : Nat} {typeMod : Int32} {r : TypeDescriptor × Int32}
    {e : Entry} (hentry : catalog id = .ok (some e)) (hclass : e.typeClass = .domain)
    (hbase : e.base = some base) :
    Found catalog id hops typeMod r ↔ ∃ rest, hops = rest + 1 ∧
      Found catalog base rest (if e.baseTypeMod = -1 then typeMod else e.baseTypeMod) r := by
  constructor
  · rintro ⟨mods, id', e', hlinked, hlength, hlast, hdescribe, hmod⟩
    cases hlinked with
    | self =>
      cases Except.ok.inj (hentry.symm.trans hlast.entry)
      exact absurd hclass hlast.other
    | @domain _ base' _ e₁ mods hentry' _ hbase' hrest =>
      cases Except.ok.inj (hentry.symm.trans hentry')
      cases hbase.symm.trans hbase'
      rw [List.length_cons] at hlength
      obtain ⟨rest, rfl⟩ := Nat.exists_eq_add_of_lt (Nat.lt_of_lt_of_le (Nat.succ_pos _) hlength)
      refine ⟨rest, by omega, mods, id', e', hrest, by omega, hlast, hdescribe, ?_⟩
      rw [hmod, inForce_cons]
  · rintro ⟨rest, rfl, mods, id', e', hlinked, hlength, hlast, hdescribe, hmod⟩
    refine ⟨e.baseTypeMod :: mods, id', e', .domain hentry hclass hbase hlinked, ?_, hlast,
      hdescribe, ?_⟩
    · rw [List.length_cons]
      omega
    · rw [hmod, inForce_cons]

/-- Nothing is found behind a type that has no descriptor. -/
theorem not_found_of_error {id : TypeId} {hops : Nat} {typeMod : Int32}
    {r : TypeDescriptor × Int32} {f : Failure} (h : TypeCache.resolve catalog id = .error f) :
    ¬Found catalog id hops typeMod r := by
  rintro ⟨mods, id', e, hlinked, -, hlast, hdescribe, -⟩
  cases hlinked with
  | self => exact nomatch h.symm.trans ((resolve_of_entry hlast.entry).trans hdescribe)
  | domain hentry hclass hbase _ =>
    rw [resolve_of_entry hentry] at h
    simp only [Entry.describe, Entry.kind, hclass, hbase] at h
    exact nomatch h

/-- A walk from a descriptor answers what there is to find, and nothing else. -/
theorem underlying_iff {start id : TypeId} {hops : Nat} {d : TypeDescriptor} {typeMod : Int32}
    (hd : TypeCache.resolve catalog id = .ok d) (r : TypeDescriptor × Int32) :
    underlying catalog start hops d typeMod = .ok r ↔ Found catalog id hops typeMod r := by
  obtain ⟨e, hlast, hdescribe, hend⟩ | ⟨e, base, hentry, hclass, hbase, hkind⟩ := last_or_domain hd
  · rw [underlying_self hend, found_last hlast, hdescribe]
    simp only [Except.ok.injEq, Prod.ext_iff]
    exact and_congr_right fun _ => eq_comm
  · rw [found_domain hentry hclass hbase]
    unfold underlying
    simp only [hkind]
    -- one hop to the base of the domain, if there is one left
    cases hops with
    | zero => simp
    | succ hops =>
      cases hnext : TypeCache.resolve catalog base with
      | error f => simp [not_found_of_error hnext]
      | ok next => simpa using underlying_iff hnext r

theorem resolveDomain_iff {id : TypeId} {typeMod : Int32} (r : TypeDescriptor × Int32) :
    resolveDomain catalog id typeMod = .ok r ↔
      Found catalog id Resolving.maxDomainHops typeMod r := by
  unfold resolveDomain
  cases hd : TypeCache.resolve catalog id with
  | error f => simp [not_found_of_error hd]
  | ok d => exact underlying_iff hd r

/-- A walk that does not answer ends in a conversion failure. -/
theorem underlying_conversion (hanswers : catalog.Answers) {start : TypeId} {hops : Nat}
    {d : TypeDescriptor} {typeMod : Int32} {f : Failure}
    (h : underlying catalog start hops d typeMod = .error f) : ∃ text, f = .conversion text := by
  induction hops generalizing d typeMod with
  | zero =>
    unfold underlying at h
    split at h
    · exact ⟨_, (Except.error.inj h).symm⟩
    · exact nomatch h
  | succ hops ih =>
    unfold underlying at h
    split at h
    next base baseMod _ =>
      dsimp only at h
      cases hnext : TypeCache.resolve catalog base with
      | error g =>
        rw [hnext] at h
        obtain ⟨text, hg⟩ := resolve_conversion hanswers hnext
        exact ⟨text, (Except.error.inj h).symm.trans hg⟩
      | ok next =>
        rw [hnext] at h
        exact ih h
    · exact nomatch h

theorem resolveDomain_conversion (hanswers : catalog.Answers) {id : TypeId} {typeMod : Int32}
    {f : Failure} (h : resolveDomain catalog id typeMod = .error f) :
    ∃ text, f = .conversion text := by
  unfold resolveDomain at h
  cases hd : TypeCache.resolve catalog id with
  | error g =>
    rw [hd] at h
    obtain ⟨text, hg⟩ := resolve_conversion hanswers hd
    exact ⟨text, (Except.error.inj h).symm.trans hg⟩
  | ok d =>
    rw [hd] at h
    exact underlying_conversion hanswers h

end Catalog

/-! ### The cache -/

namespace TypeCache

variable {catalog : Catalog.Lookup}

/-- What was done with a cache: at most so many lookups, and no descriptor was lost. -/
structure Used (c c' : TypeCache) (lookups : Nat) : Prop where
  lookups_le : c'.stats.lookups ≤ c.stats.lookups + lookups
  kept : ∀ id d, c.find? id = some d → c'.find? id = some d

theorem Used.trans {c c' c'' : TypeCache} {m n : Nat} (h : Used c c' m) (h' : Used c' c'' n) :
    Used c c'' (m + n) where
  lookups_le := by
    have := h.lookups_le
    have := h'.lookups_le
    omega
  kept id d hd := h'.kept id d (h.kept id d hd)

theorem Used.mono {c c' : TypeCache} {m n : Nat} (h : Used c c' m) (hle : m ≤ n) : Used c c' n where
  lookups_le := by
    have := h.lookups_le
    omega
  kept := h.kept

/-- One lookup keeps the descriptor that it answers. -/
theorem get_run (catalog : Catalog.Lookup) (id : TypeId) (c : TypeCache) :
    Used c (c.get catalog id).2 1 ∧
      ∀ d, (c.get catalog id).1 = .ok d → (c.get catalog id).2.find? id = some d := by
  unfold get
  cases hfind : c.find? id with
  | some d =>
    refine ⟨⟨Nat.le_refl _, fun _ _ h => h⟩, fun d' hd' => ?_⟩
    rw [← Except.ok.inj hd']
    exact hfind
  | none =>
    cases hresolve : resolve catalog id with
    | error f => exact ⟨⟨Nat.le_refl _, fun _ _ h => h⟩, fun d' hd' => nomatch hd'⟩
    | ok d =>
      refine ⟨⟨Nat.le_refl _, fun id' d' h => ?_⟩, fun d' hd' => ?_⟩
      · show ((id, d) :: c.entries).lookup id' = some d'
        have hne : id' ≠ id := by
          rintro rfl
          exact nomatch hfind.symm.trans h
        rw [List.lookup_cons, beq_false_of_ne hne]
        exact h
      · rw [← Except.ok.inj hd']
        show ((id, d) :: c.entries).lookup id = some d
        rw [List.lookup_cons, beq_self_eq_true]

end TypeCache

namespace Catalog

variable {catalog : Lookup}

/-- A cache has all the descriptors of the types that so many links lead to. -/
def Seen (catalog : Lookup) (id : TypeId) (hops : Nat) (c : TypeCache) : Prop :=
  ∀ mods id' d, Linked catalog id mods id' → mods.length ≤ hops →
    TypeCache.resolve catalog id' = .ok d → c.find? id' = some d

/-- Where no link is left to follow, the type itself is all there is to see. -/
theorem seen_self {id : TypeId} {hops : Nat} {d : TypeDescriptor} {c : TypeCache}
    (hd : TypeCache.resolve catalog id = .ok d) (hfind : c.find? id = some d)
    (hend : hops = 0 ∨ ∀ base baseMod, d.kind ≠ .domain base baseMod) : Seen catalog id hops c := by
  rintro mods id' d' hlinked hlength hd'
  cases hlinked with
  | self => exact hfind.trans (congrArg some (Except.ok.inj (hd.symm.trans hd')))
  | @domain _ base _ e mods hentry hclass hbase _ =>
    obtain rfl | hend := hend
    · exact absurd hlength (Nat.not_succ_le_zero _)
    · rw [resolve_of_entry hentry] at hd
      obtain ⟨-, hkind⟩ := e.describe_ok hd
      simp only [Entry.kind, hclass, hbase] at hkind
      exact absurd (Except.ok.inj hkind).symm (hend base e.baseTypeMod)

/-- Behind a domain, one link more is seen than from its base. -/
theorem seen_domain {id base : TypeId} {hops : Nat} {d : TypeDescriptor} {c : TypeCache} {e : Entry}
    (hd : TypeCache.resolve catalog id = .ok d) (hfind : c.find? id = some d)
    (hentry : catalog id = .ok (some e)) (hbase : e.base = some base)
    (hrest : Seen catalog base hops c) : Seen catalog id (hops + 1) c := by
  rintro mods id' d' hlinked hlength hd'
  cases hlinked with
  | self => exact hfind.trans (congrArg some (Except.ok.inj (hd.symm.trans hd')))
  | domain hentry' _ hbase' hlinked =>
    cases Except.ok.inj (hentry.symm.trans hentry')
    cases hbase.symm.trans hbase'
    exact hrest _ _ _ hlinked (Nat.le_of_succ_le_succ hlength) hd'

/-- From a type without a descriptor there is nothing to see. -/
theorem seen_of_error {id : TypeId} {f : Failure} (h : TypeCache.resolve catalog id = .error f)
    (hops : Nat) (c : TypeCache) : Seen catalog id hops c := by
  rintro mods id' d hlinked - hd
  cases hlinked with
  | self => exact nomatch h.symm.trans hd
  | domain hentry hclass hbase _ =>
    rw [resolve_of_entry hentry] at h
    simp only [Entry.describe, Entry.kind, hclass, hbase] at h
    exact nomatch h

/-- Without a domain a walk looks at nothing. -/
theorem run_underlying_self {start : TypeId} {hops : Nat} {d : TypeDescriptor} {typeMod : Int32}
    (hend : ∀ base baseMod, d.kind ≠ .domain base baseMod) :
    Resolving.underlying catalog start hops d typeMod = pure (d, typeMod) := by
  unfold Resolving.underlying
  cases hkind : d.kind with
  | domain base baseMod => exact absurd hkind (hend base baseMod)
  | base | enum _ | array _ | composite _ | pseudo => rfl

/-- A walk looks at one type for each hop, and the cache has what it has seen. -/
theorem underlying_run {start id : TypeId} {hops : Nat} {d : TypeDescriptor} (typeMod : Int32)
    {c : TypeCache} (hc : c.Coherent catalog) (hd : TypeCache.resolve catalog id = .ok d)
    (hfind : c.find? id = some d) :
    TypeCache.Used c (Resolving.underlying catalog start hops d typeMod c).2 hops ∧
      Seen catalog id hops (Resolving.underlying catalog start hops d typeMod c).2 := by
  have hsame : TypeCache.Used c c hops := ⟨Nat.le_add_right _ _, fun _ _ h => h⟩
  obtain ⟨e, -, -, hend⟩ | ⟨e, base, hentry, -, hbase, hkind⟩ := last_or_domain hd
  · rw [run_underlying_self hend]
    exact ⟨hsame, seen_self hd hfind (.inr hend)⟩
  · unfold Resolving.underlying
    simp only [hkind]
    -- one hop to the base of the domain, if there is one left
    cases hops with
    | zero => exact ⟨hsame, seen_self hd hfind (.inl rfl)⟩
    | succ hops =>
      obtain ⟨hused, hkept⟩ := TypeCache.get_run catalog base c
      have hbased : Resolving.Yields catalog (Resolving.descriptor catalog base) _ :=
        Resolving.yields_descriptor base
      obtain ⟨c₁, hget, hc₁⟩ := hbased c hc
      have hget' : c.get catalog base = (TypeCache.resolve catalog base, c₁) := hget
      rw [hget'] at hused hkept
      dsimp only
      rw [run_bind, hget]
      cases hnext : TypeCache.resolve catalog base with
      | error f =>
        exact ⟨hused.mono (by omega), seen_domain hd (hused.kept id d hfind) hentry hbase
          (seen_of_error hnext hops c₁)⟩
      | ok next =>
        obtain ⟨hrest, hseen⟩ := underlying_run
          (if e.baseTypeMod = -1 then typeMod else e.baseTypeMod) hc₁ hnext (hkept next hnext)
        exact ⟨(hused.trans hrest).mono (by omega), seen_domain hd
          (hrest.kept id d (hused.kept id d hfind)) hentry hbase hseen⟩

theorem resolveDomain_run (id : TypeId) (typeMod : Int32) {c : TypeCache}
    (hc : c.Coherent catalog) :
    TypeCache.Used c (Resolving.resolveDomain catalog id typeMod c).2
        (1 + Resolving.maxDomainHops) ∧
      Seen catalog id Resolving.maxDomainHops
        (Resolving.resolveDomain catalog id typeMod c).2 := by
  obtain ⟨hused, hkept⟩ := TypeCache.get_run catalog id c
  have hfirst : Resolving.Yields catalog (Resolving.descriptor catalog id) _ :=
    Resolving.yields_descriptor id
  obtain ⟨c₁, hget, hc₁⟩ := hfirst c hc
  have hget' : c.get catalog id = (TypeCache.resolve catalog id, c₁) := hget
  rw [hget'] at hused hkept
  unfold Resolving.resolveDomain
  rw [run_bind, hget]
  cases hd : TypeCache.resolve catalog id with
  | error f => exact ⟨hused.mono (Nat.le_add_right _ _), seen_of_error hd _ c₁⟩
  | ok d =>
    obtain ⟨hrest, hseen⟩ := underlying_run typeMod hc₁ hd (hkept d hd)
    exact ⟨hused.trans hrest, hseen⟩

/-! ### Domains that are followed -/

/-- Following the domains of a type always ends, and has looked at 33 types at most. It answers if
and only if 32 domains at most, all of them with an entry and a base, lead to a type that has an
entry and is no domain: then with the descriptor of this type, and the deepest modifier on the way
other than -1, or the one given if there is none. In every other case the answer is a conversion
failure. Whatever the answer, the cache loses nothing, every descriptor in it is still that of the
catalog, and those of the types on the way are among them. -/
theorem resolveDomain_linked (hanswers : catalog.Answers) (id : TypeId) (typeMod : Int32)
    {c : TypeCache} (hc : c.Coherent catalog) :
    ∃ r c', Resolving.resolveDomain catalog id typeMod c = (r, c') ∧
      c'.stats.lookups ≤ c.stats.lookups + 33 ∧
      (∀ type m, r = .ok (type, m) ↔ ∃ mods id' e, Linked catalog id mods id' ∧
        mods.length ≤ 32 ∧ Last catalog id' e ∧ e.describe = .ok type ∧ m = inForce mods typeMod) ∧
      (∀ type m, r = .ok (type, m) → ∀ base baseMod, type.kind ≠ .domain base baseMod) ∧
      ((¬∃ mods id' e, Linked catalog id mods id' ∧ mods.length ≤ 32 ∧ Last catalog id' e) →
        ∃ text, r = .error (.conversion text)) ∧
      c'.Coherent catalog ∧
      (∀ id' d, c.find? id' = some d → c'.find? id' = some d) ∧
      ∀ mods id' d, Linked catalog id mods id' → mods.length ≤ 32 →
        TypeCache.resolve catalog id' = .ok d → c'.find? id' = some d := by
  have hyields : Resolving.Yields catalog (Resolving.resolveDomain catalog id typeMod) _ :=
    Resolving.yields_resolveDomain id typeMod
  obtain ⟨c', hrun, hc'⟩ := hyields c hc
  -- the catalog alone says what the answer is, and the run in the cache what is looked up and kept
  obtain ⟨hused, hseen⟩ := resolveDomain_run id typeMod hc
  rw [hrun] at hused hseen
  refine ⟨_, c', hrun, hused.lookups_le, fun type m => resolveDomain_iff (type, m),
    fun type m h => (resolveDomain_ok h).2, fun hnone => ?_, hc', hused.kept, hseen⟩
  -- an answer needs a chain to a type that is no domain, so without one this is a failure
  cases hresolve : resolveDomain catalog id typeMod with
  | ok r =>
    obtain ⟨mods, id', e, hlinked, hlength, hlast, -⟩ := (resolveDomain_iff r).mp hresolve
    exact absurd ⟨mods, id', e, hlinked, hlength, hlast⟩ hnone
  | error f =>
    obtain ⟨text, rfl⟩ := resolveDomain_conversion hanswers hresolve
    exact ⟨text, rfl⟩

/-- A catalog in which type 0 is a base type and every other one a domain over the one before it;
those with an even number have it as their modifier. Type 1000 is a domain over itself. -/
def ladder : Lookup := fun id =>
  .ok (some
    (if id = 0 then .scalar 0 "ground" 4 true .int
    else
      { id, name := "rung", typeClass := .domain, len := 4, byValue := true, align := .int
        base := some (if id = 1000 then id else id - 1)
        baseTypeMod := if id % 2 = 0 then Int32.ofNat id.toNat else -1 }))

/-- The ground is reached from rung 32, where the modifier of rung 2 is in force. It is not reached
from rung 33, and nothing is from the rung that rests on itself; the rungs on the way are kept. -/
theorem resolveDomain_ladder :
    ladder.Answers ∧ TypeCache.Coherent ladder {} ∧
      (∃ c', Resolving.resolveDomain ladder 32 7 {} =
        (.ok (⟨0, "ground", .base, 4, true, .int⟩, 2), c') ∧ c'.stats.lookups ≤ 33) ∧
      (∃ text c', Resolving.resolveDomain ladder 33 7 {} = (.error (.conversion text), c') ∧
        c'.stats.lookups ≤ 33 ∧ c'.find? 33 = some ⟨33, "rung", .domain 32 (-1), 4, true, .int⟩) ∧
      ∃ text c', Resolving.resolveDomain ladder 1000 7 {} = (.error (.conversion text), c') ∧
        c'.stats.lookups ≤ 33 := by
  have hanswers : ladder.Answers := fun id => ⟨_, rfl⟩
  have hempty := TypeCache.coherent_empty ladder
  refine ⟨hanswers, hempty, ?_, ?_, ?_⟩
  · obtain ⟨r, c', hrun, hlookups, -⟩ := resolveDomain_linked hanswers 32 7 hempty
    have hr : (Resolving.resolveDomain ladder 32 7 {}).1 =
        .ok (⟨0, "ground", .base, 4, true, .int⟩, 2) := by decide +kernel
    rw [hrun] at hr
    exact ⟨c', hrun.trans (congrArg (·, c') hr), hlookups⟩
  · obtain ⟨r, c', hrun, hlookups, -, -, -, -, -, hseen⟩ :=
      resolveDomain_linked hanswers 33 7 hempty
    have hr : (Resolving.resolveDomain ladder 33 7 {}).1 =
        .error (.conversion "domain chain too deep for type 33") := by decide +kernel
    rw [hrun] at hr
    exact ⟨_, c', hrun.trans (congrArg (·, c') hr), hlookups,
      hseen [] 33 _ (.self 33) (Nat.zero_le _) rfl⟩
  · obtain ⟨r, c', hrun, hlookups, -⟩ := resolveDomain_linked hanswers 1000 7 hempty
    have hr : (Resolving.resolveDomain ladder 1000 7 {}).1 =
        .error (.conversion "domain chain too deep for type 1000") := by decide +kernel
    rw [hrun] at hr
    exact ⟨_, c', hrun.trans (congrArg (·, c') hr), hlookups⟩

end Catalog

end StoredRoutine
