import Mathlib.Data.List.Induction
import StoredRoutine.Proofs.Catalog.Resolution

/-!
# `StoredRoutine.Proofs.Catalog.Lookups`: what a cache was asked, and what it has kept

A call of a cache asks for the descriptor of one type, or follows domains from a type with one
lookup for each type on the way (`Walked`). At every call the catalog may be another one. `Made`
leads from one cache to another by a list of lookups, each with its outcome.

The list decides everything. A type is kept since the first lookup that found its descriptor, and
every later lookup answers what the catalog said then; before that one, each lookup asks the catalog
as it is. The counters count the lookups in the list. That is an invariant of single lookups
(`Tallied.get`), so it holds at every point of a run, also inside of a call (`made_exact`). As long
as the catalog stays the same, nothing that the cache has kept makes a difference
(`calls_transparent`).
-/

set_option autoImplicit false

namespace StoredRoutine.TypeCache

open Catalog (Lookup)

/-! ### Lookups one after the other -/

/-- A lookup: the catalog at that time, the type, and what came of it. -/
structure Get where
  catalog : Lookup
  id : TypeId
  outcome : Outcome TypeDescriptor

/-- Whether a lookup has found the descriptor of a type. -/
def Get.finds (g : Get) (id : TypeId) : Bool := g.id == id && g.outcome.isOk

/-- The first lookup that has found the descriptor of a type. -/
def first? (gets : List Get) (id : TypeId) : Option Get := gets.find? fun g => g.finds id

/-- The outcome of a lookup after others: the type is resolved in the catalog of the first one that
has found it, and in the present one if none has. -/
def outcomeAfter (before : List Get) (catalog : Lookup) (id : TypeId) : Outcome TypeDescriptor :=
  resolve (((first? before id).map (·.catalog)).getD catalog) id

/-- Lookups lead from one cache to another. -/
inductive Made (c : TypeCache) : List Get → TypeCache → Prop
  | start : Made c [] c
  | snoc {gets : List Get} {c' : TypeCache} (hmade : Made c gets c') (catalog : Lookup)
      (id : TypeId) :
      Made c (gets ++ [⟨catalog, id, (c'.get catalog id).1⟩]) (c'.get catalog id).2

variable {c c' c'' : TypeCache} {gets gets' : List Get} {catalog : Lookup} {id start : TypeId}
  {d : TypeDescriptor}

theorem made_one (c : TypeCache) (catalog : Lookup) (id : TypeId) :
    Made c [⟨catalog, id, (c.get catalog id).1⟩] (c.get catalog id).2 :=
  .snoc .start catalog id

theorem Made.append (h : Made c gets c') (h' : Made c' gets' c'') : Made c (gets ++ gets') c'' := by
  induction h' with
  | start =>
    rw [List.append_nil]
    exact h
  | snoc _ catalog id ih =>
    rw [← List.append_assoc]
    exact ih.snoc catalog id

/-- There is a cache at every point between lookups. -/
theorem Made.of_append (h : Made c (gets ++ gets') c'') : ∃ c', Made c gets c' := by
  induction gets' using List.reverseRecOn generalizing c'' with
  | nil =>
    rw [List.append_nil] at h
    exact ⟨c'', h⟩
  | append_singleton gets' g ih =>
    rw [← List.append_assoc] at h
    generalize hall : gets ++ gets' ++ [g] = all at h
    cases h with
    | start => simp at hall
    | snoc hmade catalog id =>
      obtain ⟨rfl, -⟩ := List.append_inj' hall rfl
      exact ih hmade

/-! ### One lookup -/

theorem get_of_find? (h : c.find? id = some d) :
    c.get catalog id = (.ok d, { c with
      stats := { c.stats with lookups := c.stats.lookups + 1, hits := c.stats.hits + 1 } }) := by
  unfold get
  rw [h]

theorem get_of_error (h : c.find? id = none) {f : Failure} (hf : resolve catalog id = .error f) :
    c.get catalog id = (.error f,
      { c with
        stats :=
          { c.stats with lookups := c.stats.lookups + 1, misses := c.stats.misses + 1 } }) := by
  unfold get
  rw [h, hf]

theorem get_of_ok (h : c.find? id = none) (hd : resolve catalog id = .ok d) :
    c.get catalog id = (.ok d,
      { entries := (id, d) :: c.entries
        stats :=
          { lookups := c.stats.lookups + 1
            hits := c.stats.hits
            misses := c.stats.misses + 1
            insertions := c.stats.insertions + 1 } }) := by
  unfold get
  rw [h, hd]

/-! ### The books -/

/-- The books of a cache are right after lookups. -/
structure Tallied (gets : List Get) (c : TypeCache) : Prop where
  /-- What is kept of a type is what the first lookup has found that found anything. -/
  kept : ∀ id, c.find? id = (first? gets id).bind fun g => g.outcome.toOption
  /-- Each type is kept once. -/
  nodup : (c.entries.map (·.1)).Nodup
  lookups : c.stats.lookups = gets.length
  answered : c.stats.lookups = c.stats.hits + c.stats.misses
  insertions : c.stats.insertions = c.size
  failed : c.stats.misses = c.stats.insertions + gets.countP fun g => !g.outcome.isOk

theorem tallied_empty : Tallied [] {} where
  kept _ := rfl
  nodup := List.nodup_nil
  lookups := rfl
  answered := rfl
  insertions := rfl
  failed := rfl

/-- The outcomes of lookups are those that the catalogs explain. -/
def Explained (gets : List Get) : Prop :=
  ∀ before g after, gets = before ++ g :: after → g.outcome = outcomeAfter before g.catalog g.id

theorem explained_nil : Explained [] := by
  intro before g after heq
  simp at heq

theorem Explained.snoc (h : Explained gets) {g : Get}
    (hg : g.outcome = outcomeAfter gets g.catalog g.id) : Explained (gets ++ [g]) := by
  intro before g' after heq
  rcases List.eq_nil_or_concat after with rfl | ⟨front, last, rfl⟩
  · obtain ⟨rfl, hlast⟩ := List.append_inj' heq rfl
    cases hlast
    exact hg
  · rw [List.concat_eq_append, ← List.cons_append, ← List.append_assoc] at heq
    exact h before g' front (List.append_inj' heq rfl).1

/-- The first lookup that has found a type has found a descriptor of it. -/
theorem found_of_first? {g : Get} (h : first? gets id = some g) :
    g.id = id ∧ ∃ d, g.outcome = .ok d := by
  have hfinds := List.find?_some h
  unfold Get.finds at hfinds
  rw [Bool.and_eq_true, beq_iff_eq] at hfinds
  refine ⟨hfinds.1, ?_⟩
  cases houtcome : g.outcome with
  | ok d => exact ⟨d, rfl⟩
  | error f =>
    rw [houtcome] at hfinds
    exact nomatch hfinds.2

/-- It had nothing but the catalog to ask. -/
theorem Explained.first (h : Explained gets) {g : Get} (hfirst : first? gets id = some g) :
    g.outcome = resolve g.catalog id := by
  obtain ⟨hid, -⟩ := found_of_first? hfirst
  obtain ⟨-, before, after, hsplit, hbefore⟩ := List.find?_eq_some_iff_append.mp hfirst
  have hnone : first? before g.id = none := by
    rw [hid]
    exact List.find?_eq_none.mpr fun x hx => by simpa using hbefore x hx
  rw [h before g after hsplit, outcomeAfter, hnone, hid]
  rfl

/-- A type for which a lookup finds nothing, or nothing new, is found first where it was. -/
theorem first?_snoc {g : Get} (hg : g.finds id = true → (first? gets id).isSome) :
    first? (gets ++ [g]) id = first? gets id := by
  unfold first? at hg ⊢
  rw [List.find?_append, List.find?_singleton]
  cases hfinds : g.finds id with
  | true =>
    obtain ⟨g', hg'⟩ := Option.isSome_iff_exists.mp (hg hfinds)
    rw [hg', Option.some_or]
  | false => rw [if_neg Bool.false_ne_true, Option.or_none]

/-- A lookup of a type that was found before. Nothing is new. -/
theorem Tallied.hit (h : Tallied gets c) (hfirst : (first? gets id).isSome)
    (hfind : c.find? id = some d) :
    Tallied (gets ++ [⟨catalog, id, .ok d⟩]) (c.get catalog id).2 := by
  rw [get_of_find? hfind]
  have hanswered := h.answered
  have hsame : ∀ id', first? (gets ++ [⟨catalog, id, .ok d⟩]) id' = first? gets id' := by
    intro id'
    refine first?_snoc fun hfinds => ?_
    obtain rfl : id = id' := eq_of_beq (Bool.and_eq_true_iff.mp hfinds).1
    exact hfirst
  refine ⟨fun id' => (hsame id').symm ▸ h.kept id', h.nodup, ?lookups, ?answered, h.insertions,
    ?failed⟩
  case lookups =>
    rw [List.length_append, ← h.lookups]
    rfl
  case answered =>
    show c.stats.lookups + 1 = c.stats.hits + 1 + c.stats.misses
    omega
  case failed =>
    rw [List.countP_append]
    exact h.failed

/-- A lookup that fails. Nothing is kept of it. -/
theorem Tallied.miss (h : Tallied gets c) (hfind : c.find? id = none) {f : Failure}
    (hresolve : resolve catalog id = .error f) :
    Tallied (gets ++ [⟨catalog, id, .error f⟩]) (c.get catalog id).2 := by
  rw [get_of_error hfind hresolve]
  have hanswered := h.answered
  have hfailed := h.failed
  have hsame : ∀ id', first? (gets ++ [⟨catalog, id, .error f⟩]) id' = first? gets id' :=
    fun id' => first?_snoc fun hfinds => by
      simp [Get.finds, Except.isOk, Except.toBool] at hfinds
  refine ⟨fun id' => (hsame id').symm ▸ h.kept id', h.nodup, ?lookups, ?answered, h.insertions,
    ?failed⟩
  case lookups =>
    rw [List.length_append, ← h.lookups]
    rfl
  case answered =>
    show c.stats.lookups + 1 = c.stats.hits + (c.stats.misses + 1)
    omega
  case failed =>
    rw [List.countP_append]
    show c.stats.misses + 1 = c.stats.insertions + (_ + 1)
    omega

/-- A lookup that is the first one to find its type. What it has found is kept from now on. -/
theorem Tallied.insert (h : Tallied gets c) (hfirst : first? gets id = none)
    (hfind : c.find? id = none) (hresolve : resolve catalog id = .ok d) :
    Tallied (gets ++ [⟨catalog, id, .ok d⟩]) (c.get catalog id).2 := by
  rw [get_of_ok hfind hresolve]
  have hanswered := h.answered
  have hfailed := h.failed
  refine ⟨?kept, ?nodup, ?lookups, ?answered, congrArg (· + 1) h.insertions, ?failed⟩
  case kept =>
    intro id'
    show ((id, d) :: c.entries).lookup id' = _
    rw [List.lookup_cons]
    by_cases hid : id' = id
    · subst hid
      unfold first? at hfirst ⊢
      rw [beq_self_eq_true, List.find?_append, hfirst, List.find?_singleton]
      simp [Get.finds, Except.isOk, Except.toBool, Except.toOption]
    · rw [beq_false_of_ne hid, first?_snoc fun hfinds => absurd
        (eq_of_beq (Bool.and_eq_true_iff.mp hfinds).1).symm hid]
      exact h.kept id'
  case nodup =>
    -- no entry is of this type, or the type would have been found
    refine List.nodup_cons.mpr ⟨fun hin => ?_, h.nodup⟩
    obtain ⟨entry, hentry, heq⟩ := List.mem_map.mp hin
    have hne := List.lookup_eq_none_iff.mp hfind entry hentry
    exact absurd heq.symm (bne_iff_ne.mp hne)
  case lookups =>
    rw [List.length_append, ← h.lookups]
    rfl
  case answered =>
    show c.stats.lookups + 1 = c.stats.hits + (c.stats.misses + 1)
    omega
  case failed =>
    rw [List.countP_append]
    show c.stats.misses + 1 = c.stats.insertions + 1 + (_ + 0)
    omega

/-- One more lookup is answered from what was kept, or by the catalog, and the books stay right. -/
theorem Tallied.get (h : Tallied gets c) (hexplained : Explained gets) (catalog : Lookup)
    (id : TypeId) :
    (c.get catalog id).1 = outcomeAfter gets catalog id ∧
      Tallied (gets ++ [⟨catalog, id, (c.get catalog id).1⟩]) (c.get catalog id).2 := by
  have hkept := h.kept id
  unfold outcomeAfter
  -- whether the cache has the type depends only on the lookups so far
  cases hfirst : first? gets id with
  | some g =>
    obtain ⟨-, d, hd⟩ := found_of_first? hfirst
    have hfind : c.find? id = some d := by
      rw [hkept, hfirst, Option.bind_some, hd]
      rfl
    have houtcome : (c.get catalog id).1 = .ok d := congrArg Prod.fst (get_of_find? hfind)
    rw [houtcome]
    exact ⟨hd.symm.trans (hexplained.first hfirst), h.hit (Option.isSome_of_eq_some hfirst) hfind⟩
  | none =>
    have hfind : c.find? id = none := by
      rw [hkept, hfirst]
      rfl
    show _ = resolve catalog id ∧ _
    cases hresolve : resolve catalog id with
    | error f =>
      have houtcome : (c.get catalog id).1 = .error f :=
        congrArg Prod.fst (get_of_error hfind hresolve)
      rw [houtcome]
      exact ⟨rfl, h.miss hfind hresolve⟩
    | ok d =>
      have houtcome : (c.get catalog id).1 = .ok d := congrArg Prod.fst (get_of_ok hfind hresolve)
      rw [houtcome]
      exact ⟨rfl, h.insert hfirst hfind hresolve⟩

/-- Over lookups of any kind from a cache that was never used. -/
theorem made_exact (h : Made {} gets c) : Tallied gets c ∧ Explained gets := by
  induction h with
  | start => exact ⟨tallied_empty, explained_nil⟩
  | snoc _ catalog id ih =>
    obtain ⟨houtcome, htallied⟩ := ih.1.get ih.2 catalog id
    exact ⟨htallied, ih.2.snoc houtcome⟩

/-! ### Calls -/

/-- The lookups of a walk along domains, at most `hops` links long, and what it answers. `start` is
the type the walk began with, for the message. -/
inductive Walked (catalog : Lookup) (start : TypeId) :
    Nat → TypeId → Int32 → List Get → Outcome (TypeDescriptor × Int32) → Prop
  /-- A type has no descriptor. -/
  | failed (hops : Nat) (id : TypeId) (typeMod : Int32) (f : Failure) :
    Walked catalog start hops id typeMod [⟨catalog, id, .error f⟩] (.error f)
  /-- A type is no domain. -/
  | ended (hops : Nat) (id : TypeId) (typeMod : Int32) {d : TypeDescriptor}
      (hend : ∀ base baseMod, d.kind ≠ .domain base baseMod) :
    Walked catalog start hops id typeMod [⟨catalog, id, .ok d⟩] (.ok (d, typeMod))
  /-- One domain too many. -/
  | tooDeep (id : TypeId) (typeMod : Int32) {d : TypeDescriptor} {base : TypeId} {baseMod : Int32}
      (hkind : d.kind = .domain base baseMod) :
    Walked catalog start 0 id typeMod [⟨catalog, id, .ok d⟩]
      (.error (.conversion s!"domain chain too deep for type {start}"))
  /-- A domain leads to its base. -/
  | domain (id : TypeId) {hops : Nat} {typeMod : Int32} {d : TypeDescriptor} {base : TypeId}
      {baseMod : Int32} {gets : List Get} {r : Outcome (TypeDescriptor × Int32)}
      (hkind : d.kind = .domain base baseMod)
      (hrest : Walked catalog start hops base (if baseMod = -1 then typeMod else baseMod) gets r) :
    Walked catalog start (hops + 1) id typeMod (⟨catalog, id, .ok d⟩ :: gets) r

/-- A walk makes its lookups in the cache that it is given, and leaves what they lead to. -/
theorem walked (catalog : Lookup) (start : TypeId) (hops : Nat) (id : TypeId) (typeMod : Int32)
    (c : TypeCache) :
    ∃ gets r c', (Resolving.descriptor catalog id >>= fun d =>
        Resolving.underlying catalog start hops d typeMod) c = (r, c') ∧
      Walked catalog start hops id typeMod gets r ∧ Made c gets c' := by
  have hone := made_one c catalog id
  have hget : Resolving.descriptor catalog id c = c.get catalog id := rfl
  rw [run_bind, hget]
  generalize c.get catalog id = done at hone ⊢
  obtain ⟨first, c'⟩ := done
  cases first with
  | error f => exact ⟨_, _, c', rfl, .failed hops id typeMod f, hone⟩
  | ok d =>
    show ∃ gets r c'', Resolving.underlying catalog start hops d typeMod c' = (r, c'') ∧ _
    unfold Resolving.underlying
    cases hkind : d.kind with
    | domain base baseMod =>
      simp only
      -- one hop to the base of the domain, if there is one left
      cases hops with
      | zero => exact ⟨_, _, c', rfl, .tooDeep id typeMod hkind, hone⟩
      | succ hops =>
        obtain ⟨gets, r, c'', hrun, hwalked, hmade⟩ :=
          walked catalog start hops base (if baseMod = -1 then typeMod else baseMod) c'
        exact ⟨_, r, c'', hrun, .domain id hkind hwalked, hone.append hmade⟩
    | base | enum _ | array _ | composite _ | pseudo =>
      exact ⟨_, _, c', rfl, .ended hops id typeMod (by simp [hkind]), hone⟩

/-- What can be asked of a cache. -/
inductive Call where
  /-- The descriptor of a type. -/
  | get (id : TypeId)
  /-- The type that a type stands for, and the modifier in force there. -/
  | resolve (id : TypeId) (typeMod : Int32)

/-- What a call answers. -/
inductive Answer where
  | descriptor (r : Outcome TypeDescriptor)
  | resolved (r : Outcome (TypeDescriptor × Int32))

/-- A call, with the catalog as it is at that time. -/
def call (catalog : Lookup) (c : TypeCache) : Call → Answer × TypeCache
  | .get id =>
    let (r, c) := c.get catalog id
    (.descriptor r, c)
  | .resolve id typeMod =>
    let (r, c) := Resolving.resolveDomain catalog id typeMod c
    (.resolved r, c)

/-- Calls one after the other: the answers, and the cache afterwards. -/
def calls : TypeCache → List (Lookup × Call) → List Answer × TypeCache
  | c, [] => ([], c)
  | c, x :: rest =>
    let (answer, c) := c.call x.1 x.2
    let (answers, c) := calls c rest
    (answer :: answers, c)

/-- The lookups of a call, and its answer by their outcomes. -/
inductive Call.Asks (catalog : Lookup) : Call → List Get × Answer → Prop
  | get (id : TypeId) (r : Outcome TypeDescriptor) :
    Asks catalog (.get id) ([⟨catalog, id, r⟩], .descriptor r)
  | resolve {id : TypeId} {typeMod : Int32} {gets : List Get}
      {r : Outcome (TypeDescriptor × Int32)}
      (hwalked : Walked catalog id Resolving.maxDomainHops id typeMod gets r) :
    Asks catalog (.resolve id typeMod) (gets, .resolved r)

/-- A call makes its lookups in the cache. -/
theorem call_asks (catalog : Lookup) (c : TypeCache) (x : Call) :
    ∃ gets, x.Asks catalog (gets, (c.call catalog x).1) ∧ Made c gets (c.call catalog x).2 := by
  cases x with
  | get id => exact ⟨_, .get id _, made_one c catalog id⟩
  | resolve id typeMod =>
    obtain ⟨gets, r, c', hrun, hwalked, hmade⟩ :=
      walked catalog id Resolving.maxDomainHops id typeMod c
    have hrun : Resolving.resolveDomain catalog id typeMod c = (r, c') := hrun
    simp only [call, hrun]
    exact ⟨gets, .resolve hwalked, hmade⟩

theorem calls_ask (c : TypeCache) (xs : List (Lookup × Call)) :
    ∃ asked : List (List Get × Answer), (c.calls xs).1 = asked.map (·.2) ∧
      List.Forall₂ (fun x a => x.2.Asks x.1 a) xs asked ∧
      Made c (asked.flatMap (·.1)) (c.calls xs).2 := by
  induction xs generalizing c with
  | nil => exact ⟨[], rfl, .nil, .start⟩
  | cons x rest ih =>
    obtain ⟨gets, hasks, hmade⟩ := call_asks x.1 c x.2
    obtain ⟨asked, hanswers, hrest, hmade'⟩ := ih (c.call x.1 x.2).2
    exact ⟨(gets, (c.call x.1 x.2).1) :: asked, congrArg _ hanswers, .cons hasks hrest,
      hmade.append hmade'⟩

/-- From a coherent cache every call answers as if the cache had never been used. -/
theorem call_coherent (hc : c.Coherent catalog) (x : Call) :
    (c.call catalog x).1 = (call catalog {} x).1 ∧ (c.call catalog x).2.Coherent catalog := by
  have hempty := coherent_empty catalog
  cases x with
  | get id =>
    have hyields : Resolving.Yields catalog (Resolving.descriptor catalog id) _ :=
      Resolving.yields_descriptor id
    obtain ⟨c₁, hrun, hc₁⟩ := hyields c hc
    obtain ⟨c₂, hrun', -⟩ := hyields {} hempty
    have hrun : c.get catalog id = (TypeCache.resolve catalog id, c₁) := hrun
    have hrun' : get catalog id {} = (TypeCache.resolve catalog id, c₂) := hrun'
    simp only [call, hrun, hrun']
    exact ⟨trivial, hc₁⟩
  | resolve id typeMod =>
    have hyields : Resolving.Yields catalog (Resolving.resolveDomain catalog id typeMod) _ :=
      Resolving.yields_resolveDomain id typeMod
    obtain ⟨c₁, hrun, hc₁⟩ := hyields c hc
    obtain ⟨c₂, hrun', -⟩ := hyields {} hempty
    simp only [call, hrun, hrun']
    exact ⟨trivial, hc₁⟩

theorem calls_coherent (hc : c.Coherent catalog) {xs : List (Lookup × Call)}
    (hsame : ∀ x ∈ xs, x.1 = catalog) :
    (c.calls xs).1 = xs.map fun x => (call catalog {} x.2).1 := by
  induction xs generalizing c with
  | nil => rfl
  | cons x rest ih =>
    obtain rfl := hsame x List.mem_cons_self
    obtain ⟨hanswer, hc'⟩ := call_coherent hc x.2
    rw [List.map_cons, ← hanswer, ← ih hc' fun y hy => hsame y (List.mem_cons_of_mem _ hy)]
    rfl

/-- Calls of a cache that was never used, each with the catalog of its time, come down to single
lookups: each call makes the lookups of its kind, and answers by their outcomes. Every lookup gives
the descriptor that the type had in the catalog at the first lookup that found one; as long as none
has, it asks the present catalog, whatever has failed before. After every single lookup the cache
keeps exactly what these first lookups have found, one descriptor for each type; the number of
lookups is that of hits and misses together, the number of insertions is that of the types that are
kept, and the misses are the insertions and the lookups that have failed. And as long as the catalog
stays the same, every call answers what it would answer with a cache that was never used. -/
theorem calls_transparent (xs : List (Lookup × Call)) :
    (∃ asked : List (List Get × Answer), (calls {} xs).1 = asked.map (·.2) ∧
      List.Forall₂ (fun x a => x.2.Asks x.1 a) xs asked ∧
      Made {} (asked.flatMap (·.1)) (calls {} xs).2 ∧
      (∀ before g after, asked.flatMap (·.1) = before ++ g :: after →
        g.outcome = outcomeAfter before g.catalog g.id) ∧
      ∀ before, before <+: asked.flatMap (·.1) → ∃ c, Made {} before c ∧ Tallied before c) ∧
    ∀ catalog, (∀ x ∈ xs, x.1 = catalog) →
      (calls {} xs).1 = xs.map fun x => (call catalog {} x.2).1 := by
  refine ⟨?_, fun catalog hsame => calls_coherent (coherent_empty catalog) hsame⟩
  obtain ⟨asked, hanswers, hasks, hmade⟩ := calls_ask {} xs
  refine ⟨asked, hanswers, hasks, hmade, (made_exact hmade).2, ?_⟩
  rintro before ⟨after, hall⟩
  rw [← hall] at hmade
  obtain ⟨c, hbefore⟩ := hmade.of_append
  exact ⟨c, hbefore, (made_exact hbefore).1⟩

end StoredRoutine.TypeCache
