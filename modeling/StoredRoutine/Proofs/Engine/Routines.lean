import StoredRoutine.Engine.Invoke
import StoredRoutine.Engine.Start
import StoredRoutine.Proofs.Catalog.Resolution
import StoredRoutine.Proofs.Host.Routines

/-!
# `StoredRoutine.Proofs.Engine.Routines`: compiled routines are those of the catalog

A routine that is kept was compiled from a definition that the host has had (`Compiled`), and the
stamp of a definition is that of no other one. So what counts as current by its stamp was compiled
from the very definition that the catalog has now, however often the routine was changed or failed
to compile in between (`cacheLaw_takeAll`).

Compiling is a function of the name and the source of a chunk here.
-/

set_option autoImplicit false

namespace StoredRoutine

open Script (Value)

/-! ### The cache -/

namespace RoutineCache

variable (c : RoutineCache) (id i : TypeId) (r : CompiledRoutine)

theorem find?_enter : (c.enter id r).find? i = if i = id then some r else c.find? i := by
  show ((id, r) :: c.entries.filter _).lookup i = _
  rw [List.lookup_cons, lookup_filter_key fun k => k != id]
  by_cases hi : i = id
  · simp [hi]
  · have hbeq : (i == id) = false := by simpa using hi
    simp [hi, hbeq, find?]

theorem find?_invalidate : (c.invalidate id).2.find? i = if i = id then none else c.find? i := by
  show (c.entries.filter _).lookup i = _
  rw [lookup_filter_key fun k => k != id]
  by_cases hi : i = id
  · simp [hi]
  · simp [hi, find?]

variable {c id r}

theorem current?_eq_some {stamp : RowStamp} :
    c.current? id stamp = some r ↔ c.find? id = some r ∧ r.stamp = stamp := by
  simp [current?, Option.filter_eq_some_iff]

end RoutineCache

/-! ### Checking a definition -/

namespace Serving

variable {α β : Type}

/-- A computation that changes nothing but the descriptors that are kept. -/
def Describes (x : Serving α) : Prop := ∀ e, ∃ r types, x e = (r, { e with types })

theorem describes_ofOutcome (o : Outcome α) : Describes (ofOutcome o) := fun e => by
  cases o <;> exact ⟨_, e.types, rfl⟩

theorem describes_converting (f : Border → Resolving α) : Describes (converting f) :=
  fun _ => ⟨_, _, rfl⟩

theorem Describes.bind {x : Serving α} {k : α → Serving β} (hx : Describes x)
    (hk : ∀ a, Describes (k a)) : Describes (x >>= k) := by
  intro e
  obtain ⟨r, types, hx⟩ := hx e
  rw [run_bind, hx]
  cases r with
  | error f => exact ⟨.error f, types, rfl⟩
  | ok a =>
    obtain ⟨r, types', hk⟩ := hk a { e with types }
    exact ⟨r, types', hk⟩

theorem describes_get {k : Engine → Serving β} (hk : ∀ e, Describes (k e)) :
    Describes (get >>= k) := fun e => hk e e

theorem describes_mapM {f : α → Serving β} (hf : ∀ a, Describes (f a)) (l : List α) :
    Describes (l.mapM f) := by
  induction l with
  | nil => exact describes_ofOutcome (.ok [])
  | cons a rest ih =>
    rw [List.mapM_cons]
    exact (hf a).bind fun b => ih.bind fun bs => describes_ofOutcome (.ok (b :: bs))

theorem describes_toDatum (v : Value) (id : TypeId) (typeMod : Int32) :
    Describes (toDatum v id typeMod) :=
  (describes_get fun _ => describes_ofOutcome _).bind fun _ => describes_converting _

theorem describes_forM {f : α → Serving PUnit} (hf : ∀ a, Describes (f a)) (l : List α) :
    Describes (l.forM f) := by
  induction l with
  | nil => exact fun e => ⟨.ok ⟨⟩, e.types, rfl⟩
  | cons a rest ih => exact (hf a).bind fun _ => ih

theorem describes_checkDefinition (d : RoutineDefinition) : Describes (checkDefinition d) := by
  refine (describes_forM (fun type => ?_) d.argTypes).bind fun _ => ?_
  · exact (describes_converting _).bind fun t => describes_ofOutcome _
  · refine (describes_converting _).bind fun result => (describes_ofOutcome _).bind fun _ => ?_
    split
    · exact describes_ofOutcome (.error _)
    · exact describes_ofOutcome (.ok ())

end Serving

/-! ### Steps -/

/-- What can happen to the routines that an engine keeps. -/
inductive CacheStep where
  /-- The host is told to do something. -/
  | host (op : HostOperation)
  | invalidate (id : TypeId)
  | lookup (id : TypeId)

namespace CacheStep

/-- What a step tells the host. -/
def operation? : CacheStep → Option HostOperation
  | host op => some op
  | _ => none

/-- What steps tell the host. -/
def operations (steps : List CacheStep) : List HostOperation := steps.filterMap operation?

theorem operations_append (before later : List CacheStep) :
    operations (before ++ later) = operations before ++ operations later :=
  List.filterMap_append

/-- The step ends what was compiled of a routine: it says anew what the routine is, or drops it. -/
def Resets (e : Engine) (id : TypeId) : CacheStep → Prop
  | host op => e.host.redefined? op = some id
  | invalidate i => i = id
  | lookup _ => False

end CacheStep

namespace Engine

open CacheStep (operations)

variable (compiler : String → String → Outcome Value) {e : Engine} {id : TypeId}

/-- Looks a routine up, with a compiler that is a function of the name and source of a chunk. -/
def lookup (e : Engine) (id : TypeId) : Outcome CompiledRoutine × Engine :=
  Serving.lookup (fun d => Serving.ofOutcome (compiler e.options.chunkName d.chunk)) id e

/-- The engine after a step, whatever it answered. -/
def take (e : Engine) : CacheStep → Engine
  | .host op => { e with host := e.host.perform op }
  | .invalidate id => (e.invalidate id).2
  | .lookup id => (e.lookup compiler id).2

/-- The engine after steps, one after the other. -/
def takeAll (e : Engine) (steps : List CacheStep) : Engine := steps.foldl (take compiler) e

/-- The compiled routine that is kept, if it is current. -/
def hit? (e : Engine) (id : TypeId) : Option CompiledRoutine :=
  (e.host.lookupRoutine id).bind fun d => e.routines.current? id d.stamp

/-- What a lookup can come to. -/
inductive Looked (e : Engine) (id : TypeId) : Outcome CompiledRoutine × Engine → Prop where
  | hit (r : CompiledRoutine) (hhit : e.hit? id = some r) : Looked e id (.ok r, e)
  | failed (f : Failure) (types : TypeCache) (hmiss : e.hit? id = none) :
    Looked e id (.error f, { e with types })
  | compiled (d : RoutineDefinition) (f : Value) (types : TypeCache) (hmiss : e.hit? id = none)
      (hd : e.host.lookupRoutine id = some d) (hf : compiler e.options.chunkName d.chunk = .ok f) :
    Looked e id (.ok (.ofDefinition d f),
      { e with types, routines := e.routines.enter id (.ofDefinition d f) })

theorem looked_lookup (e : Engine) (id : TypeId) :
    Looked compiler e id (e.lookup compiler id) := by
  unfold lookup Serving.lookup
  rw [run_bind, show (get : Serving Engine) e = (.ok e, e) from rfl]
  simp only
  cases hd : e.host.lookupRoutine id with
  | none =>
    have hmiss : e.hit? id = none := by rw [hit?, hd]; rfl
    exact .failed _ e.types hmiss
  | some d =>
    cases hcurrent : e.routines.current? id d.stamp with
    | some r =>
      have hhit : e.hit? id = some r := by rw [hit?, hd]; exact hcurrent
      simp only [hcurrent]
      exact .hit r hhit
    | none =>
      have hmiss : e.hit? id = none := by rw [hit?, hd]; exact hcurrent
      simp only [hcurrent]
      -- the types of the definition are looked up before its source is compiled
      obtain ⟨checked, types, hchecked⟩ := Serving.describes_checkDefinition d e
      rw [run_bind, hchecked]
      cases checked with
      | error f => exact .failed f types hmiss
      | ok _ =>
        simp only
        rw [run_bind]
        cases hf : compiler e.options.chunkName d.chunk with
        | error f => exact .failed f types hmiss
        | ok f => exact .compiled d f types hmiss hd hf

/-- A lookup changes nothing but what is kept. -/
theorem lookup_kept (e : Engine) (id : TypeId) :
    (e.lookup compiler id).2.host = e.host ∧ (e.lookup compiler id).2.options = e.options := by
  have hlooked := looked_lookup compiler e id
  generalize e.lookup compiler id = done at hlooked ⊢
  cases hlooked <;> exact ⟨rfl, rfl⟩

/-! ### Runs -/

variable {steps : List CacheStep}

theorem takeAll_append (e : Engine) (before later : List CacheStep) :
    e.takeAll compiler (before ++ later) = (e.takeAll compiler before).takeAll compiler later :=
  List.foldl_append

/-- The host is told the operations, and nothing else. -/
theorem takeAll_kept (e : Engine) (steps : List CacheStep) :
    (e.takeAll compiler steps).host = e.host.performAll (operations steps) ∧
      (e.takeAll compiler steps).options = e.options := by
  induction steps generalizing e with
  | nil => exact ⟨rfl, rfl⟩
  | cons s rest ih =>
    obtain ⟨hhost, hoptions⟩ := ih (e.take compiler s)
    show ((e.take compiler s).takeAll compiler rest).host = _ ∧
      ((e.take compiler s).takeAll compiler rest).options = _
    rw [hhost, hoptions]
    cases s with
    | host op => exact ⟨rfl, rfl⟩
    | invalidate id => exact ⟨rfl, rfl⟩
    | lookup id =>
      obtain ⟨hsame, hoptions⟩ := lookup_kept compiler e id
      exact ⟨congrArg (·.performAll (operations rest)) hsame, hoptions⟩

/-- A definition that the host has after steps. -/
theorem hasDefined_of_lookup {d : RoutineDefinition}
    (hd : (e.takeAll compiler steps).host.lookupRoutine id = some d) :
    e.host.HasDefined (operations steps) d := by
  rw [(takeAll_kept compiler e steps).1] at hd
  exact Host.hasDefined_now hd

/-- Everything that is kept was compiled from a definition that the host has had. -/
def Compiled (e : Engine) (ops : List HostOperation) (c : RoutineCache) : Prop :=
  ∀ id r, c.find? id = some r → ∃ d f,
    e.host.HasDefined ops d ∧ compiler e.options.chunkName d.chunk = .ok f ∧
      r = .ofDefinition d f

theorem compiled_takeAll (hnew : e.routines = {}) (steps : List CacheStep) :
    Compiled compiler e (operations steps) (e.takeAll compiler steps).routines := by
  induction steps using List.reverseRecOn with
  | nil =>
    intro id r hfind
    change e.routines.find? id = some r at hfind
    rw [hnew] at hfind
    exact nomatch hfind
  | append_singleton steps s ih =>
    -- what was kept before the step
    have hold : Compiled compiler e (operations (steps ++ [s]))
        (e.takeAll compiler steps).routines := by
      intro id r hfind
      obtain ⟨d, f, hd, hf, heq⟩ := ih id r hfind
      rw [CacheStep.operations_append]
      exact ⟨d, f, hd.append _, hf, heq⟩
    rw [takeAll_append]
    intro id r hfind
    change ((e.takeAll compiler steps).take compiler s).routines.find? id = some r at hfind
    cases s with
    | host op => exact hold id r hfind
    | invalidate i =>
      change ((e.takeAll compiler steps).routines.invalidate i).2.find? id = some r at hfind
      rw [RoutineCache.find?_invalidate] at hfind
      split at hfind
      · exact nomatch hfind
      · exact hold id r hfind
    | lookup i =>
      change ((e.takeAll compiler steps).lookup compiler i).2.routines.find? id = some r at hfind
      have hlooked := looked_lookup compiler (e.takeAll compiler steps) i
      generalize (e.takeAll compiler steps).lookup compiler i = done at hlooked hfind
      cases hlooked with
      | hit | failed => exact hold id r hfind
      | compiled d f types hmiss hd hf =>
        rw [RoutineCache.find?_enter] at hfind
        split at hfind
        · rw [(takeAll_kept compiler e steps).2] at hf
          rw [CacheStep.operations_append]
          exact ⟨d, f, (hasDefined_of_lookup compiler hd).append _, hf,
            (Option.some.inj hfind).symm⟩
        · exact hold id r hfind

/-- What counts as current was compiled from the definition of now. -/
theorem hit?_current (hnew : e.routines = {}) (hunused : e.host.Unused)
    (hfew : stampsTaken (operations steps) < 2 ^ 32 - 100) {r : CompiledRoutine}
    (hhit : (e.takeAll compiler steps).hit? id = some r) :
    ∃ d f, (e.takeAll compiler steps).host.lookupRoutine id = some d ∧
      compiler e.options.chunkName d.chunk = .ok f ∧ r = .ofDefinition d f := by
  obtain ⟨d, hd, hcurrent⟩ := Option.bind_eq_some_iff.mp hhit
  obtain ⟨hfind, hstamp⟩ := RoutineCache.current?_eq_some.mp hcurrent
  obtain ⟨d', f, hd', hf, rfl⟩ := compiled_takeAll compiler hnew steps id r hfind
  -- the definition of then and the one of now have one stamp
  obtain rfl := hunused.eq_of_stamp hfew hd' (hasDefined_of_lookup compiler hd) hstamp
  exact ⟨d', f, hd, hf, rfl⟩

/-- A definition that is new has a stamp that nothing kept has. -/
theorem current?_redefinition (hnew : e.routines = {}) (hunused : e.host.Unused)
    {op : HostOperation} {d : RoutineDefinition}
    (hfew : stampsTaken (operations steps ++ [op]) < 2 ^ 32 - 100)
    (hd : (e.takeAll compiler steps).host.redefinition op = some d) :
    (e.takeAll compiler steps).routines.current? id d.stamp = none := by
  cases hcurrent : (e.takeAll compiler steps).routines.current? id d.stamp with
  | none => rfl
  | some r =>
    obtain ⟨hfind, hstamp⟩ := RoutineCache.current?_eq_some.mp hcurrent
    obtain ⟨d', f, hd', -, rfl⟩ := compiled_takeAll compiler hnew steps id r hfind
    rw [(takeAll_kept compiler e steps).1] at hd
    obtain ⟨htransaction, hone⟩ := hunused.redefinition_transaction hfew hd
    have holder := hunused.older (by omega) hd'
    have hsame : d'.stamp = d.stamp := hstamp
    rw [hsame] at holder
    omega

/-! ### Hits -/

/-- A lookup that does not find a current form, and makes one. -/
def Compiles (e : Engine) (id : TypeId) : Prop :=
  e.hit? id = none ∧ ∃ r, (e.lookup compiler id).1 = .ok r

/-- In the course of steps the routine was compiled, and since then it was neither redefined nor
invalidated. -/
inductive CompiledSince (e : Engine) (id : TypeId) : List CacheStep → Prop where
  | now {before : List CacheStep} (h : (e.takeAll compiler before).Compiles compiler id) :
    CompiledSince e id (before ++ [.lookup id])
  | still {before : List CacheStep} {s : CacheStep} (h : CompiledSince e id before)
      (hs : ¬ s.Resets (e.takeAll compiler before) id) : CompiledSince e id (before ++ [s])

theorem not_compiledSince_nil : ¬ CompiledSince compiler e id [] := by
  intro h
  generalize hall : ([] : List CacheStep) = all at h
  cases h <;> simp at hall

theorem compiledSince_append {s : CacheStep} : CompiledSince compiler e id (steps ++ [s]) ↔
    (s = .lookup id ∧ (e.takeAll compiler steps).Compiles compiler id) ∨
      CompiledSince compiler e id steps ∧ ¬ s.Resets (e.takeAll compiler steps) id := by
  constructor
  · intro h
    generalize hall : steps ++ [s] = all at h
    cases h with
    | now h =>
      obtain ⟨rfl, hs⟩ := List.append_inj' hall rfl
      exact .inl ⟨List.cons.inj hs |>.1, h⟩
    | still h hs =>
      obtain ⟨rfl, hlast⟩ := List.append_inj' hall rfl
      obtain ⟨rfl, -⟩ := List.cons.inj hlast
      exact .inr ⟨h, hs⟩
  · rintro (⟨rfl, h⟩ | ⟨h, hs⟩)
    · exact .now h
    · exact .still h hs

section OneStep

variable {m : Engine}

/-- After an operation of the host: a definition that it has replaced has a new stamp. -/
theorem hit?_take_host {op : HostOperation}
    (hnever : ∀ d, m.host.redefinition op = some d → m.routines.current? id d.stamp = none) :
    ((m.take compiler (.host op)).hit? id).isSome ↔
      (m.hit? id).isSome ∧ m.host.redefined? op ≠ some id := by
  have hafter : (m.take compiler (.host op)).hit? id =
      ((m.host.perform op).lookupRoutine id).bind fun d => m.routines.current? id d.stamp := rfl
  rw [hafter, Host.lookupRoutine_perform]
  split
  next hredefined =>
    have hgone : ((m.host.redefinition op).bind fun d => m.routines.current? id d.stamp) = none :=
      Option.bind_eq_none_iff.mpr hnever
    simp [hgone, hredefined]
  next hother => simp [hother, hit?]

/-- After a routine is invalidated. -/
theorem hit?_take_invalidate (i : TypeId) :
    ((m.take compiler (.invalidate i)).hit? id).isSome ↔ (m.hit? id).isSome ∧ i ≠ id := by
  have hafter : (m.take compiler (.invalidate i)).hit? id =
      (m.host.lookupRoutine id).bind fun d =>
        (m.routines.invalidate i).2.current? id d.stamp := rfl
  rw [hafter]
  unfold RoutineCache.current?
  rw [RoutineCache.find?_invalidate]
  by_cases hi : id = i
  · simp [hi]
  · simp [hi, Ne.symm hi, hit?, RoutineCache.current?]

/-- After a lookup: what it has compiled is a hit from now on, and nothing else changes. -/
theorem hit?_take_lookup (i : TypeId) :
    ((m.take compiler (.lookup i)).hit? id).isSome ↔
      (i = id ∧ m.Compiles compiler i) ∨ (m.hit? id).isSome := by
  show ((m.lookup compiler i).2.hit? id).isSome ↔ _
  have hcompiles : m.Compiles compiler i ↔
      m.hit? i = none ∧ ∃ r, (m.lookup compiler i).1 = .ok r :=
    Iff.rfl
  have hlooked := looked_lookup compiler m i
  generalize m.lookup compiler i = done at hlooked hcompiles ⊢
  cases hlooked with
  | hit r hhit =>
    -- a lookup that compiles nothing leaves what is kept alone
    have hno : ¬ m.Compiles compiler i := fun hyes => by
      rw [(hcompiles.mp hyes).1] at hhit
      exact nomatch hhit
    simp [hno]
  | failed f types hmiss =>
    have hno : ¬ m.Compiles compiler i := fun hyes => by
      obtain ⟨r, hr⟩ := (hcompiles.mp hyes).2
      exact nomatch hr
    simp [hno, hit?]
  | compiled d f types hmiss hd hf =>
    show ((m.host.lookupRoutine id).bind fun d' =>
      (m.routines.enter i (.ofDefinition d f)).current? id d'.stamp).isSome ↔ _
    unfold RoutineCache.current?
    rw [RoutineCache.find?_enter]
    by_cases hi : id = i
    · subst hi
      have hyes := hcompiles.mpr ⟨hmiss, _, rfl⟩
      simp [hd, hyes, CompiledRoutine.ofDefinition]
    · simp [hi, Ne.symm hi, hit?, RoutineCache.current?]

/-- What is a hit after one more step. -/
theorem hit?_take {s : CacheStep}
    (hnever : ∀ op d, s = .host op → m.host.redefinition op = some d →
      m.routines.current? id d.stamp = none) :
    ((m.take compiler s).hit? id).isSome ↔
      (s = .lookup id ∧ m.Compiles compiler id) ∨
        (m.hit? id).isSome ∧ ¬ s.Resets m id := by
  cases s with
  | host op =>
    rw [hit?_take_host compiler fun d => hnever op d rfl]
    simp [CacheStep.Resets]
  | invalidate i =>
    rw [hit?_take_invalidate]
    simp [CacheStep.Resets]
  | lookup i =>
    rw [hit?_take_lookup]
    by_cases hi : i = id
    · simp [CacheStep.Resets, hi]
    · simp [CacheStep.Resets, hi]

end OneStep

theorem hit?_isSome_iff (hnew : e.routines = {}) (hunused : e.host.Unused)
    (hfew : stampsTaken (operations steps) < 2 ^ 32 - 100) :
    ((e.takeAll compiler steps).hit? id).isSome ↔ CompiledSince compiler e id steps := by
  induction steps using List.reverseRecOn with
  | nil =>
    have hnone : e.hit? id = none := by
      refine Option.bind_eq_none_iff.mpr fun d _ => ?_
      rw [hnew]
      rfl
    show (e.hit? id).isSome ↔ _
    simp [hnone, not_compiledSince_nil]
  | append_singleton steps s ih =>
    rw [CacheStep.operations_append] at hfew
    have hbefore : stampsTaken (operations steps) < 2 ^ 32 - 100 := by
      rw [Host.stampsTaken_append] at hfew
      omega
    rw [takeAll_append, compiledSince_append, ← ih hbefore]
    refine hit?_take compiler fun op d hop hd => ?_
    subst hop
    exact current?_redefinition compiler hnew hunused hfew hd

/-! ### The law of the cache -/

/-- What holds of a lookup at the end of steps. -/
structure CacheLaw (e : Engine) (steps : List CacheStep) (id : TypeId) : Prop where
  /-- The answer is the compiled form of the definition of the moment. -/
  current : ∀ r, ((e.takeAll compiler steps).lookup compiler id).1 = .ok r →
    ∃ d f, (e.takeAll compiler steps).host.lookupRoutine id = some d ∧
      compiler e.options.chunkName d.chunk = .ok f ∧ r = .ofDefinition d f
  /-- What fails leaves the entries and the counter alone. -/
  failed : ∀ f, ((e.takeAll compiler steps).lookup compiler id).1 = .error f →
    ((e.takeAll compiler steps).lookup compiler id).2.routines = (e.takeAll compiler steps).routines
  /-- A hit is answered, and leaves them alone. -/
  hit : ∀ r, (e.takeAll compiler steps).hit? id = some r →
    (e.takeAll compiler steps).lookup compiler id = (.ok r, e.takeAll compiler steps)
  /-- A lookup that goes well and is no hit is counted once. -/
  counted : ∀ r, ((e.takeAll compiler steps).lookup compiler id).1 = .ok r →
    (e.takeAll compiler steps).hit? id = none →
    ((e.takeAll compiler steps).lookup compiler id).2.routines.compiles =
      (e.takeAll compiler steps).routines.compiles + 1
  /-- A lookup is a hit if the routine was compiled since it was last redefined, and not
  invalidated since, and only then. -/
  hit_iff : ((e.takeAll compiler steps).hit? id).isSome ↔ CompiledSince compiler e id steps
  /-- Different definitions of the routine have different stamps. -/
  distinct : ∀ before later before' later' d d',
    steps = before ++ later → steps = before' ++ later' →
    (e.takeAll compiler before).host.lookupRoutine id = some d →
    (e.takeAll compiler before').host.lookupRoutine id = some d' →
    d.stamp = d'.stamp → d = d'

/-- Whatever happened to the routines that an engine keeps, lookups obey the law, as long as the
transactions do not run out. -/
theorem cacheLaw_takeAll (e : Engine) (hnew : e.routines = {}) (hunused : e.host.Unused)
    (steps : List CacheStep) (hfew : stampsTaken (operations steps) < 2 ^ 32 - 100) (id : TypeId) :
    CacheLaw compiler e steps id := by
  have hlooked := looked_lookup compiler (e.takeAll compiler steps) id
  have hoptions := (takeAll_kept compiler e steps).2
  exact {
    current := by
      intro r hr
      generalize (e.takeAll compiler steps).lookup compiler id = done at hlooked hr
      cases hlooked with
      | hit r' hhit =>
        obtain rfl := Except.ok.inj hr
        exact hit?_current compiler hnew hunused hfew hhit
      | failed f types hmiss => exact nomatch hr
      | compiled d f types hmiss hd hf =>
        rw [hoptions] at hf
        exact ⟨d, f, hd, hf, (Except.ok.inj hr).symm⟩
    failed := by
      intro f hf
      generalize (e.takeAll compiler steps).lookup compiler id = done at hlooked hf ⊢
      cases hlooked with
      | hit | compiled => exact nomatch hf
      | failed f types hmiss => rfl
    hit := by
      intro r hhit
      generalize (e.takeAll compiler steps).lookup compiler id = done at hlooked ⊢
      cases hlooked with
      | hit r' hhit' => rw [Option.some.inj (hhit'.symm.trans hhit)]
      | failed _ _ hmiss | compiled _ _ _ hmiss => exact nomatch hhit.symm.trans hmiss
    counted := by
      intro r hr hmiss
      generalize (e.takeAll compiler steps).lookup compiler id = done at hlooked hr ⊢
      cases hlooked with
      | hit r' hhit => exact nomatch hhit.symm.trans hmiss
      | failed f types hmiss => exact nomatch hr
      | compiled d f types hmiss hd hf => rfl
    hit_iff := hit?_isSome_iff compiler hnew hunused hfew
    distinct := by
      intro before later before' later' d d' heq heq' hd hd' hstamp
      -- both definitions were made in the course of all steps, and stamps are not used twice there
      have hin : e.host.HasDefined (operations steps) d := by
        rw [heq, CacheStep.operations_append]
        exact (hasDefined_of_lookup compiler hd).append _
      have hin' : e.host.HasDefined (operations steps) d' := by
        rw [heq', CacheStep.operations_append]
        exact (hasDefined_of_lookup compiler hd').append _
      exact hunused.eq_of_stamp hfew hin hin' hstamp }

/-- A routine whose source is replaced after it was compiled is compiled once more. -/
theorem cacheLaw_takeAll_replaced :
    let compiler : String → String → Outcome Value := fun _ _ => .ok (.bool true)
    let d : RoutineDefinition :=
      { id := 0, name := "one", source := "return 1", argNames := [], argTypes := [],
        resultType := Scalar.int4.id, returnsSet := false, stamp := .ofTransaction 0 }
    let steps : List CacheStep :=
      [.host (.createRoutine d), .lookup 16384, .host (.replaceSource 16384 "return 2")]
    let e : Engine := bare {} .new
    CacheLaw compiler e steps 16384 ∧ stampsTaken (operations steps) = 2 ∧
      (e.takeAll compiler steps).routines.compiles = 1 ∧
      ((e.takeAll compiler steps).lookup compiler 16384).2.routines.compiles = 2 :=
  ⟨cacheLaw_takeAll _ (bare {} .new) rfl Host.unused_new _ (by decide) 16384, rfl, rfl, rfl⟩

end Engine

end StoredRoutine
