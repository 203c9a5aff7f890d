import Mathlib.Data.List.Nodup
import StoredRoutine.Engine.SetCall

/-!
# `StoredRoutine.Proofs.Engine.Registry`: entries of the registry and executions

`Engine.Registered` relates the cleanup registry to the objects and the executions of an engine. The
entries have names of their own, and so have the executions. Each execution has one entry, which
would drop it, and there is no such entry beside these. A cursor may name its entry after the end of
the transaction, when the entry has gone, but never that of an execution (`NoExecution`). So when a
cursor is closed no execution loses its entry.

An entry goes away with its execution (`Registered.dropExecution`), or is that of a cursor
(`Registered.dropCursor`).
-/

set_option autoImplicit false

namespace StoredRoutine

/-- The names of entries that an object has. -/
def Object.cleanups : Object → List CleanupId
  | .cursor c => c.cleanup.toList
  | .iterator i => i.cursor.cleanup.toList
  | _ => []

namespace CleanupRegistry

variable {α : Type} {r : CleanupRegistry α}

/-- The registry without the entry of a name. -/
def without (r : CleanupRegistry α) (c : CleanupId) : CleanupRegistry α :=
  { r with entries := r.entries.filter fun x => decide (x.1 ≠ c) }

theorem mem_without {c : CleanupId} {x : CleanupId × α} :
    x ∈ (r.without c).entries ↔ x ∈ r.entries ∧ x.1 ≠ c := by
  unfold without
  rw [List.mem_filter, decide_eq_true_iff]

/-- To remove the first entry of a name is to remove all of them, if names are not used twice. -/
theorem eraseP_eq_filter {l : List (CleanupId × α)} (hl : (l.map (·.1)).Nodup) (c : CleanupId) :
    (l.eraseP fun x => x.1 == c) = l.filter fun x => decide (x.1 ≠ c) := by
  induction l with
  | nil => rfl
  | cons x rest ih =>
    rw [List.map_cons, List.nodup_cons] at hl
    by_cases hx : x.1 = c
    · have hrest : ∀ y ∈ rest, y.1 ≠ c := fun y hy heq =>
        hl.1 (List.mem_map.mpr ⟨y, hy, heq.trans hx.symm⟩)
      rw [List.eraseP_cons_of_pos (by simpa using hx), List.filter_cons_of_neg (by simpa using hx)]
      exact (List.filter_eq_self.mpr fun y hy => by simpa using hrest y hy).symm
    · rw [List.eraseP_cons_of_neg (by simpa using hx), List.filter_cons_of_pos (by simpa using hx),
        ih hl.2]

theorem unregister_eq (hr : (r.entries.map (·.1)).Nodup) (c : CleanupId) :
    (r.unregister c).2 = r.without c := by
  unfold unregister without
  rw [eraseP_eq_filter hr]

/-- The newest entry is the only one of its name. -/
theorem without_head {c : CleanupId} {a : α} {rest : List (CleanupId × α)}
    (hr : (((c, a) :: rest).map (·.1)).Nodup) (next : Nat) :
    without ⟨(c, a) :: rest, next⟩ c = ⟨rest, next⟩ := by
  have herased := eraseP_eq_filter hr c
  rw [List.eraseP_cons_of_pos (by simp)] at herased
  unfold without
  rw [← herased]

end CleanupRegistry

namespace Engine

/-- A name that a cursor may have: it has been given, and no execution has it. -/
def NoExecution (r : CleanupRegistry CleanupAction) (c : CleanupId) : Prop :=
  c.number < r.next ∧ ∀ id, (c, .dropExecution id) ∉ r.entries

/-- What the registry has to do with objects and executions. -/
structure Registered (r : CleanupRegistry CleanupAction) (objects : Array Object)
    (executions : List (ExecutionId × Execution)) (started : Nat) : Prop where
  entries : (r.entries.map (·.1)).Nodup
  given : ∀ x ∈ r.entries, x.1.number < r.next
  cursors : ∀ o ∈ objects, ∀ c ∈ o.cleanups, NoExecution r c
  distinct : (executions.map (·.1)).Nodup
  numbered : ∀ x ∈ executions, x.1.number ≤ started
  matched : ∀ c id, (c, .dropExecution id) ∈ r.entries ↔ ∃ x, (id, x) ∈ executions ∧ x.cleanup = c

namespace Registered

variable {r : CleanupRegistry CleanupAction} {objects : Array Object}
  {executions : List (ExecutionId × Execution)} {started : Nat}

/-- An engine that has registered nothing. -/
theorem empty : Registered {} #[] [] 0 where
  entries := List.nodup_nil
  given x hx := absurd hx List.not_mem_nil
  cursors o ho := by simp at ho
  distinct := List.nodup_nil
  numbered x hx := absurd hx List.not_mem_nil
  matched c id := by simp

/-- Of two executions of one name, both are the same. -/
theorem execution_eq (h : Registered r objects executions started) {id : ExecutionId}
    {x y : Execution} (hx : (id, x) ∈ executions) (hy : (id, y) ∈ executions) : x = y :=
  congrArg Prod.snd (List.inj_on_of_nodup_map h.distinct hx hy rfl)

/-- Objects may change, as long as they name no entries but those that were named. -/
theorem withObjects (h : Registered r objects executions started) {objects' : Array Object}
    (hsame : ∀ o ∈ objects', ∀ c ∈ o.cleanups, NoExecution r c) :
    Registered r objects' executions started where
  entries := h.entries
  given := h.given
  cursors := hsame
  distinct := h.distinct
  numbered := h.numbered
  matched := h.matched

/-- A new object. -/
theorem pushObject (h : Registered r objects executions started) {o : Object}
    (ho : ∀ c ∈ o.cleanups, NoExecution r c) :
    Registered r (objects.push o) executions started := by
  refine h.withObjects fun p hp c hc => ?_
  rcases Array.mem_push.mp hp with hp | rfl
  · exact h.cursors p hp c hc
  · exact ho c hc

/-! ### New entries -/

theorem noExecution_register {c : CleanupId} (hc : NoExecution r c) (action : CleanupAction) :
    NoExecution (r.register action).2 c := by
  refine ⟨Nat.lt_succ_of_lt hc.1, fun id hin => ?_⟩
  rcases List.mem_cons.mp hin with heq | hin
  · obtain ⟨rfl, -⟩ := Prod.mk.inj heq
    exact Nat.lt_irrefl _ hc.1
  · exact hc.2 id hin

/-- The name of a new entry is that of no other one. -/
theorem nodup_register (h : Registered r objects executions started) (action : CleanupAction) :
    ((r.register action).2.entries.map (·.1)).Nodup ∧
      ∀ x ∈ (r.register action).2.entries, x.1.number < (r.register action).2.next := by
  constructor
  · refine List.nodup_cons.mpr ⟨fun hin => ?_, h.entries⟩
    obtain ⟨x, hx, heq⟩ := List.mem_map.mp hin
    have hlt := h.given x hx
    rw [heq] at hlt
    exact Nat.lt_irrefl _ hlt
  · intro x hx
    rcases List.mem_cons.mp hx with rfl | hx
    · exact Nat.lt_succ_self _
    · exact Nat.lt_succ_of_lt (h.given x hx)

/-- A cursor is registered. -/
theorem registerCursor (h : Registered r objects executions started) (object : Script.ObjectId) :
    Registered (r.register (.closeCursor object)).2 objects executions started ∧
      NoExecution (r.register (.closeCursor object)).2 (r.register (.closeCursor object)).1 := by
  have hnodup := h.nodup_register (.closeCursor object)
  have hsame : ∀ c id, (c, .dropExecution id) ∈ (r.register (.closeCursor object)).2.entries ↔
      (c, .dropExecution id) ∈ r.entries := fun c id => by
    unfold CleanupRegistry.register
    simp
  refine ⟨⟨hnodup.1, hnodup.2, fun o ho c hc => noExecution_register (h.cursors o ho c hc) _,
    h.distinct, h.numbered, fun c id => (hsame c id).trans (h.matched c id)⟩,
    Nat.lt_succ_self _, fun id hin => ?_⟩
  have hlt := h.given _ ((hsame _ id).mp hin)
  exact Nat.lt_irrefl _ hlt

/-- A new execution is registered. -/
theorem addExecution (h : Registered r objects executions started) (thread : Script.ThreadId) :
    Registered (r.register (.dropExecution ⟨started + 1⟩)).2 objects
      ((⟨started + 1⟩, { thread, cleanup := (r.register (.dropExecution ⟨started + 1⟩)).1 }) ::
        executions) (started + 1) where
  entries := (h.nodup_register _).1
  given := (h.nodup_register _).2
  cursors o ho c hc := noExecution_register (h.cursors o ho c hc) _
  distinct := by
    refine List.nodup_cons.mpr ⟨fun hin => ?_, h.distinct⟩
    -- the executions that are there have lower numbers
    obtain ⟨x, hx, heq⟩ := List.mem_map.mp hin
    have hle := h.numbered x hx
    rw [heq] at hle
    exact Nat.lt_irrefl _ hle
  numbered x hx := by
    rcases List.mem_cons.mp hx with rfl | hx
    · exact Nat.le_refl _
    · exact Nat.le_succ_of_le (h.numbered x hx)
  matched c id := by
    show (c, CleanupAction.dropExecution id) ∈ _ :: r.entries ↔ _
    simp only [List.mem_cons, Prod.mk.injEq, CleanupAction.dropExecution.injEq, h.matched]
    constructor
    · rintro (⟨rfl, rfl⟩ | ⟨x, hx, hc⟩)
      · exact ⟨_, .inl ⟨rfl, rfl⟩, rfl⟩
      · exact ⟨x, .inr hx, hc⟩
    · rintro ⟨x, ⟨rfl, rfl⟩ | hx, rfl⟩
      · exact .inl ⟨rfl, rfl⟩
      · exact .inr ⟨x, hx, rfl⟩

/-! ### Entries that go -/

theorem noExecution_without {c : CleanupId} (hc : NoExecution r c) (d : CleanupId) :
    NoExecution (r.without d) c :=
  ⟨hc.1, fun id hin => hc.2 id (CleanupRegistry.mem_without.mp hin).1⟩

/-- The names that are left are still used once. -/
theorem nodup_without (h : Registered r objects executions started) (c : CleanupId) :
    ((r.without c).entries.map (·.1)).Nodup :=
  h.entries.sublist (List.filter_sublist.map _)

/-- The entry of a cursor goes, if it is still there. -/
theorem dropCursor (h : Registered r objects executions started) {c : CleanupId}
    (hc : ∀ id, (c, .dropExecution id) ∉ r.entries) :
    Registered (r.without c) objects executions started where
  entries := h.nodup_without c
  given x hx := h.given x (CleanupRegistry.mem_without.mp hx).1
  cursors o ho d hd := noExecution_without (h.cursors o ho d hd) c
  distinct := h.distinct
  numbered := h.numbered
  matched d id := by
    rw [CleanupRegistry.mem_without, ← h.matched]
    exact ⟨And.left, fun hin => ⟨hin, fun heq => hc id (heq ▸ hin)⟩⟩

/-- An execution goes with its entry. -/
theorem dropExecution (h : Registered r objects executions started) {c : CleanupId}
    {id : ExecutionId} (hc : (c, .dropExecution id) ∈ r.entries) :
    Registered (r.without c) objects (executions.filter fun x => decide (x.1 ≠ id)) started where
  entries := h.nodup_without c
  given x hx := h.given x (CleanupRegistry.mem_without.mp hx).1
  cursors o ho d hd := noExecution_without (h.cursors o ho d hd) c
  distinct := h.distinct.sublist (List.filter_sublist.map _)
  numbered x hx := h.numbered x (List.mem_filter.mp hx).1
  matched d other := by
    obtain ⟨x, hx, rfl⟩ := (h.matched c id).mp hc
    rw [CleanupRegistry.mem_without, h.matched]
    constructor
    · rintro ⟨⟨y, hy, rfl⟩, hne⟩
      refine ⟨y, List.mem_filter.mpr ⟨hy, decide_eq_true fun heq => hne ?_⟩, rfl⟩
      -- the two are executions of one name
      obtain rfl : other = id := heq
      rw [h.execution_eq hx hy]
    · rintro ⟨y, hy, rfl⟩
      obtain ⟨hy, hne⟩ := List.mem_filter.mp hy
      refine ⟨⟨y, hy, rfl⟩, fun heq => of_decide_eq_true hne ?_⟩
      -- entries of one name are the same
      have hentry := List.inj_on_of_nodup_map h.entries ((h.matched _ _).mpr ⟨y, hy, rfl⟩) hc heq
      exact CleanupAction.dropExecution.inj (Prod.mk.inj hentry).2

end Registered

end Engine

end StoredRoutine
