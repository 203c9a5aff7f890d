import Mathlib.Data.List.Perm.Basic
import StoredRoutine.Proofs.Engine.Reach
import StoredRoutine.Proofs.Engine.Watched

/-!
# `StoredRoutine.Proofs.Engine.Pending`: what is in the registry of cleanups

An entry of the registry goes in four ways. A cursor is closed, an object is collected, a call of a
set ends or is abandoned, and a transaction ends. They may come in any order, also for one object:
a cursor that was closed at the end of a transaction is collected later, and still names an entry
that has gone. Names of entries are never used twice, so this does no harm.

`Engine.Accounts` relates the registry to the cursors and the executions of an engine, and each of
the four ways keeps it. `Engine.LeadsTo` lists all that can happen to an engine, with objects
collected at any moment, also while services and scripts are at work. Whatever has happened since
an engine was made, the entries are those of its open cursors and of its executions, one for each
(`pending_exact`).
-/

set_option autoImplicit false

namespace StoredRoutine

open Script (ObjectId Service ThreadId Value)

namespace Engine

variable {e e' : Engine}

/-! ### Cursors -/

/-- The cursor of an object. -/
def cursor? (e : Engine) (id : ObjectId) : Option Cursor := (e.object? id).bind Object.cursor?

/-- Whether an object has a cursor that is open. -/
def isOpen (e : Engine) (id : ObjectId) : Bool := (e.cursor? id).any fun c => !c.closed

/-- The objects with open cursors. -/
def openCursors (e : Engine) : List ObjectId :=
  ((List.range e.objects.size).map ObjectId.mk).filter e.isOpen

/-- Collects an object to which no script has a reference any more. The entry of its cursor goes, if
it is still there, and the portal stays open. What is left of the object is of no use. -/
def collect (e : Engine) (id : ObjectId) : Engine :=
  match e.cursor? id with
  | none => e
  | some c =>
    { e with
      objects := e.objects.modify id.index (.mapCursor .shut)
      cleanups := c.cleanup.elim e.cleanups fun cleanup => (e.cleanups.unregister cleanup).2 }

theorem isOpen_iff {id : ObjectId} :
    e.isOpen id = true ↔ ∃ c, e.cursor? id = some c ∧ c.closed = false := by
  unfold isOpen
  simp [Option.any_eq_true]

theorem mem_openCursors {id : ObjectId} :
    id ∈ e.openCursors ↔ ∃ c, e.cursor? id = some c ∧ c.closed = false := by
  unfold openCursors
  rw [List.mem_filter, isOpen_iff, and_iff_right_of_imp]
  rintro ⟨c, hc, -⟩
  obtain ⟨o, ho, -⟩ := Option.bind_eq_some_iff.mp hc
  have hsize : id.index < e.objects.size := (Array.getElem?_eq_some_iff.mp ho).1
  exact List.mem_map.mpr ⟨id.index, List.mem_range.mpr hsize, rfl⟩

theorem nodup_openCursors (e : Engine) : e.openCursors.Nodup := by
  refine List.Nodup.filter _ (List.nodup_range.map fun i j heq => ?_)
  exact ObjectId.mk.inj heq

theorem cursor?_of_objects (hobjects : e'.objects = e.objects) : e'.cursor? = e.cursor? := by
  unfold cursor? object?
  rw [hobjects]

/-- A new object is the last one. -/
theorem cursor?_push {o : Object} (hobjects : e'.objects = e.objects.push o) (id : ObjectId) :
    e'.cursor? id = if id.index = e.objects.size then o.cursor? else e.cursor? id := by
  unfold cursor? object?
  rw [hobjects, Array.getElem?_push]
  split <;> rfl

theorem cursor?_modify {f : Object → Object} {id : ObjectId}
    (hobjects : e'.objects = e.objects.modify id.index f) (other : ObjectId) :
    e'.cursor? other =
      if other = id then (e.object? id).bind fun o => (f o).cursor? else e.cursor? other := by
  unfold cursor? object?
  rw [hobjects, Array.getElem?_modify]
  by_cases hid : other = id
  · subst hid
    rw [if_pos rfl, if_pos rfl, Option.bind_map]
    rfl
  · rw [if_neg hid, if_neg fun heq => hid (congrArg ObjectId.mk heq.symm)]

/-! ### Entries -/

/-- What the entries of a registry have to do with cursors and executions. -/
structure Accounts (r : CleanupRegistry CleanupAction) (cursors : ObjectId → Option Cursor)
    (executions : List (ExecutionId × Execution)) (started : Nat) : Prop where
  names : (r.entries.map (·.1)).Nodup
  given : ∀ x ∈ r.entries, x.1.number < r.next
  /-- The entries of cursors are those of the open ones. -/
  cursor : ∀ cleanup id, (cleanup, .closeCursor id) ∈ r.entries ↔
    ∃ c, cursors id = some c ∧ c.closed = false ∧ c.cleanup = some cleanup
  named : ∀ id c, cursors id = some c → c.closed = false → c.cleanup ≠ none
  /-- A closed cursor may still name an entry, but that has gone. -/
  stale : ∀ id c cleanup, cursors id = some c → c.closed = true → c.cleanup = some cleanup →
    cleanup.number < r.next ∧ cleanup ∉ r.entries.map (·.1)
  execution : ∀ cleanup id, (cleanup, .dropExecution id) ∈ r.entries ↔
    ∃ x, (id, x) ∈ executions ∧ x.cleanup = cleanup
  distinct : (executions.map (·.1)).Nodup
  numbered : ∀ x ∈ executions, x.1.number ≤ started

/-- The entries are those of the cursors and the executions of the engine. -/
def Accounted (e : Engine) : Prop := Accounts e.cleanups e.cursor? e.executions e.started

namespace Accounts

variable {r : CleanupRegistry CleanupAction} {cursors cursors' : ObjectId → Option Cursor}
  {executions : List (ExecutionId × Execution)} {started : Nat}

theorem empty : Accounts {} (fun _ => none) [] 0 where
  names := List.nodup_nil
  given x hx := absurd hx List.not_mem_nil
  cursor cleanup id := by simp
  named id c hc := by cases hc
  stale id c cleanup hc := by cases hc
  execution cleanup id := by simp
  distinct := List.nodup_nil
  numbered x hx := absurd hx List.not_mem_nil

/-- No cursor names an entry that is still to come. -/
theorem cleanup_lt (h : Accounts r cursors executions started) {id : ObjectId} {c : Cursor}
    {cleanup : CleanupId} (hc : cursors id = some c) (hcleanup : c.cleanup = some cleanup) :
    cleanup.number < r.next := by
  cases hclosed : c.closed with
  | true => exact (h.stale id c cleanup hc hclosed hcleanup).1
  | false => exact h.given _ ((h.cursor cleanup id).mpr ⟨c, hc, hclosed, hcleanup⟩)

/-- Entries of one name are the same. -/
theorem entry_eq (h : Accounts r cursors executions started) {x y : CleanupId × CleanupAction}
    (hx : x ∈ r.entries) (hy : y ∈ r.entries) (heq : x.1 = y.1) : x = y :=
  List.inj_on_of_nodup_map h.names hx hy heq

/-- An entry that is named by a cursor is its own. -/
theorem action_eq (h : Accounts r cursors executions started) {id : ObjectId} {c : Cursor}
    (hc : cursors id = some c) {x : CleanupId × CleanupAction} (hx : x ∈ r.entries)
    (hname : c.cleanup = some x.1) : x.2 = .closeCursor id := by
  cases hclosed : c.closed with
  | true => exact absurd (List.mem_map_of_mem hx) (h.stale id c x.1 hc hclosed hname).2
  | false =>
    have hown := (h.cursor x.1 id).mpr ⟨c, hc, hclosed, hname⟩
    exact congrArg Prod.snd (h.entry_eq hx hown rfl)

/-! ### New entries -/

theorem nodup_register (h : Accounts r cursors executions started) (action : CleanupAction) :
    ((r.register action).2.entries.map (·.1)).Nodup := by
  refine List.nodup_cons.mpr ⟨fun hin => ?_, h.names⟩
  obtain ⟨x, hx, heq⟩ := List.mem_map.mp hin
  have hlt := h.given x hx
  rw [heq] at hlt
  exact Nat.lt_irrefl _ hlt

theorem given_register (h : Accounts r cursors executions started) (action : CleanupAction) :
    ∀ x ∈ (r.register action).2.entries, x.1.number < (r.register action).2.next := by
  intro x hx
  rcases List.mem_cons.mp hx with rfl | hx
  · exact Nat.lt_succ_self _
  · exact Nat.lt_succ_of_lt (h.given x hx)

/-- An entry that has gone does not come back. -/
theorem stale_register (h : Accounts r cursors executions started) (action : CleanupAction)
    {id : ObjectId} {c : Cursor} {cleanup : CleanupId} (hc : cursors id = some c)
    (hclosed : c.closed = true) (hcleanup : c.cleanup = some cleanup) :
    cleanup.number < (r.register action).2.next ∧
      cleanup ∉ (r.register action).2.entries.map (·.1) := by
  obtain ⟨hlt, hgone⟩ := h.stale id c cleanup hc hclosed hcleanup
  refine ⟨Nat.lt_succ_of_lt hlt, fun hin => ?_⟩
  rcases List.mem_cons.mp hin with rfl | hin
  · exact Nat.lt_irrefl _ hlt
  · exact hgone hin

/-- A new cursor is registered. -/
theorem attach (h : Accounts r cursors executions started) {id : ObjectId} {name : String}
    (hnew : cursors id = none)
    (hid : cursors' id = some { name, cleanup := some (r.register (.closeCursor id)).1 })
    (hother : ∀ other, other ≠ id → cursors' other = cursors other) :
    Accounts (r.register (.closeCursor id)).2 cursors' executions started where
  names := h.nodup_register _
  given := h.given_register _
  cursor cleanup other := by
    show (cleanup, CleanupAction.closeCursor other) ∈ _ :: r.entries ↔ _
    rw [List.mem_cons, h.cursor]
    -- only the new cursor has the new entry, and it had none before
    by_cases heq : other = id
    · subst heq
      rw [hid, hnew]
      constructor
      · rintro (heq | ⟨c, hc, -⟩)
        · exact ⟨_, rfl, rfl, congrArg some (Prod.mk.inj heq).1.symm⟩
        · cases hc
      · rintro ⟨c, hc, -, hcleanup⟩
        cases hc
        exact .inl (Prod.ext (Option.some.inj hcleanup).symm rfl)
    · rw [hother other heq, or_iff_right]
      exact fun hsame => heq (CleanupAction.closeCursor.inj (Prod.mk.inj hsame).2)
  named other c hc hopen := by
    by_cases heq : other = id
    · subst heq
      rw [hid] at hc
      cases hc
      exact Option.some_ne_none _
    · rw [hother other heq] at hc
      exact h.named other c hc hopen
  stale other c cleanup hc hclosed hcleanup := by
    by_cases heq : other = id
    · subst heq
      rw [hid] at hc
      cases hc
      cases hclosed
    · rw [hother other heq] at hc
      exact h.stale_register _ hc hclosed hcleanup
  execution cleanup other := by
    show (cleanup, CleanupAction.dropExecution other) ∈ _ :: r.entries ↔ _
    rw [List.mem_cons, h.execution, or_iff_right]
    exact fun hsame => CleanupAction.noConfusion (Prod.mk.inj hsame).2
  distinct := h.distinct
  numbered := h.numbered

/-- A new execution is registered. -/
theorem suspend (h : Accounts r cursors executions started) (thread : ThreadId) :
    Accounts (r.register (.dropExecution ⟨started + 1⟩)).2 cursors
      ((⟨started + 1⟩, { thread, cleanup := (r.register (.dropExecution ⟨started + 1⟩)).1 }) ::
        executions) (started + 1) where
  names := h.nodup_register _
  given := h.given_register _
  cursor cleanup id := by
    show (cleanup, CleanupAction.closeCursor id) ∈ _ :: r.entries ↔ _
    rw [List.mem_cons, h.cursor, or_iff_right]
    exact fun hsame => CleanupAction.noConfusion (Prod.mk.inj hsame).2
  named := h.named
  stale _ _ _ hc hclosed hcleanup := h.stale_register _ hc hclosed hcleanup
  execution cleanup id := by
    show (cleanup, CleanupAction.dropExecution id) ∈ _ :: r.entries ↔ _
    simp only [List.mem_cons, Prod.mk.injEq, CleanupAction.dropExecution.injEq, h.execution]
    constructor
    · rintro (⟨rfl, rfl⟩ | ⟨x, hx, hcleanup⟩)
      · exact ⟨_, .inl ⟨rfl, rfl⟩, rfl⟩
      · exact ⟨x, .inr hx, hcleanup⟩
    · rintro ⟨x, ⟨rfl, rfl⟩ | hx, rfl⟩
      · exact .inl ⟨rfl, rfl⟩
      · exact .inr ⟨x, hx, rfl⟩
  distinct := by
    refine List.nodup_cons.mpr ⟨fun hin => ?_, h.distinct⟩
    -- the executions that are there have lower numbers
    obtain ⟨x, hx, heq⟩ := List.mem_map.mp hin
    have hle := h.numbered x hx
    rw [heq] at hle
    exact Nat.lt_irrefl _ hle
  numbered x hx := by
    rcases List.mem_cons.mp hx with rfl | hx
    · exact Nat.le_refl _
    · exact Nat.le_succ_of_le (h.numbered x hx)

/-! ### Entries that go -/

theorem nodup_without (h : Accounts r cursors executions started) (cleanup : CleanupId) :
    ((r.without cleanup).entries.map (·.1)).Nodup :=
  h.names.sublist (List.filter_sublist.map _)

section Shut

variable {id : ObjectId} {c : Cursor} (h : Accounts r cursors executions started)
  (hid : cursors' id = some c.shut) (hother : ∀ other, other ≠ id → cursors' other = cursors other)
include h hid hother

/-- The open cursors are the other ones that were open before. -/
theorem cursor_shut (cleanup : CleanupId) (other : ObjectId) :
    (∃ d, cursors' other = some d ∧ d.closed = false ∧ d.cleanup = some cleanup) ↔
      other ≠ id ∧ (cleanup, .closeCursor other) ∈ r.entries := by
  rw [h.cursor]
  constructor
  · rintro ⟨d, hd, hopen, hcleanup⟩
    have hne : other ≠ id := by
      rintro rfl
      cases hid.symm.trans hd
      cases hopen
    exact ⟨hne, d, (hother other hne).symm.trans hd, hopen, hcleanup⟩
  · rintro ⟨hne, d, hd, hopen, hcleanup⟩
    exact ⟨d, (hother other hne).trans hd, hopen, hcleanup⟩

theorem named_shut {other : ObjectId} {d : Cursor} (hd : cursors' other = some d)
    (hopen : d.closed = false) : d.cleanup ≠ none := by
  by_cases heq : other = id
  · subst heq
    cases hid.symm.trans hd
    cases hopen
  · exact h.named other d ((hother other heq).symm.trans hd) hopen

/-- A cursor that has been shut names no entry. -/
theorem stale_shut {other : ObjectId} {d : Cursor} {cleanup : CleanupId}
    (hd : cursors' other = some d) (hclosed : d.closed = true)
    (hcleanup : d.cleanup = some cleanup) :
    cleanup.number < r.next ∧ cleanup ∉ r.entries.map (·.1) := by
  by_cases heq : other = id
  · subst heq
    cases hid.symm.trans hd
    cases hcleanup
  · exact h.stale other d cleanup ((hother other heq).symm.trans hd) hclosed hcleanup

/-- A cursor that is shut, for the first time or again, leaves the registry. -/
theorem shut (hc : cursors id = some c) :
    Accounts (c.cleanup.elim r fun cleanup => (r.unregister cleanup).2) cursors' executions
      started := by
  cases hcleanup : c.cleanup with
  | none =>
    refine ⟨h.names, h.given, fun cleanup other => ?_, fun _ _ => h.named_shut hid hother,
      fun _ _ _ => h.stale_shut hid hother, h.execution, h.distinct, h.numbered⟩
    -- a cursor that names no entry has none
    have hne (hin : (cleanup, .closeCursor other) ∈ r.entries) : other ≠ id := by
      rintro rfl
      obtain ⟨d, hd, -, hname⟩ := (h.cursor cleanup other).mp hin
      cases hc.symm.trans hd
      cases hcleanup.symm.trans hname
    exact (and_iff_right_of_imp hne).symm.trans (h.cursor_shut hid hother cleanup other).symm
  | some gone =>
    have hown {action : CleanupAction} (hin : (gone, action) ∈ r.entries) :
        action = .closeCursor id := h.action_eq hc hin hcleanup
    show Accounts (r.unregister gone).2 _ _ _
    rw [CleanupRegistry.unregister_eq h.names]
    refine ⟨h.nodup_without gone, fun x hx => h.given x (CleanupRegistry.mem_without.mp hx).1,
      fun cleanup other => ?_, fun _ _ => h.named_shut hid hother,
      fun _ _ _ hd hclosed hname => ?_,
      fun cleanup other => ?_, h.distinct, h.numbered⟩
    · rw [h.cursor_shut hid hother, CleanupRegistry.mem_without, and_comm]
      refine and_congr_left fun hin => not_congr ⟨?_, ?_⟩
      · rintro rfl
        exact CleanupAction.closeCursor.inj (hown hin)
      · rintro rfl
        obtain ⟨d, hd, -, hname⟩ := (h.cursor cleanup other).mp hin
        cases hc.symm.trans hd
        exact Option.some.inj (hname.symm.trans hcleanup)
    · obtain ⟨hlt, hgone⟩ := h.stale_shut hid hother hd hclosed hname
      exact ⟨hlt, fun hin => hgone ((List.filter_sublist.map _).subset hin)⟩
    · rw [CleanupRegistry.mem_without, ← h.execution, and_iff_left_of_imp]
      rintro hin rfl
      cases hown hin

end Shut

/-- An execution goes with its entry. -/
theorem endExecution (h : Accounts r cursors executions started) {id : ExecutionId} {x : Execution}
    (hx : (id, x) ∈ executions) :
    Accounts (r.without x.cleanup) cursors (executions.filter fun y => decide (y.1 ≠ id))
      started := by
  have hentry := (h.execution x.cleanup id).mpr ⟨x, hx, rfl⟩
  refine ⟨h.nodup_without _, fun y hy => h.given y (CleanupRegistry.mem_without.mp hy).1,
    fun cleanup other => ?_, h.named, fun other c cleanup hc hclosed hname => ?_,
    fun cleanup other => ?_, h.distinct.sublist (List.filter_sublist.map _),
    fun y hy => h.numbered y (List.mem_filter.mp hy).1⟩
  · rw [CleanupRegistry.mem_without, ← h.cursor, and_iff_left_of_imp]
    rintro hin rfl
    cases congrArg Prod.snd (h.entry_eq hin hentry rfl)
  · obtain ⟨hlt, hgone⟩ := h.stale other c cleanup hc hclosed hname
    exact ⟨hlt, fun hin => hgone ((List.filter_sublist.map _).subset hin)⟩
  · rw [CleanupRegistry.mem_without, h.execution]
    constructor
    · rintro ⟨⟨y, hy, rfl⟩, hne⟩
      refine ⟨y, List.mem_filter.mpr ⟨hy, decide_eq_true fun heq => hne ?_⟩, rfl⟩
      -- the two are executions of one name
      exact congrArg (·.2.cleanup) (List.inj_on_of_nodup_map h.distinct hy hx heq)
    · rintro ⟨y, hy, rfl⟩
      obtain ⟨hy, hne⟩ := List.mem_filter.mp hy
      refine ⟨⟨y, hy, rfl⟩, fun heq => of_decide_eq_true hne ?_⟩
      have hsame := h.entry_eq ((h.execution y.cleanup other).mpr ⟨y, hy, rfl⟩) hentry heq
      exact CleanupAction.dropExecution.inj (Prod.mk.inj hsame).2

/-- After the end of a transaction there are no entries, no open cursors and no executions. -/
theorem drained (h : Accounts r cursors executions started)
    (hclosed : ∀ id c, cursors' id = some c →
      c.closed = true ∧ ∃ d, cursors id = some d ∧ c.cleanup = d.cleanup) :
    Accounts ⟨[], r.next⟩ cursors' [] started where
  names := List.nodup_nil
  given x hx := absurd hx List.not_mem_nil
  cursor cleanup id := by
    refine ⟨fun hin => absurd hin List.not_mem_nil, fun ⟨c, hc, hopen, _⟩ => ?_⟩
    cases (hclosed id c hc).1.symm.trans hopen
  named id c hc hopen := by cases (hclosed id c hc).1.symm.trans hopen
  stale id c cleanup hc _ hcleanup := by
    obtain ⟨-, d, hd, hsame⟩ := hclosed id c hc
    exact ⟨h.cleanup_lt hd (hsame.symm.trans hcleanup), List.not_mem_nil⟩
  execution cleanup id := by simp
  distinct := List.nodup_nil
  numbered x hx := absurd hx List.not_mem_nil

/-- Two entries do not do the same. -/
theorem nodup_actions (h : Accounts r cursors executions started) :
    (r.entries.map (·.2)).Nodup := by
  refine (h.names.of_map _).map_on fun x hx y hy heq => h.entry_eq hx hy ?_
  obtain ⟨a, action⟩ := x
  obtain ⟨b, other⟩ := y
  cases heq
  cases action with
  | closeCursor id =>
    obtain ⟨c, hc, -, hcleanup⟩ := (h.cursor a id).mp hx
    obtain ⟨d, hd, -, hcleanup'⟩ := (h.cursor b id).mp hy
    cases hc.symm.trans hd
    exact Option.some.inj (hcleanup.symm.trans hcleanup')
  | dropExecution id =>
    obtain ⟨x, hx', rfl⟩ := (h.execution a id).mp hx
    obtain ⟨y, hy', rfl⟩ := (h.execution b id).mp hy
    exact congrArg (·.2.cleanup) (List.inj_on_of_nodup_map h.distinct hx' hy' rfl)

end Accounts

/-! ### Moves of objects -/

section Moves

variable {executions : List (ExecutionId × Execution)} {started : Nat}

/-- A cursor is attached, closed or left alone by whatever services do to objects. -/
theorem Move.accounts (h : e.Move e') (ha : Accounts e.cleanups e.cursor? executions started) :
    Accounts e'.cleanups e'.cursor? executions started := by
  -- the place of an object that is made was empty
  have hnew : e.cursor? ⟨e.objects.size⟩ = none := by
    unfold cursor? object?
    rw [Array.getElem?_eq_none (Nat.le_refl _)]
    rfl
  cases h with
  | still hobjects hcleanups =>
    rw [hcleanups, cursor?_of_objects hobjects]
    exact ha
  | made o ho hobjects hcleanups =>
    have hsame : e'.cursor? = e.cursor? := by
      funext id
      rw [cursor?_push hobjects]
      split
      next heq =>
        obtain rfl : id = ⟨e.objects.size⟩ := congrArg ObjectId.mk heq
        rw [ho, hnew]
      · rfl
    rw [hcleanups, hsame]
    exact ha
  | attached o name ho hobjects hcleanups =>
    rw [hcleanups]
    have hself : e'.cursor? ⟨e.objects.size⟩ =
        some { name, cleanup := some (e.cleanups.register (.closeCursor ⟨e.objects.size⟩)).1 } := by
      rw [cursor?_push hobjects, if_pos rfl, ho]
    refine ha.attach hnew hself fun other hne => ?_
    rw [cursor?_push hobjects, if_neg fun heq => hne (congrArg ObjectId.mk heq)]
  | changed id o f ho hf hobjects hcleanups =>
    have hsame : e'.cursor? = e.cursor? := by
      funext other
      rw [cursor?_modify hobjects]
      split
      next heq =>
        subst heq
        unfold cursor?
        rw [ho]
        exact hf.cursor?_eq
      · rfl
    rw [hcleanups, hsame]
    exact ha
  | closed id o c ho hc hopen hobjects hcleanups =>
    have hcursor : e.cursor? id = some c := by
      unfold cursor?
      rw [ho]
      exact hc
    rw [hcleanups]
    have hshut : e'.cursor? id = some c.shut := by
      rw [cursor?_modify hobjects, if_pos rfl, ho]
      exact (Object.cursor?_mapCursor Cursor.shut o).trans (congrArg _ hc)
    refine ha.shut hshut (fun other hne => ?_) hcursor
    rw [cursor?_modify hobjects, if_neg hne]

theorem Moves.accounts (h : e.Moves e') (ha : Accounts e.cleanups e.cursor? executions started) :
    Accounts e'.cleanups e'.cursor? executions started := by
  induction h with
  | refl => exact ha
  | tail _ hmove ih => exact hmove.accounts ih

end Moves

/-- Moves that leave executions alone. -/
theorem Accounted.moves (ha : e.Accounted) (h : e.Moves e')
    (hexecutions : e'.executions = e.executions) (hstarted : e'.started = e.started) :
    e'.Accounted := by
  unfold Accounted at ha ⊢
  rw [hexecutions, hstarted]
  exact h.accounts ha

theorem Accounted.elsewhere (ha : e.Accounted) (h : e.Elsewhere e') : e'.Accounted :=
  ha.moves (moves_still h.objects h.cleanups) h.executions h.started

/-- The destructor of a cursor does what closing it does, and does it also when it is closed. -/
theorem Accounted.collect (ha : e.Accounted) (id : ObjectId) : (e.collect id).Accounted := by
  unfold Engine.collect
  split
  · exact ha
  next c hc =>
    obtain ⟨o, ho, hcursor⟩ := Option.bind_eq_some_iff.mp hc
    let e' : Engine :=
      { e with objects := e.objects.modify id.index fun o => o.mapCursor Cursor.shut }
    have hshut : e'.cursor? id = some c.shut := by
      rw [cursor?_modify (e := e) rfl, if_pos rfl, ho]
      exact (Object.cursor?_mapCursor Cursor.shut o).trans (congrArg _ hcursor)
    refine Accounts.shut ha hshut (fun other hne => ?_) hc
    rw [cursor?_modify (e := e) rfl, if_neg hne]

/-! ### Executions -/

theorem Accounted.opened (ha : e.Accounted) : e.opened.2.Accounted :=
  Accounts.suspend ha (e.heap.newThread e.setBody).1

theorem Accounted.endExecution (ha : e.Accounted) (id : ExecutionId) :
    (e.endExecution id).Accounted := by
  unfold Engine.endExecution
  cases hx : e.execution? id with
  | none => exact ha
  | some x =>
    obtain ⟨before, after, hlist, -⟩ := List.lookup_eq_some_iff.mp hx
    have hin : (id, x) ∈ e.executions := by
      rw [hlist]
      simp
    have hended := Accounts.endExecution ha hin
    rw [← CleanupRegistry.unregister_eq ha.names] at hended
    exact hended

/-! ### The end of a transaction -/

/-- The entries drop the executions that they name, and no other ones. -/
theorem mem_executions_foldl_clean {x : ExecutionId × Execution}
    (entries : List (CleanupId × CleanupAction)) (e : Engine) :
    x ∈ (entries.foldl (fun e entry => e.clean entry.2) e).executions ↔
      x ∈ e.executions ∧ ∀ entry ∈ entries, entry.2 ≠ .dropExecution x.1 := by
  induction entries generalizing e with
  | nil => simp
  | cons entry rest ih =>
    rw [List.foldl_cons, ih, List.forall_mem_cons, ← and_assoc]
    refine and_congr_left fun _ => ?_
    cases entry.2 with
    | closeCursor id => exact (and_iff_left nofun).symm
    | dropExecution id =>
      show x ∈ e.executions.filter (fun x => decide (x.1 ≠ id)) ↔ _
      rw [List.mem_filter, decide_eq_true_iff, Ne, Ne, CleanupAction.dropExecution.injEq, eq_comm]

/-- After the end of the transaction no execution is left: each had its entry. -/
theorem Accounted.executions_drain (ha : e.Accounted) : e.drain.2.executions = [] := by
  refine List.eq_nil_iff_forall_not_mem.mpr fun x hx => ?_
  have hleft : x ∈ e.executions ∧ ∀ entry ∈ e.cleanups.entries, entry.2 ≠ .dropExecution x.1 :=
    (mem_executions_foldl_clean e.cleanups.entries { e with cleanups := ⟨[], _⟩ }).mp hx
  exact hleft.2 _ ((ha.execution x.2.cleanup x.1).mpr ⟨x.2, hleft.1, rfl⟩) rfl

theorem Accounted.watched (ha : e.Accounted) : e.Watched where
  names := ha.names
  given := ha.given
  watched id o c ho hc hopen := by
    have hcursor : e.cursor? id = some c := by
      unfold cursor?
      rw [ho]
      exact hc
    obtain ⟨cleanup, hcleanup⟩ := Option.ne_none_iff_exists'.mp (ha.named id c hcursor hopen)
    exact ⟨cleanup, hcleanup, (ha.cursor cleanup id).mpr ⟨c, hcursor, hopen, hcleanup⟩⟩

/-- The end of a transaction leaves no cursor open, and cursors name what they named. -/
theorem Accounted.cursor?_drain (ha : e.Accounted) {id : ObjectId} {c : Cursor}
    (hc : e.drain.2.cursor? id = some c) :
    c.closed = true ∧ ∃ d, e.cursor? id = some d ∧ c.cleanup = d.cleanup := by
  obtain ⟨o, ho, hcursor⟩ := Option.bind_eq_some_iff.mp hc
  refine ⟨ha.watched.shut_drain ho c hcursor, ?_⟩
  have hdrained : e.drain.2.object? id =
      if e.cleanups.entries.any fun x => x.2.closes id then (e.object? id).map Object.expire
      else e.object? id := object?_foldl_clean e.cleanups.entries _ id
  rw [ho] at hdrained
  unfold cursor?
  split at hdrained
  · obtain ⟨p, hp, rfl⟩ := Option.map_eq_some_iff.mp hdrained.symm
    unfold Object.expire at hcursor
    rw [Object.cursor?_mapCursor] at hcursor
    obtain ⟨d, hd, rfl⟩ := Option.map_eq_some_iff.mp hcursor
    exact ⟨d, Option.bind_eq_some_iff.mpr ⟨p, hp, hd⟩, rfl⟩
  · exact ⟨c, Option.bind_eq_some_iff.mpr ⟨o, hdrained.symm, hcursor⟩, rfl⟩

theorem started_drain (e : Engine) : e.drain.2.started = e.started := by
  have hsame (entries : List (CleanupId × CleanupAction)) (e : Engine) :
      (entries.foldl (fun e entry => e.clean entry.2) e).started = e.started := by
    induction entries generalizing e with
    | nil => rfl
    | cons entry rest ih =>
      rw [List.foldl_cons, ih]
      cases entry.2 <;> rfl
  exact hsame e.cleanups.entries _

theorem Accounted.drain (ha : e.Accounted) : e.drain.2.Accounted := by
  unfold Accounted
  rw [cleanups_drain, ha.executions_drain, started_drain]
  exact Accounts.drained ha fun _ _ hc => ha.cursor?_drain hc

theorem Accounted.onTransaction (ha : e.Accounted) (event : TransactionEvent) :
    (e.onTransaction event).2.Accounted := by
  unfold Engine.onTransaction
  split
  · exact ha.drain
  · exact ha

/-! ### Everything that happens to an engine -/

/-- What may become of an engine, also in the middle of a call. -/
inductive LeadsTo : Engine → Engine → Prop where
  /-- A script takes a step, a frame starts or ends, the host does something. -/
  | elsewhere {e e' : Engine} (h : e.Elsewhere e') : LeadsTo e e'
  | trans {e e' e'' : Engine} (h : LeadsTo e e') (h' : LeadsTo e' e'') : LeadsTo e e''
  /-- A service does one of the things that it consists of. -/
  | move {e e' : Engine} (h : e.Move e') (hsame : e.SameExecutions e') : LeadsTo e e'
  /-- A service answers a script. While the functions run that it calls, anything may happen. -/
  | serve {call : Caller} (hcall : ∀ f args e, LeadsTo e (call f args e).2) (s : Service)
    (args : List Value) (e : Engine) : LeadsTo e (Serving.serve call s args e).2
  /-- A value is handed to a script, which may have cursors in it. -/
  | value (v : ScriptValue) (e : Engine) : LeadsTo e (Serving.toValue v e).2
  | publish (t : TriggerEvent) (e : Engine) : LeadsTo e (Serving.publishEvent t e).2
  | collect (id : ObjectId) (e : Engine) : LeadsTo e (e.collect id)
  /-- The call of a set starts. -/
  | opened (e : Engine) : LeadsTo e e.opened.2
  /-- The call of a set ends, fails or is abandoned. -/
  | ended (id : ExecutionId) (e : Engine) : LeadsTo e (e.endExecution id)
  | event (event : TransactionEvent) (e : Engine) : LeadsTo e (e.onTransaction event).2

instance : Law LeadsTo where
  elsewhere := .elsewhere
  trans := .trans
  serve := .serve
  value := .value
  opened := .opened
  ended := .ended

instance (t : TriggerEvent) : Serving.KeepsTo LeadsTo (Serving.publishEvent t) := ⟨.publish t⟩

/-- An engine at any moment since it was made. -/
def Arises (e : Engine) : Prop := ∃ options host, (bare options host).LeadsTo e

theorem Arises.leadsTo (h : e.Arises) (h' : e.LeadsTo e') : e'.Arises := by
  obtain ⟨options, host, hbare⟩ := h
  exact ⟨options, host, hbare.trans h'⟩

/-- Every engine that a host can have between two calls is one of these. -/
theorem Reachable.arises (he : e.Reachable) : e.Arises := by
  induction he with
  | @start options host host' e _ hstart => exact ⟨options, host, Law.start hstart⟩
  | host _ _ ih => exact ih.leadsTo (.elsewhere ⟨rfl, rfl, rfl, rfl, rfl⟩)
  | call _ id args ih => exact ih.leadsTo (Law.call id args _)
  | next _ id slot args ih => exact ih.leadsTo (Law.next id slot args _)
  | abandon _ slot ih => exact ih.leadsTo (Law.abandon slot _)
  | fire _ id t ih => exact ih.leadsTo (Law.fire id t _)
  | validate _ id ih => exact ih.leadsTo (Law.validate id _)
  | invalidate _ id ih => exact ih.leadsTo (.elsewhere ⟨rfl, rfl, rfl, rfl, rfl⟩)
  | onTransaction _ event ih => exact ih.leadsTo (.event event _)

/-! ### The entries are accounted for -/

/-- To be accounted for is kept. -/
abbrev KeepsAccounts (e e' : Engine) : Prop := e.Accounted → e'.Accounted

instance : Indifferent KeepsAccounts where
  elsewhere h ha := ha.elsewhere h
  trans h h' ha := h' (h ha)

/-- A computation that moves objects, and does not get at executions. -/
theorem Accounted.served {α : Type} (ha : e.Accounted) (x : Serving α) [hx : Serving.Moving x]
    [hr : Serving.KeepsTo SameExecutions x] : (x e).2.Accounted :=
  ha.moves (hx.moves e) (hr.kept e).executions (hr.kept e).started

/-- Whatever happens to an engine, its entries stay accounted for. -/
theorem LeadsTo.accounted (h : e.LeadsTo e') : e.KeepsAccounts e' := by
  -- on what happens; in a service, on what its functions do
  induction h with
  | elsewhere h => exact fun ha => ha.elsewhere h
  | trans _ _ ih ih' => exact fun ha => ih' (ih ha)
  | move h hsame => exact fun ha => ha.moves (.single h) hsame.executions hsame.started
  | serve _ s args e ih =>
    refine serve_of_plain (R := KeepsAccounts) (fun s args hs => ⟨fun e ha => ?_⟩) ih s args e
    have := Serving.keepsTo_serve (R := SameExecutions) hs args
    exact ha.served (Serving.serve callFunction s args)
  | value v e =>
    have := Serving.keepsTo_toValue (R := SameExecutions) v
    exact fun ha => ha.served (Serving.toValue v)
  | publish t e => exact fun ha => ha.served (Serving.publishEvent t)
  | collect id e => exact fun ha => ha.collect id
  | opened e => exact fun ha => ha.opened
  | ended id e => exact fun ha => ha.endExecution id
  | event event e => exact fun ha => ha.onTransaction event

theorem Arises.accounted (h : e.Arises) : e.Accounted := by
  obtain ⟨options, host, hbare⟩ := h
  exact hbare.accounted Accounts.empty

/-- The entries of the registry are those of the open cursors and of the executions. -/
structure Audit (e : Engine) : Prop where
  entries : (e.cleanups.entries.map (·.2)).Perm
    (e.openCursors.map .closeCursor ++ e.executions.map fun x => .dropExecution x.1)
  /-- None of them has two. -/
  once : (e.cleanups.entries.map (·.2)).Nodup
  size : e.cleanups.size = e.openCursors.length + e.executions.length
  /-- The end of a transaction leaves none, closes all cursors and drops all executions. -/
  drained : ∀ event : TransactionEvent, event.drains = true →
    (e.onTransaction event).2.cleanups.size = 0 ∧ (e.onTransaction event).2.executions = [] ∧
      ∀ id c, e.cursor? id = some c →
        ∃ d, (e.onTransaction event).2.cursor? id = some d ∧ d.closed = true

theorem Accounted.nodup_expected (ha : e.Accounted) :
    (e.openCursors.map CleanupAction.closeCursor ++
      e.executions.map fun x => CleanupAction.dropExecution x.1).Nodup := by
  refine List.nodup_append.mpr ⟨?_, ?_, ?_⟩
  · exact (nodup_openCursors e).map fun _ _ heq => CleanupAction.closeCursor.inj heq
  · have hnames := ha.distinct.map (f := CleanupAction.dropExecution)
      fun _ _ heq => CleanupAction.dropExecution.inj heq
    rwa [List.map_map] at hnames
  · rintro _ hcursor _ hexecution rfl
    obtain ⟨id, -, rfl⟩ := List.mem_map.mp hcursor
    obtain ⟨x, -, heq⟩ := List.mem_map.mp hexecution
    cases heq

theorem Accounted.perm (ha : e.Accounted) : (e.cleanups.entries.map (·.2)).Perm
    (e.openCursors.map .closeCursor ++ e.executions.map fun x => .dropExecution x.1) := by
  refine (List.perm_ext_iff_of_nodup (Accounts.nodup_actions ha) ha.nodup_expected).mpr
    fun action => ?_
  rw [List.mem_append, List.mem_map, List.mem_map, List.mem_map]
  constructor
  · rintro ⟨⟨cleanup, action⟩, hentry, rfl⟩
    cases action with
    | closeCursor id =>
      obtain ⟨c, hc, hopen, -⟩ := (ha.cursor cleanup id).mp hentry
      exact .inl ⟨id, mem_openCursors.mpr ⟨c, hc, hopen⟩, rfl⟩
    | dropExecution id =>
      obtain ⟨x, hx, -⟩ := (ha.execution cleanup id).mp hentry
      exact .inr ⟨(id, x), hx, rfl⟩
  · rintro (⟨id, hid, rfl⟩ | ⟨⟨id, x⟩, hx, rfl⟩)
    · obtain ⟨c, hc, hopen⟩ := mem_openCursors.mp hid
      obtain ⟨cleanup, hcleanup⟩ := Option.ne_none_iff_exists'.mp (ha.named id c hc hopen)
      exact ⟨_, (ha.cursor cleanup id).mpr ⟨c, hc, hopen, hcleanup⟩, rfl⟩
    · exact ⟨_, (ha.execution x.cleanup id).mpr ⟨x, hx, rfl⟩, rfl⟩

/-- A cursor is closed by the end of the transaction, and still there. -/
theorem Accounted.closed_drain (ha : e.Accounted) {id : ObjectId} {c : Cursor}
    (hc : e.cursor? id = some c) : ∃ d, e.drain.2.cursor? id = some d ∧ d.closed = true := by
  obtain ⟨o, ho, hcursor⟩ := Option.bind_eq_some_iff.mp hc
  have hdrained : e.drain.2.object? id =
      if e.cleanups.entries.any fun x => x.2.closes id then (e.object? id).map Object.expire
      else e.object? id := object?_foldl_clean e.cleanups.entries _ id
  have hstill : ∃ d, e.drain.2.cursor? id = some d := by
    unfold cursor?
    rw [hdrained, ho]
    split
    · refine ⟨{ c with closed := true }, ?_⟩
      show o.expire.cursor? = _
      unfold Object.expire
      rw [Object.cursor?_mapCursor, hcursor]
      rfl
    · exact ⟨c, hcursor⟩
  obtain ⟨d, hd⟩ := hstill
  exact ⟨d, hd, (ha.cursor?_drain hd).1⟩

/-- At every moment since an engine was made, its registry has one entry for each open cursor, one
for each execution, and no other ones. -/
theorem pending_exact (h : e.Arises) : e.Audit := by
  have ha := h.accounted
  refine ⟨ha.perm, Accounts.nodup_actions ha, ?_, fun event hdrains => ?_⟩
  · have hlength := ha.perm.length_eq
    rw [List.length_append, List.length_map, List.length_map, List.length_map] at hlength
    exact hlength
  · unfold onTransaction
    rw [if_pos hdrains]
    refine ⟨?_, ha.executions_drain, fun id c hc => ha.closed_drain hc⟩
    rw [cleanups_drain]
    rfl

/-- Two cursors were attached, the first of them was collected, and the call of a set waits. -/
def collecting : Engine :=
  let attached (name : String) (e : Engine) : Engine := (Serving.toValue (.cursor name) e).2
  ((attached "b" (attached "a" (bare {} Host.new))).collect ⟨0⟩).opened.2

theorem pending_exact_collecting : collecting.Audit ∧ collecting.cleanups.size = 2 := by
  have hfirst := LeadsTo.value (.cursor "a") (bare {} Host.new)
  have hsecond := hfirst.trans (.value (.cursor "b") _)
  have hcollected := hsecond.trans (.collect ⟨0⟩ _)
  exact ⟨pending_exact ⟨{}, Host.new, hcollected.trans (.opened _)⟩, rfl⟩

end Engine

end StoredRoutine
