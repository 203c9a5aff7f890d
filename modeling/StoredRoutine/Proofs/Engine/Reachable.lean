import StoredRoutine.Engine.Transaction
import StoredRoutine.Proofs.Engine.Requests
import StoredRoutine.Proofs.Engine.Start
import StoredRoutine.Proofs.Engine.Triggers

/-!
# `StoredRoutine.Proofs.Engine.Reachable`: every engine that a host can have is sound

The end of a transaction drains the registry. When the last entry has gone no execution is left,
since each has one (`drain_spec`).

A host starts an engine, calls routines for values, for sets and as triggers, abandons sets, has
routines compiled or dropped, and tells the engine of transactions. Between two calls it may change
in any way. `Engine.Reachable` holds of every engine that comes about in this way, and
`Engine.Reachable.sound` says that each is sound, with no frame on its stack.
-/

set_option autoImplicit false

namespace StoredRoutine.Engine

variable {e : Engine} {stack : List FrameId}

/-! ### Transactions -/

/-- The newest entry leaves the registry and does what it says. -/
theorem clean_head (hs : e.Sound stack) {entry : CleanupId × CleanupAction}
    {rest : List (CleanupId × CleanupAction)} {next : Nat}
    (hentries : e.cleanups = ⟨entry :: rest, next⟩) :
    ({ e with cleanups := ⟨rest, next⟩ } : Engine).clean entry.2 |>.Sound stack := by
  obtain ⟨c, action⟩ := entry
  have hin : (c, action) ∈ e.cleanups.entries := by
    rw [hentries]
    exact List.mem_cons_self
  have hnames := hs.registered.entries
  rw [hentries] at hnames
  have hrest := CleanupRegistry.without_head hnames next
  cases action with
  | closeCursor id =>
    have hdropped := hs.registered.dropCursor (c := c) fun other hother => by
      -- entries of one name are the same
      have heq := List.inj_on_of_nodup_map hs.registered.entries hother hin rfl
      cases heq
    rw [hentries, hrest] at hdropped
    have hs' : ({ e with cleanups := ⟨rest, next⟩ } : Engine).Sound stack :=
      ⟨hs.arena, hs.shared, hs.heap, hs.functions, hs.host, hdropped⟩
    exact hs'.modifyObject id fun o _ =>
      Serving.harmless_mapCursor (f := fun c => { c with closed := true })
        (fun _ => List.Subset.refl _) o
  | dropExecution id =>
    have hdropped := hs.registered.dropExecution hin
    rw [hentries, hrest] at hdropped
    exact ⟨hs.arena, hs.shared, hs.heap, hs.functions, hs.host, hdropped⟩

theorem restores_clean (e : Engine) (action : CleanupAction) : e.Restores (e.clean action) := by
  cases action with
  | closeCursor id => exact Restores.ofSame rfl rfl rfl
  | dropExecution id => exact Restores.ofSame rfl rfl rfl

/-- The actions of entries that have been taken out of the registry, the newest first. -/
theorem foldl_clean_spec (entries : List (CleanupId × CleanupAction)) (hs : e.Sound stack)
    (next : Nat) (hentries : e.cleanups = ⟨entries, next⟩) {drained : Engine}
    (hdrained : entries.foldl (fun e entry => e.clean entry.2) { e with cleanups := ⟨[], next⟩ } =
      drained) :
    drained.Sound stack ∧ e.Restores drained ∧ drained.cleanups = ⟨[], next⟩ ∧
      drained.started = e.started := by
  induction entries generalizing e with
  | nil =>
    subst hdrained
    have hsame : ({ e with cleanups := ⟨[], next⟩ } : Engine) = e := by rw [← hentries]
    rw [hsame]
    exact ⟨hs, Restores.refl e, hentries, rfl⟩
  | cons entry rest ih =>
    -- to empty the registry commutes with an action
    have hcommute : ({ e with cleanups := ⟨[], next⟩ } : Engine).clean entry.2 =
        { ({ e with cleanups := ⟨rest, next⟩ } : Engine).clean entry.2 with
          cleanups := ⟨[], next⟩ } := by
      cases entry.2 <;> rfl
    have hcleanups : (({ e with cleanups := ⟨rest, next⟩ } : Engine).clean entry.2).cleanups =
        ⟨rest, next⟩ := by
      cases entry.2 <;> rfl
    have hstarted : (({ e with cleanups := ⟨rest, next⟩ } : Engine).clean entry.2).started =
        e.started := by
      cases entry.2 <;> rfl
    rw [List.foldl_cons, hcommute] at hdrained
    obtain ⟨hsound, hrestores, hempty, hnumber⟩ :=
      ih (clean_head hs hentries) hcleanups hdrained
    have hremoved : e.Restores { e with cleanups := ⟨rest, next⟩ } :=
      Restores.ofSame rfl rfl rfl
    exact ⟨hsound, (hremoved.trans (restores_clean _ _)).trans hrestores, hempty,
      hnumber.trans hstarted⟩

/-- With its last entry the registry has lost the last execution. -/
theorem drain_spec (hs : e.Sound stack) :
    e.drain.2.Sound stack ∧ e.Restores e.drain.2 ∧ e.drain.2.executions = [] ∧
      e.drain.2.cleanups.entries = [] ∧ e.drain.2.started = e.started := by
  obtain ⟨hsound, hrestores, hempty, hstarted⟩ :=
    foldl_clean_spec e.cleanups.entries hs e.cleanups.next rfl (show _ = e.drain.2 from rfl)
  have hentries : e.drain.2.cleanups.entries = [] := congrArg CleanupRegistry.entries hempty
  refine ⟨hsound, hrestores, List.eq_nil_iff_forall_not_mem.mpr fun x hx => ?_, hentries, hstarted⟩
  have hentry := (hsound.registered.matched x.2.cleanup x.1).mpr ⟨x.2, hx, rfl⟩
  rw [hentries] at hentry
  exact absurd hentry List.not_mem_nil

theorem onTransaction_sound (hs : e.Sound stack) (event : TransactionEvent) :
    (e.onTransaction event).2.Sound stack := by
  unfold onTransaction
  split
  · exact (drain_spec hs).1
  · exact hs

/-! ### Engines -/

/-- An engine that a host can have between two calls. -/
inductive Reachable : Engine → Prop where
  | start {options : Options} {host host' : Host} {e : Engine} (hw : host.Willing)
    (hstart : start options host = (.ok e, host')) : Reachable e
  /-- The host has changed. -/
  | host {e : Engine} (he : Reachable e) {host : Host} (hw : host.Willing) :
    Reachable { e with host }
  | call {e : Engine} (he : Reachable e) (id : TypeId) (args : Row) : Reachable (e.call id args).2
  | next {e : Engine} (he : Reachable e) (id : TypeId) (slot : SetCall) (args : Row) :
    Reachable (e.next id slot args).2
  | abandon {e : Engine} (he : Reachable e) (slot : SetCall) : Reachable (e.abandon slot).2
  | fire {e : Engine} (he : Reachable e) (id : TypeId) (t : TriggerEvent) :
    Reachable (e.fire id t).2
  | validate {e : Engine} (he : Reachable e) (id : TypeId) : Reachable (e.validate id).2
  | invalidate {e : Engine} (he : Reachable e) (id : TypeId) : Reachable (e.invalidate id).2
  | onTransaction {e : Engine} (he : Reachable e) (event : TransactionEvent) :
    Reachable (e.onTransaction event).2

/-- A host that may change in any way does not matter to the rest of an engine. -/
theorem Sound.anyHost (hs : e.Sound stack) {host : Host} (hw : host.Willing) :
    ({ e with host } : Engine).Sound stack :=
  ⟨hs.arena, hs.shared, hs.heap, hs.functions, hw, hs.registered⟩

/-- Between two calls an engine is sound, and no frame is open. -/
theorem Reachable.sound (he : e.Reachable) : e.Sound [] := by
  induction he with
  | start hw hstart => exact (start_sound hw hstart).1
  | host _ hw hs => exact hs.anyHost hw
  | call _ id args hs => exact call_sound hs id args
  | next _ id slot args hs => exact (next_worked hs id slot args).sound
  | abandon _ slot hs => exact (abandon_spec hs slot).1
  | fire _ id t hs => exact fire_sound hs id t
  | validate _ id hs => exact (validate_spec hs id).1
  | invalidate _ id hs => exact invalidate_sound hs id
  | onTransaction _ event hs => exact onTransaction_sound hs event

end StoredRoutine.Engine
