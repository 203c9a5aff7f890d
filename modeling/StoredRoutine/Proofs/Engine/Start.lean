import StoredRoutine.Engine.Start
import StoredRoutine.Proofs.Engine.Calls
import StoredRoutine.Proofs.Script.Closed

/-!
# `StoredRoutine.Proofs.Engine.Start`: a new engine is sound

A new engine holds nothing but its library, which has no foreign values: its heap is closed, but for
the guard of the globals if its scripts are trusted (`Engine.bare_closed`). Modules run like any
other function, so the engine is still sound when they have been evaluated, and no execution waits.

The functions of the library and the services are the globals of their names
(`Engine.bare_defines`).
-/

set_option autoImplicit false

namespace StoredRoutine

open Script (AllOf Block Heap Innate Key Table TableId Value)

namespace Engine

/-! ### The heap of a new engine -/

variable {h : Heap}

/-- A function of the engine, with variables whose values were there before. -/
theorem nativeClosure_closed (hh : h.Closed) (chunk : String) (params : List String)
    (variadic : Bool) (body : Block) {captured : List (String × Value)}
    (hcaptured : ∀ x ∈ captured, x.2.Made h.tables.size) :
    (nativeClosure h chunk params variadic body captured).2.Closed ∧
      (nativeClosure h chunk params variadic body captured).2.tables = h.tables ∧
      (nativeClosure h chunk params variadic body captured).1.isForeign = false := by
  unfold nativeClosure
  split
  · have hvalues : AllOf (Value.Made h.tables.size) (.table h.globals :: captured.map (·.2)) :=
      AllOf.cons (Value.made_table hh.globals) (List.forall_mem_map.mpr hcaptured)
    obtain ⟨hcells, htables⟩ := hh.newCells hvalues
    exact ⟨hcells.withHolds (hcells.holds.newClosure _) rfl rfl rfl, htables, rfl⟩
  · exact ⟨hh, rfl, rfl⟩

theorem addServices_closed (hh : h.Closed) :
    (addServices h).Closed ∧ h.tables.size ≤ (addServices h).tables.size := by
  have hservices : ∀ f ∈ globalServices, f.2.isForeign = false := by
    intro f hf
    simp only [globalServices, List.mem_cons, List.not_mem_nil, or_false] at hf
    rcases hf with rfl | rfl | rfl | rfl | rfl | rfl | rfl <;> rfl
  have hserver : ∀ f ∈ serverFields, f.2.isForeign = false := by
    intro f hf
    simp only [serverFields, List.mem_cons, List.not_mem_nil, or_false] at hf
    rcases hf with rfl | rfl | rfl | rfl | rfl <;> rfl
  obtain ⟨hglobals, hsize⟩ := hh.foldl_setGlobal hservices
  unfold addServices
  dsimp only
  generalize globalServices.foldl _ h = withGlobals at hglobals hsize ⊢
  have hshared := hglobals.setGlobal "shared" (Value.made_table hglobals.globals)
  obtain ⟨hmade, hid⟩ := hshared.tableOf fun f hf => .inl (hserver f hf)
  refine ⟨hmade.setGlobal "server" hid, ?_⟩
  rw [Heap.size_setGlobal, Heap.size_tableOf, Heap.size_setGlobal, hsize]
  exact Nat.le_succ _

/-- The metatable of the globals is a new table. -/
theorem protectGlobals_guarded (hh : h.Closed) :
    (protectGlobals h).GuardedBy ⟨h.tables.size⟩ := by
  have hold : ∀ id : TableId, id.index < h.tables.size → id ≠ ⟨h.tables.size⟩ := by
    rintro id hid rfl
    exact Nat.lt_irrefl _ hid
  have hfields : (Key.ofText "__metatable" == Key.ofText "__newindex") = false := by
    decide +kernel
  -- the new table is changed no more, and of the tables from before only that of the globals is
  have hguard : (protectGlobals h).table ⟨h.tables.size⟩ =
      (({} : Table).setKey (.ofText "__newindex") (.service .denyGlobal)).setKey
        (.ofText "__metatable") (.bool false) := by
    unfold protectGlobals
    rw [Heap.table_modifyTable, if_neg fun heq => hold _ hh.globals heq.1.symm]
    exact (Heap.table_newTable _ _ _).trans (if_pos rfl)
  have hglobals : ((protectGlobals h).table h.globals).metatable = some ⟨h.tables.size⟩ := by
    unfold protectGlobals
    rw [Heap.table_modifyTable, if_pos ⟨rfl, by
      show h.globals.index < (h.tables.push _).size
      rw [Array.size_push]
      exact Nat.lt_succ_of_lt hh.globals⟩]
    rfl
  have hother : ∀ id, id ≠ ⟨h.tables.size⟩ → id ≠ h.globals →
      ((protectGlobals h).table id).metatable = none := by
    intro id hid hne
    unfold protectGlobals
    rw [Heap.table_modifyTable, if_neg fun heq => hne heq.1]
    exact (congrArg _ ((Heap.table_newTable _ _ _).trans (if_neg hid))).trans (hh.plain id)
  refine ⟨?_, (hold _ hh.globals).symm, (hold _ hh.strings).symm, hglobals, fun id hid => ?_, ?_,
    ?_⟩
  · show h.tables.size < ((h.tables.push _).modify _ _).size
    rw [Array.size_modify, Array.size_push]
    exact Nat.lt_succ_self _
  · -- the guard itself has no metatable, either
    refine Classical.byContradiction fun hne => ?_
    by_cases hself : id = ⟨h.tables.size⟩
    · rw [hself, hguard] at hid
      cases hid
    · rw [hother id hself hne] at hid
      cases hid
  · rw [hguard, Table.getKey_setKey, if_neg (by rw [hfields]; exact Bool.false_ne_true),
      Table.getKey_setKey, if_pos (beq_self_eq_true _)]
  · rw [hguard, Table.getKey_setKey, if_pos (beq_self_eq_true _)]

/-- The guard is the only table that is hidden. -/
theorem protectGlobals_conforms (hh : h.Closed) {Q : Value → Prop} (own : Innate Q)
    (htables : ∀ id, id ≠ ⟨h.tables.size⟩ → Q (.table id)) : (protectGlobals h).Conforms Q := by
  have hheap : h.Holds Q := hh.holdsAll own fun id hid => htables id fun heq =>
    Nat.lt_irrefl h.tables.size (by rw [heq] at hid; exact hid)
  have hfields : ∀ f ∈ [("__newindex", Value.service .denyGlobal), ("__metatable", .bool false)],
      Q f.2 := List.forall_mem_cons.mpr ⟨own _ rfl, List.forall_mem_singleton.mpr (own _ rfl)⟩
  have hguard := hheap.newTable (Heap.foldl_setKey_holds own hfields Table.holds_empty)
  refine ⟨hguard.modifyTable _ (Table.holds_of_values_eq (hguard.table _) rfl), ?_⟩
  intro guard hguard
  have heq : guard = ⟨h.tables.size⟩ := Classical.byContradiction fun hne =>
    hguard (htables guard hne)
  exact heq ▸ protectGlobals_guarded hh

/-- A new engine has a closed heap, but for the guard of its globals if its scripts are trusted. -/
theorem bare_closed (options : Options) (host : Host) :
    ∃ h : Heap, h.Closed ∧
      (bare options host).heap = (if options.trusted then protectGlobals h else h) ∧
      (bare options host).reports.index < h.tables.size ∧
      (bare options host).setBody.isForeign = false := by
  have hlibrary := Script.Library.start_closed options.trusted
  unfold bare
  dsimp only
  -- the heap goes from one function to the next, and what it was made from is forgotten
  generalize Script.Library.start options.trusted = library at hlibrary ⊢
  have hnone : ∀ x ∈ ([] : List (String × Value)), x.2.Made library.tables.size :=
    fun _ hx => absurd hx List.not_mem_nil
  obtain ⟨htext, -, hreport⟩ := nativeClosure_closed hlibrary "error_tostring" ["e"] false
    reportTextBody hnone
  generalize nativeClosure library "error_tostring" _ _ _ _ = made at htext hreport ⊢
  obtain ⟨reportText, withText⟩ := made
  have hfields : ∀ f ∈ [("__tostring", reportText)], f.2.Made withText.tables.size :=
    List.forall_mem_singleton.mpr (.inl hreport)
  obtain ⟨hreports, -⟩ := htext.tableOf hfields
  have hid : (withText.tableOf [("__tostring", reportText)]).1.index <
      (withText.tableOf [("__tostring", reportText)]).2.tables.size := by
    rw [Heap.size_tableOf]
    exact Nat.lt_succ_self _
  dsimp only
  generalize withText.tableOf [("__tostring", reportText)] = made at hreports hid ⊢
  obtain ⟨reports, withReports⟩ := made
  have hpcall : ∀ x ∈ [("pcall", withReports.global "pcall")],
      x.2.Made withReports.tables.size :=
    List.forall_mem_singleton.mpr (hreports.holds.global (Value.innate_made _) "pcall")
  -- the body of sets has `pcall` at hand, whatever becomes of the global
  obtain ⟨hset, hsame, hbody⟩ :=
    nativeClosure_closed hreports "srf_entry" ["f"] true setBodyBlock hpcall
  obtain ⟨hservices, hsize⟩ := addServices_closed hset
  refine ⟨_, hservices, rfl, Nat.lt_of_lt_of_le ?_ hsize, hbody⟩
  rw [hsame]
  exact hid

/-- Every property that is innate and that all tables have, but for one if scripts are trusted, is
one of all values in a new engine. -/
theorem bare_conforms (options : Options) (host : Host) :
    ∃ guard : Option TableId, options.trusted = guard.isSome ∧ ∀ Q : Value → Prop, Innate Q →
      (∀ id, guard ≠ some id → Q (.table id)) →
        (bare options host).heap.Conforms Q ∧ Q (.table (bare options host).reports) ∧
          Q (bare options host).setBody := by
  obtain ⟨h, hh, hheap, hreports, hbody⟩ := bare_closed options host
  cases htrusted : options.trusted with
  | false =>
    refine ⟨none, rfl, fun Q own htables => ?_⟩
    have hall (id : TableId) : Q (.table id) := htables id nofun
    rw [hheap, htrusted]
    exact ⟨(hh.holdsAll own fun id _ => hall id).conforms hall, hall _, own _ hbody⟩
  | true =>
    refine ⟨some ⟨h.tables.size⟩, rfl, fun Q own htables => ?_⟩
    have hother (id : TableId) (hid : id ≠ ⟨h.tables.size⟩) : Q (.table id) :=
      htables id fun heq => hid (Option.some.inj heq).symm
    rw [hheap, htrusted]
    refine ⟨protectGlobals_conforms hh own hother, hother _ fun heq => ?_, own _ hbody⟩
    rw [heq] at hreports
    exact Nat.lt_irrefl _ hreports

/-- An engine that has run nothing yet. -/
theorem bare_sound (options : Options) {host : Host} (hw : host.Willing) :
    (bare options host).Sound [] := by
  obtain ⟨guard, -, hconforms⟩ := bare_conforms options host
  obtain ⟨hheap, -, hbody⟩ := hconforms _ (innate_admits (bare options host)) fun id _ =>
    admits_table _ id
  exact ⟨Arena.sound_empty, fun o ho => absurd ho (Array.not_mem_empty o), hheap.toHolds,
    List.forall_mem_singleton.mpr hbody, hw, Registered.empty⟩

/-! ### The globals of a new engine -/

section

variable {fields : List (String × Value)}

theorem defines_nativeClosure (hd : h.Defines fields) (chunk : String) (params : List String)
    (variadic : Bool) (body : Block) (captured : List (String × Value)) :
    (nativeClosure h chunk params variadic body captured).2.Defines fields := by
  unfold nativeClosure
  split
  · exact hd.newOutermost _ _ _
  · exact hd

theorem defines_addServices (hd : h.Defines fields)
    (hnames : ∀ f ∈ fields, f.1 ∉ "shared" :: "server" :: globalServices.map (·.1)) :
    (addServices h).Defines (globalServices ++ fields) := by
  have hdistinct : (globalServices.map (·.1)).Nodup := by decide
  have hservices := hd.foldl_setGlobal hdistinct fun f hf hmem => hnames f hf (by simp [hmem])
  have hother {name : String} (hmem : name ∈ ["shared", "server"]) :
      ∀ f ∈ globalServices ++ fields, f.1 ≠ name := by
    rw [List.forall_mem_append]
    have hown : ∀ f ∈ globalServices, ∀ name ∈ ["shared", "server"], f.1 ≠ name := by decide
    exact ⟨fun f hf => hown f hf name hmem, fun f hf heq =>
      hnames f hf (heq ▸ List.mem_append_left _ hmem)⟩
  unfold addServices
  dsimp only
  generalize globalServices.foldl _ h = withServices at hservices ⊢
  have hshared := (hservices.setGlobal "shared" (.table withServices.globals)
    (hother (by simp))).mono (List.subset_cons_self _ _)
  generalize withServices.setGlobal "shared" _ = withShared at hshared ⊢
  exact ((hshared.tableOf serverFields).setGlobal "server" _ (hother (by simp))).mono
    (List.subset_cons_self _ _)

theorem defines_protectGlobals (hd : h.Defines fields) : (protectGlobals h).Defines fields :=
  (hd.tableOf _).modifyTable fun _ _ => rfl

/-- Every function of the library and every service is the global of its name in a new engine. -/
theorem bare_defines (options : Options) (host : Host) :
    (bare options host).heap.Defines
      (globalServices ++ Script.Library.globalFields options.trusted) := by
  have hnames : ∀ limited, ∀ f ∈ Script.Library.globalFields limited,
      f.1 ∉ "shared" :: "server" :: globalServices.map (·.1) := by
    rintro (_ | _) <;> decide +kernel
  have hlibrary := Script.Library.start_defines options.trusted
  unfold bare
  dsimp only
  generalize Script.Library.start options.trusted = library at hlibrary ⊢
  have htext := defines_nativeClosure hlibrary "error_tostring" ["e"] false reportTextBody []
  generalize nativeClosure library "error_tostring" _ _ _ _ = made at htext ⊢
  have hreports := htext.tableOf [("__tostring", made.1)]
  generalize made.2.tableOf _ = made at hreports ⊢
  have hservices := defines_addServices (defines_nativeClosure hreports "srf_entry" ["f"] true
    setBodyBlock [("pcall", made.2.global "pcall")]) (hnames _)
  split
  · exact defines_protectGlobals hservices
  · exact hservices

end

end Engine

namespace Serving

variable {e : Engine} {stack : List FrameId}

theorem keeps_loadModule (m : InitModule) : Keeps stack e (loadModule m) Engine.Admits := by
  refine (keeps_load _ _).attempt.bind fun outcome e₁ _ houtcome => ?_
  cases outcome with
  | ok f => exact keeps_pure houtcome
  | error _ => exact keeps_load _ _

theorem keeps_evaluateModule (m : InitModule) : Keeps stack e (evaluateModule m) Any := by
  have hrun : Keeps stack e
      (loadModule m >>= fun f => runUnprotected Engine.callFunction f []) Results :=
    (keeps_loadModule m).bind fun _ _ _ hf =>
      keeps_runUnprotected Engine.callFunction_keeps hf fun _ hv => absurd hv List.not_mem_nil
  refine hrun.attempt.bind fun outcome e₁ _ houtcome => ?_
  cases outcome with
  | error f => exact keeps_throw rfl
  | ok results =>
    dsimp only
    split
    · refine keeps_modify fun hs => ⟨hs.withHeap (hs.heap.setGlobal (Engine.innate_admits e₁) _
        (admits_headD houtcome)), Engine.Follows.ofSame rfl rfl rfl rfl rfl⟩
    · exact keeps_pure trivial

end Serving

namespace Engine

/-- An engine that has started is sound, and follows one that has run nothing yet. -/
theorem start_spec {options : Options} {host host' : Host} {e : Engine} (hw : host.Willing)
    (hstart : start options host = (.ok e, host')) :
    e.Sound [] ∧ (bare options host).Follows e ∧ e.host = host' := by
  unfold start at hstart
  split at hstart
  · cases hstart
  · have hmodules := (Serving.keeps_forM (l := host.modules) fun m _ =>
      Serving.keeps_evaluateModule m).spec (bare_sound options hw)
    generalize host.modules.forM Serving.evaluateModule (bare options host) = done
      at hstart hmodules
    obtain ⟨outcome, e'⟩ := done
    obtain ⟨hs, hfollows, -⟩ := hmodules
    cases outcome with
    | error f => cases hstart
    | ok _ =>
      cases hstart
      exact ⟨hs, hfollows, rfl⟩

/-- No execution waits in an engine that has started. -/
theorem start_sound {options : Options} {host host' : Host} {e : Engine} (hw : host.Willing)
    (hstart : start options host = (.ok e, host')) :
    e.Sound [] ∧ e.executions = [] ∧ e.started = 0 := by
  obtain ⟨hs, hfollows, -⟩ := start_spec hw hstart
  exact ⟨hs, hfollows.executions, hfollows.started⟩

end Engine

end StoredRoutine
