import StoredRoutine.Proofs.Host.Runs

/-!
# `StoredRoutine.Proofs.Host.Routines`: definitions of routines over runs of a host

An operation says anew what at most one routine is (`lookupRoutine_perform`). If it leaves a
definition there, the definition has the stamp of the next transaction, which is then used up. So as
long as the transactions do not run out, a definition that a host ever had is older than the next
transaction (`Unused.older`), and its stamp is that of no other definition (`Unused.eq_of_stamp`).
-/

set_option autoImplicit false

namespace StoredRoutine

section Lookup

variable {α β : Type} [DecidableEq α]

/-- What is left of a list by a choice of keys. -/
theorem lookup_filter_key (p : α → Bool) (i : α) (entries : List (α × β)) :
    (entries.filter fun x => p x.1).lookup i = if p i then entries.lookup i else none := by
  induction entries with
  | nil => simp
  | cons x rest ih =>
    obtain ⟨k, b⟩ := x
    rw [List.filter_cons, List.lookup_cons]
    by_cases hk : i = k
    · subst hk
      by_cases hp : p i = true
      · simp [hp]
      · simp only [hp, Bool.false_eq_true, if_false] at ih ⊢
        exact ih
    · have hbeq : (i == k) = false := by simpa using hk
      by_cases hp : p k = true
      · rw [if_pos hp, List.lookup_cons, hbeq, ih]
      · rw [if_neg hp, hbeq, ih]

/-- A change of the entries under one key. -/
theorem lookup_map_key (key : α) (f : β → β) (i : α) (entries : List (α × β)) :
    (entries.map fun x => if x.1 = key then (x.1, f x.2) else x).lookup i =
      if i = key then (entries.lookup i).map f else entries.lookup i := by
  induction entries with
  | nil => simp
  | cons x rest ih =>
    obtain ⟨k, b⟩ := x
    rw [List.map_cons, List.lookup_cons]
    by_cases hk : i = k
    · subst hk
      by_cases hkey : i = key <;> simp [hkey]
    · have hbeq : (i == k) = false := by simpa using hk
      by_cases hkey : k = key
      · simp only [hkey, if_true, List.lookup_cons] at ih hbeq ⊢
        rw [hbeq, ih]
      · simp only [hkey, if_false, List.lookup_cons, hbeq, ih]

end Lookup

/-- Whether an operation takes a stamp. -/
def HostOperation.takesStamp : HostOperation → Bool
  | .createRoutine _ | .replaceSource .. => true
  | _ => false

/-- The number of stamps that operations take. -/
def stampsTaken (ops : List HostOperation) : Nat := ops.countP HostOperation.takesStamp

namespace Host

variable {h : Host} {op : HostOperation} {d d' : RoutineDefinition}

/-! ### One operation -/

/-- The routine that an operation creates, changes or removes. -/
def redefined? (h : Host) : HostOperation → Option TypeId
  | .createRoutine _ => some h.nextId
  | .replaceSource id _ => some id
  | .dropRoutine id => some id
  | _ => none

/-- The definition of that routine from then on. -/
def redefinition (h : Host) : HostOperation → Option RoutineDefinition
  | .createRoutine d => some { d with id := h.nextId, stamp := .ofTransaction h.nextTransaction }
  | .replaceSource id source =>
    (h.lookupRoutine id).map fun d => { d with source, stamp := .ofTransaction h.nextTransaction }
  | _ => none

theorem redefinition_stamp (hd : h.redefinition op = some d) :
    op.takesStamp = true ∧ d.stamp = .ofTransaction h.nextTransaction := by
  cases op with
  | createRoutine d =>
    obtain rfl := Option.some.inj hd
    exact ⟨rfl, rfl⟩
  | replaceSource id source =>
    obtain ⟨old, -, rfl⟩ := Option.map_eq_some_iff.mp hd
    exact ⟨rfl, rfl⟩
  | _ => exact nomatch hd

/-- An operation on the routines, and what it leaves alone. -/
theorem perform_routines (h : Host) (op : HostOperation) :
    (h.redefined? op = none → (h.perform op).routines = h.routines) ∧
      (h.perform op).nextTransaction = h.nextTransaction + if op.takesStamp then 1 else 0 := by
  -- statements and cursors
  have hkeep : ∀ {h' : Host}, h.Steady h' →
      (h.redefined? op = none → h'.routines = h.routines) ∧
        h'.nextTransaction = h.nextTransaction + 0 :=
    fun hs => ⟨fun _ => hs.routines, by rw [hs.nextTransaction, UInt32.add_zero]⟩
  have hsame : h.nextTransaction = h.nextTransaction + 0 := (UInt32.add_zero _).symm
  cases op with
  | createRoutine d => exact ⟨nofun, rfl⟩
  | replaceSource id source => exact ⟨nofun, rfl⟩
  | dropRoutine id => exact ⟨nofun, hsame⟩
  | insertRow table row =>
    show (_ → (h.insertRow table row).2.routines = _) ∧
      (h.insertRow table row).2.nextTransaction = _
    unfold insertRow
    split <;> exact ⟨fun _ => rfl, hsame⟩
  | execute sql params readOnly limit =>
    exact hkeep ((gentle_execute sql params readOnly limit).steady h)
  | openCursor sql params name readOnly =>
    exact hkeep ((gentle_openCursor sql params name readOnly).steady h)
  | fetch name direction count => exact hkeep ((gentle_fetch name direction count).steady h)
  | moveCursor name direction count =>
    exact hkeep ((gentle_moveCursor name direction count).steady h)
  | closeCursor name => exact hkeep ((gentle_closeCursor name).steady h)
  | releaseSavepoint id =>
    show (_ → (h.releaseSavepoint id).2.routines = _) ∧
      (h.releaseSavepoint id).2.nextTransaction = _
    unfold releaseSavepoint
    split
    · split <;> exact ⟨fun _ => rfl, hsame⟩
    · exact ⟨fun _ => rfl, hsame⟩
  | rollbackSavepoint id =>
    show (_ → (h.rollbackSavepoint id).2.routines = _) ∧
      (h.rollbackSavepoint id).2.nextTransaction = _
    unfold rollbackSavepoint
    split
    · exact ⟨fun _ => rfl, hsame⟩
    · split
      · split <;> exact ⟨fun _ => rfl, hsame⟩
      · exact ⟨fun _ => rfl, hsame⟩
  | _ => exact ⟨fun _ => rfl, hsame⟩

/-- What a routine is after an operation. -/
theorem lookupRoutine_perform (h : Host) (op : HostOperation) (i : TypeId) :
    (h.perform op).lookupRoutine i =
      if h.redefined? op = some i then h.redefinition op else h.lookupRoutine i := by
  -- an operation puts a definition in front, replaces it, or takes it out
  cases hredefined : h.redefined? op with
  | none =>
    unfold lookupRoutine
    rw [(perform_routines h op).1 hredefined, if_neg nofun]
  | some id =>
    cases op with
    | createRoutine d =>
      obtain rfl := Option.some.inj hredefined
      show ((h.nextId, _) :: h.routines).lookup i = _
      rw [List.lookup_cons]
      by_cases hi : i = h.nextId
      · subst hi
        simp [redefinition]
      · have hne : ¬ some h.nextId = some i := fun heq => hi (Option.some.inj heq).symm
        rw [if_neg hne, show (i == h.nextId) = false by simpa using hi]
        rfl
    | replaceSource target source =>
      obtain rfl := Option.some.inj hredefined
      show (h.routines.map _).lookup i = _
      rw [lookup_map_key target fun d : RoutineDefinition =>
        { d with source, stamp := .ofTransaction h.nextTransaction }]
      by_cases hi : i = target
      · subst hi
        rw [if_pos rfl, if_pos rfl]
        rfl
      · rw [if_neg hi, if_neg (fun heq => hi (Option.some.inj heq).symm)]
        rfl
    | dropRoutine target =>
      obtain rfl := Option.some.inj hredefined
      show (h.routines.filter _).lookup i = _
      rw [lookup_filter_key fun k => decide (k ≠ target)]
      by_cases hi : i = target
      · subst hi
        simp [redefinition]
      · rw [if_pos (decide_eq_true hi), if_neg (fun heq => hi (Option.some.inj heq).symm)]
        rfl
    | _ => exact nomatch hredefined

/-! ### Runs -/

/-- A host that has had no routines and no transactions yet. -/
structure Unused (h : Host) : Prop where
  routines : h.routines = []
  nextTransaction : h.nextTransaction = firstTransaction

theorem unused_new : new.Unused := ⟨rfl, rfl⟩

/-- In the course of operations a host has had a definition. -/
def HasDefined (h : Host) (ops : List HostOperation) (d : RoutineDefinition) : Prop :=
  ∃ before later id, ops = before ++ later ∧ (h.performAll before).lookupRoutine id = some d

theorem hasDefined_now {ops : List HostOperation} {id : TypeId}
    (hd : (h.performAll ops).lookupRoutine id = some d) : h.HasDefined ops d :=
  ⟨ops, [], id, (List.append_nil ops).symm, hd⟩

theorem HasDefined.append {ops : List HostOperation} (hd : h.HasDefined ops d)
    (more : List HostOperation) : h.HasDefined (ops ++ more) d := by
  obtain ⟨before, later, id, rfl, hlookup⟩ := hd
  exact ⟨before, later ++ more, id, List.append_assoc before later more, hlookup⟩

/-- What a host has had by the end of an operation it had before, or comes from the operation. -/
theorem HasDefined.of_append {ops : List HostOperation} (hd : h.HasDefined (ops ++ [op]) d) :
    h.HasDefined ops d ∨ (h.performAll ops).redefinition op = some d := by
  obtain ⟨before, later, id, heq, hlookup⟩ := hd
  -- the definition was there at the very end, or before
  obtain rfl | ⟨last, rest, rfl⟩ := List.eq_nil_or_concat later
  · rw [List.append_nil] at heq
    subst heq
    rw [performAll_append] at hlookup
    change ((h.performAll ops).perform op).lookupRoutine id = some d at hlookup
    rw [lookupRoutine_perform] at hlookup
    split at hlookup
    · exact .inr hlookup
    · exact .inl (hasDefined_now hlookup)
  · rw [List.concat_eq_append, ← List.append_assoc] at heq
    obtain ⟨rfl, -⟩ := List.append_inj' heq rfl
    exact .inl ⟨before, last, id, rfl, hlookup⟩

theorem stampsTaken_append (ops more : List HostOperation) :
    stampsTaken (ops ++ more) = stampsTaken ops + stampsTaken more := List.countP_append

/-- The next transaction counts the stamps that were taken. -/
theorem Unused.nextTransaction_performAll (hu : h.Unused) {ops : List HostOperation}
    (hfew : stampsTaken ops < 2 ^ 32 - 100) :
    (h.performAll ops).nextTransaction.toNat = 100 + stampsTaken ops := by
  induction ops using List.reverseRecOn with
  | nil =>
    show h.nextTransaction.toNat = 100
    rw [hu.nextTransaction]
    rfl
  | append_singleton ops op ih =>
    rw [stampsTaken_append] at hfew ⊢
    have hbefore := ih (by omega)
    rw [performAll_append]
    show ((h.performAll ops).perform op).nextTransaction.toNat = _
    rw [(perform_routines _ op).2]
    cases hstamp : op.takesStamp with
    | true =>
      have hone : stampsTaken [op] = 1 := by simp [stampsTaken, hstamp]
      rw [if_pos rfl, UInt32.toNat_add, hbefore, hone, UInt32.toNat_one,
        Nat.mod_eq_of_lt (by omega)]
      omega
    | false =>
      have hnone : stampsTaken [op] = 0 := by simp [stampsTaken, hstamp]
      rw [if_neg Bool.false_ne_true, UInt32.add_zero, hbefore, hnone, Nat.add_zero]

/-- At first there is no definition. -/
theorem Unused.not_hasDefined (hu : h.Unused) : ¬ h.HasDefined [] d := by
  rintro ⟨before, later, id, heq, hlookup⟩
  obtain ⟨rfl, -⟩ := List.append_eq_nil_iff.mp heq.symm
  change h.routines.lookup id = some d at hlookup
  rw [hu.routines] at hlookup
  exact nomatch hlookup

/-- A new definition has the stamp of the next transaction, which is used up with it. -/
theorem Unused.redefinition_transaction (hu : h.Unused) {ops : List HostOperation}
    (hfew : stampsTaken (ops ++ [op]) < 2 ^ 32 - 100)
    (hd : (h.performAll ops).redefinition op = some d) :
    d.stamp.transaction.toNat = 100 + stampsTaken ops ∧
      stampsTaken (ops ++ [op]) = stampsTaken ops + 1 := by
  obtain ⟨htakes, hstamp⟩ := redefinition_stamp hd
  have hone : stampsTaken (ops ++ [op]) = stampsTaken ops + 1 := by
    rw [stampsTaken_append]
    simp [stampsTaken, htakes]
  refine ⟨?_, hone⟩
  rw [hstamp]
  exact hu.nextTransaction_performAll (by omega)

/-- Every definition is older than the next transaction. -/
theorem Unused.older (hu : h.Unused) {ops : List HostOperation}
    (hfew : stampsTaken ops < 2 ^ 32 - 100) (hd : h.HasDefined ops d) :
    d.stamp.transaction.toNat < 100 + stampsTaken ops := by
  induction ops using List.reverseRecOn with
  | nil => exact absurd hd hu.not_hasDefined
  | append_singleton ops op ih =>
    rcases hd.of_append with hold | hnew
    · rw [stampsTaken_append] at hfew ⊢
      have := ih (by omega) hold
      omega
    · obtain ⟨htransaction, hone⟩ := hu.redefinition_transaction hfew hnew
      omega

/-- The stamp of a definition is that of no other. -/
theorem Unused.eq_of_stamp (hu : h.Unused) {ops : List HostOperation}
    (hfew : stampsTaken ops < 2 ^ 32 - 100) (hd : h.HasDefined ops d) (hd' : h.HasDefined ops d')
    (hstamp : d.stamp = d'.stamp) : d = d' := by
  induction ops using List.reverseRecOn with
  | nil => exact absurd hd hu.not_hasDefined
  | append_singleton ops op ih =>
    have hless : stampsTaken ops < 2 ^ 32 - 100 := by
      rw [stampsTaken_append] at hfew
      omega
    -- one that was there before and one that is new are of different transactions
    have hnever : ∀ {old new : RoutineDefinition}, h.HasDefined ops old →
        (h.performAll ops).redefinition op = some new → old.stamp ≠ new.stamp := by
      intro old new hold hnew heq
      have holder := hu.older hless hold
      obtain ⟨htransaction, -⟩ := hu.redefinition_transaction hfew hnew
      rw [heq] at holder
      omega
    rcases hd.of_append with hold | hnew <;> rcases hd'.of_append with hold' | hnew'
    · exact ih hless hold hold'
    · exact absurd hstamp (hnever hold hnew')
    · exact absurd hstamp.symm (hnever hold' hnew)
    · exact Option.some.inj (hnew.symm.trans hnew')

end Host

end StoredRoutine
