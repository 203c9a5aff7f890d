import Mathlib.Data.List.DropRight
import StoredRoutine.Proofs.Host.Atomic

/-!
# `StoredRoutine.Proofs.Host.TypeNames`: which type a name stands for

A definition enters its type under the next identifier, and under its name as it is given. A lookup
folds the name that it is asked for: the blanks around it go, and letters become small. So a name
stands for the type that was last defined under what it is folded to, and otherwise for the builtin
type of that name (`typeNames_performAll`).

Identifiers are numbers of thirty-two bits. As long as there are some left, the counter has passed
every identifier in use (`Passed`). Then what is found by an identifier never changes
(`Passed.lookupType_performAll`), and a definition that is given a name is the only one with its
identifier (`typeId?_iff_current`).
-/

set_option autoImplicit false

namespace StoredRoutine

section Lookup

variable {α β : Type} [DecidableEq α]

/-- A search in a list in which one entry alone has the value. -/
theorem lookup_eq_some_iff_of_only {front back : List (α × β)} {key : α} {value : β}
    (hfront : ∀ d ∈ front, d.2 ≠ value) (hback : ∀ d ∈ back, d.2 ≠ value) (asked : α) :
    (front ++ (key, value) :: back).lookup asked = some value ↔
      asked = key ∧ ∀ d ∈ front, d.1 ≠ key := by
  -- a list without the value does not answer with it, whatever it is asked
  have hmissed : ∀ {entries : List (α × β)}, (∀ d ∈ entries, d.2 ≠ value) →
      entries.lookup asked ≠ some value := by
    intro entries hentries hlookup
    obtain ⟨before, after, heq, -⟩ := List.lookup_eq_some_iff.mp hlookup
    exact hentries (asked, value) (heq ▸ List.mem_append_right before List.mem_cons_self) rfl
  rw [List.lookup_append, List.lookup_cons]
  constructor
  · intro hfound
    cases hlookup : front.lookup asked with
    | some other =>
      rw [hlookup] at hfound
      exact absurd (hlookup.trans hfound) (hmissed hfront)
    | none =>
      rw [hlookup, Option.none_or] at hfound
      split at hfound
      next heq =>
        obtain rfl := eq_of_beq heq
        exact ⟨rfl, fun d hin => (bne_iff_ne.mp (List.lookup_eq_none_iff.mp hlookup d hin)).symm⟩
      · exact absurd hfound (hmissed hback)
  · rintro ⟨rfl, hunique⟩
    have hnone : front.lookup asked = none :=
      List.lookup_eq_none_iff.mpr fun d hin => bne_iff_ne.mpr (hunique d hin).symm
    rw [hnone, beq_self_eq_true]
    rfl

end Lookup

/-! ### Folded names -/

namespace Text

/-- What a name is folded to before it is looked up. -/
def folded (name : String) : String := foldCase (trim name)

/-- The capital letters are those that have a small form. -/
def IsCapital (c : Char) : Prop := 65 ≤ c.toNat ∧ c.toNat ≤ 90

theorem toNat_toLower {c : Char} (hc : IsCapital c) : c.toLower.toNat = c.toNat + 32 := by
  have hval : c.val ≥ 'A'.val ∧ c.val ≤ 'Z'.val := hc
  unfold Char.toLower
  rw [dif_pos hval]
  show (c.val + ('a'.val - 'A'.val)).toNat = c.val.toNat + 32
  rw [UInt32.toNat_add, show ('a'.val - 'A'.val).toNat = 32 from rfl]
  have hmost : c.val.toNat ≤ 90 := hc.2
  omega

theorem toLower_of_not_isCapital {c : Char} (hc : ¬ IsCapital c) : c.toLower = c := dif_neg hc

theorem toLower_toLower (c : Char) : c.toLower.toLower = c.toLower := by
  by_cases hc : IsCapital c
  · refine toLower_of_not_isCapital fun hsmall => ?_
    have hleast := hc.1
    have hmost := hsmall.2
    rw [toNat_toLower hc] at hmost
    omega
  · rw [toLower_of_not_isCapital hc, toLower_of_not_isCapital hc]

/-- A letter is no blank, and neither is its small form. -/
theorem isBlank_toLower (c : Char) : isBlank c.toLower = isBlank c := by
  by_cases hc : IsCapital c
  · have hletter : ∀ d : Char, 65 ≤ d.toNat → d.toNat ≤ 122 → isBlank d = false := by
      intro d hleast hmost
      simp [isBlank, blankRanges]
      omega
    have hsmall := toNat_toLower hc
    obtain ⟨hleast, hmost⟩ := hc
    rw [hletter c hleast (by omega), hletter c.toLower (by omega) (by omega)]
  · rw [toLower_of_not_isCapital hc]

theorem trimBlanks_map_toLower (cs : List Char) :
    trimBlanks (cs.map Char.toLower) = (trimBlanks cs).map Char.toLower := by
  have hcomp : isBlank ∘ Char.toLower = isBlank := funext isBlank_toLower
  unfold trimBlanks
  rw [List.dropWhile_map, hcomp, ← List.map_reverse, List.dropWhile_map, hcomp, List.map_reverse]

/-- What is left of a text has no blanks at its ends. -/
theorem trimBlanks_trimBlanks (cs : List Char) : trimBlanks (trimBlanks cs) = trimBlanks cs := by
  have hkept : trimBlanks cs <+: cs.dropWhile isBlank := List.rdropWhile_prefix isBlank _
  have hfront : (trimBlanks cs).dropWhile isBlank = trimBlanks cs := by
    cases htrim : trimBlanks cs with
    | nil => rfl
    | cons c rest =>
      -- the first character that is left is the first one that is no blank
      have hhead : (cs.dropWhile isBlank).head? = some c := by
        obtain ⟨back, hback⟩ := hkept
        rw [← hback, htrim]
        rfl
      have hnot := List.head?_dropWhile_not isBlank cs
      rw [hhead] at hnot
      exact List.dropWhile_cons_of_neg (by simpa using hnot)
  unfold trimBlanks at hfront ⊢
  rw [hfront, List.reverse_reverse, List.dropWhile_idempotent]

/-- Folding a second time changes nothing. -/
theorem folded_folded (name : String) : folded (folded name) = folded name := by
  unfold folded foldCase trim
  rw [String.toList_ofList, String.toList_ofList, String.toList_ofList, trimBlanks_map_toLower,
    trimBlanks_trimBlanks, List.map_map]
  exact congrArg String.ofList (List.map_congr_left fun c _ => toLower_toLower c)

end Text

/-- Whether an operation takes an identifier. -/
def HostOperation.takesId : HostOperation → Bool
  | .defineEnum .. | .defineDomain .. | .defineComposite .. | .defineArray .. | .defineTable ..
  | .createRoutine .. => true
  | _ => false

/-- The number of identifiers that operations take. -/
def idsTaken (ops : List HostOperation) : Nat := ops.countP HostOperation.takesId

namespace Host

variable {h : Host} {op : HostOperation} {name : String} {id : TypeId}

/-! ### One operation -/

/-- The name of an array type. -/
def arrayName (h : Host) (element : TypeId) : String :=
  match h.lookupType element with
  | some e => "_" ++ e.name
  | none => s!"_{element}"

/-- The name of the type that an operation defines, and the identifier that it answers. -/
def defined? (h : Host) : HostOperation → Option (String × TypeId)
  | .defineEnum name labels => some (name, (h.defineEnum name labels).1)
  | .defineDomain name base typeMod => some (name, (h.defineDomain name base typeMod).1)
  | .defineComposite name attributes => some (name, (h.defineComposite name attributes).1)
  | .defineArray element => some (h.arrayName element, (h.defineArray element).1)
  | .defineTable name attributes => some (name, (h.defineTable name attributes).1)
  | _ => none

/-- The identifier of the type or routine that an operation answers. -/
def answeredId? (h : Host) : HostOperation → Option TypeId
  | .createRoutine d => some (h.createRoutine d).1
  | op => (h.defined? op).map (·.2)

/-- Every identifier that is answered comes from the counter. -/
theorem answeredId?_eq (h : Host) (op : HostOperation) :
    h.answeredId? op = if op.takesId then some h.nextId else none := by
  cases op <;> rfl

/-- The host after a definition. One type has been entered. -/
structure Enters (h h' : Host) (e : Catalog.Entry) : Prop where
  id : e.id = h.nextId
  types : h'.types = (e.id, e) :: h.types
  typeNames : h'.typeNames = (e.name, e.id) :: h.typeNames
  nextId : h'.nextId = h.nextId + 1

theorem enters_addType {e : Catalog.Entry} (he : e.id = h.nextId) :
    h.Enters (h.allocateId.2.addType e) e := ⟨he, rfl, rfl, rfl⟩

/-- A definition enters a type under the name and the identifier that it answers. -/
theorem enters_perform (hdef : h.defined? op = some (name, id)) :
    ∃ e, e.name = name ∧ e.id = id ∧ h.Enters (h.perform op) e := by
  cases op with
  | defineEnum name labels =>
    obtain ⟨rfl, rfl⟩ := Prod.mk.inj (Option.some.inj hdef)
    exact ⟨_, rfl, rfl, enters_addType rfl⟩
  | defineDomain name base typeMod =>
    obtain ⟨rfl, rfl⟩ := Prod.mk.inj (Option.some.inj hdef)
    refine ⟨_, ?_, ?_, enters_addType ?_⟩ <;> split <;> rfl
  | defineComposite name attributes =>
    obtain ⟨rfl, rfl⟩ := Prod.mk.inj (Option.some.inj hdef)
    exact ⟨_, rfl, rfl, enters_addType rfl⟩
  | defineArray element =>
    obtain ⟨rfl, rfl⟩ := Prod.mk.inj (Option.some.inj hdef)
    refine ⟨_, ?_, ?_, enters_addType ?_⟩
    · unfold arrayName lookupType
      dsimp only
      cases h.types.lookup element <;> rfl
    · split <;> rfl
    · split <;> rfl
  | defineTable name attributes =>
    obtain ⟨rfl, rfl⟩ := Prod.mk.inj (Option.some.inj hdef)
    exact ⟨_, rfl, rfl, rfl, rfl, rfl, rfl⟩
  | _ => exact nomatch hdef

/-- The types and their names are as they were. -/
structure SameTypes (h h' : Host) : Prop where
  types : h'.types = h.types
  typeNames : h'.typeNames = h.typeNames

/-- The counter is as it was, too. -/
structure SameCatalog (h h' : Host) : Prop extends SameTypes h h' where
  nextId : h'.nextId = h.nextId

theorem sameCatalog_run (h : Host) (sql : String) (params : Row) (readOnly : Bool) :
    h.SameCatalog (h.run sql params readOnly).2 := by
  obtain ⟨tables, hrun⟩ := h.run_eq sql params readOnly
  rw [hrun]
  exact ⟨⟨rfl, rfl⟩, rfl⟩

theorem sameCatalog_openCursor (h : Host) (sql : String) (params : Row) (asked : Option String)
    (readOnly : Bool) : h.SameCatalog (h.openCursor sql params asked readOnly).2 := by
  have hrun := h.sameCatalog_run sql params readOnly
  unfold openCursor
  split
  · exact ⟨⟨rfl, rfl⟩, rfl⟩
  · split
    next f h₁ heq => rw [heq] at hrun; exact hrun
    next result h₁ heq =>
      rw [heq] at hrun
      split
      · exact hrun
      · cases asked <;> exact ⟨⟨hrun.types, hrun.typeNames⟩, hrun.nextId⟩

theorem sameCatalog_fetch (h : Host) (name : String) (direction : FetchDirection) (count : Int64) :
    h.SameCatalog (h.fetch name direction count).2 := by
  unfold fetch
  split <;> exact ⟨⟨rfl, rfl⟩, rfl⟩

/-- An operation that defines no type leaves the types and their names alone, and takes an
identifier only for a routine. -/
theorem sameTypes_perform (hdef : h.defined? op = none) :
    h.SameTypes (h.perform op) ∧
      (h.perform op).nextId = h.nextId + if op.takesId then 1 else 0 := by
  -- statements, cursors and savepoints
  have hkeep : ∀ {h' : Host}, h.SameCatalog h' →
      h.SameTypes h' ∧ h'.nextId = h.nextId + 0 :=
    fun hs => ⟨hs.toSameTypes, by rw [hs.nextId, UInt32.add_zero]⟩
  cases op with
  | defineEnum | defineDomain | defineComposite | defineArray | defineTable => exact nomatch hdef
  | createRoutine d => exact ⟨⟨rfl, rfl⟩, rfl⟩
  | insertRow table row =>
    refine hkeep ?_
    show h.SameCatalog (h.insertRow table row).2
    unfold insertRow
    split <;> exact ⟨⟨rfl, rfl⟩, rfl⟩
  | execute sql params readOnly limit => exact hkeep (h.sameCatalog_run sql params readOnly)
  | openCursor sql params asked readOnly =>
    exact hkeep (h.sameCatalog_openCursor sql params asked readOnly)
  | fetch name direction count => exact hkeep (h.sameCatalog_fetch name direction count)
  | moveCursor name direction count => exact hkeep (h.sameCatalog_fetch name direction count)
  | closeCursor name =>
    refine hkeep ?_
    show h.SameCatalog (h.closeCursor name).2
    unfold closeCursor
    split <;> exact ⟨⟨rfl, rfl⟩, rfl⟩
  | releaseSavepoint id =>
    refine hkeep ?_
    show h.SameCatalog (h.releaseSavepoint id).2
    unfold releaseSavepoint
    split
    · split <;> exact ⟨⟨rfl, rfl⟩, rfl⟩
    · exact ⟨⟨rfl, rfl⟩, rfl⟩
  | rollbackSavepoint id =>
    refine hkeep ?_
    show h.SameCatalog (h.rollbackSavepoint id).2
    unfold rollbackSavepoint
    split
    · exact ⟨⟨rfl, rfl⟩, rfl⟩
    · split
      · split <;> exact ⟨⟨rfl, rfl⟩, rfl⟩
      · exact ⟨⟨rfl, rfl⟩, rfl⟩
  | _ => exact hkeep ⟨⟨rfl, rfl⟩, rfl⟩

theorem typeNames_perform (h : Host) (op : HostOperation) :
    (h.perform op).typeNames = (h.defined? op).toList ++ h.typeNames := by
  cases hdef : h.defined? op with
  | none => exact (sameTypes_perform hdef).1.typeNames
  | some d =>
    obtain ⟨e, hname, hid, henters⟩ := enters_perform hdef
    rw [henters.typeNames, hname, hid]
    rfl

theorem takesId_of_defined {d : String × TypeId} (hdef : h.defined? op = some d) :
    op.takesId = true := by
  cases op with
  | defineEnum | defineDomain | defineComposite | defineArray | defineTable => rfl
  | _ => exact nomatch hdef

theorem idsTaken_of_defined {d : String × TypeId} (hdef : h.defined? op = some d) :
    idsTaken [op] = 1 := by
  simp [idsTaken, takesId_of_defined hdef]

theorem nextId_perform (h : Host) (op : HostOperation) :
    (h.perform op).nextId = h.nextId + if op.takesId then 1 else 0 := by
  cases hdef : h.defined? op with
  | none => exact (sameTypes_perform hdef).2
  | some d =>
    obtain ⟨e, -, -, henters⟩ := enters_perform hdef
    rw [henters.nextId, takesId_of_defined hdef, if_pos rfl]

/-! ### Runs -/

/-- What the definitions of a run define, the newest first. -/
def definitions (h : Host) : List HostOperation → List (String × TypeId)
  | [] => []
  | op :: rest => (h.perform op).definitions rest ++ (h.defined? op).toList

/-- Names are entered as they are given, one on top of the other. -/
theorem typeNames_performAll (h : Host) (ops : List HostOperation) :
    (h.performAll ops).typeNames = h.definitions ops ++ h.typeNames := by
  induction ops generalizing h with
  | nil => rfl
  | cons op rest ih =>
    show ((h.perform op).performAll rest).typeNames = _
    rw [ih, typeNames_perform, definitions, List.append_assoc]

/-- There are identifiers left for all operations of a run. -/
def Room (h : Host) (ops : List HostOperation) : Prop := h.nextId.toNat + idsTaken ops < 2 ^ 32

instance (h : Host) (ops : List HostOperation) : Decidable (h.Room ops) := Nat.decLt _ _

theorem idsTaken_append (ops more : List HostOperation) :
    idsTaken (ops ++ more) = idsTaken ops + idsTaken more := List.countP_append

/-- The counter counts the identifiers that were taken. -/
theorem Room.step {rest : List HostOperation} (hroom : h.Room (op :: rest)) :
    (h.perform op).nextId.toNat = h.nextId.toNat + idsTaken [op] ∧ (h.perform op).Room rest := by
  unfold Room at hroom ⊢
  rw [← List.singleton_append, idsTaken_append] at hroom
  have hcount : (h.perform op).nextId.toNat = h.nextId.toNat + idsTaken [op] := by
    rw [nextId_perform]
    cases htakes : op.takesId with
    | true =>
      have hone : idsTaken [op] = 1 := by simp [idsTaken, htakes]
      rw [if_pos rfl, UInt32.toNat_add, hone, UInt32.toNat_one, Nat.mod_eq_of_lt (by omega)]
    | false =>
      have hnone : idsTaken [op] = 0 := by simp [idsTaken, htakes]
      rw [if_neg Bool.false_ne_true, UInt32.add_zero, hnone, Nat.add_zero]
  exact ⟨hcount, by omega⟩

theorem Room.initial {before later : List HostOperation} (hroom : h.Room (before ++ later)) :
    h.Room before := by
  unfold Room at hroom ⊢
  rw [idsTaken_append] at hroom
  omega

theorem Room.toNat_nextId {ops : List HostOperation} (hroom : h.Room ops) :
    (h.performAll ops).nextId.toNat = h.nextId.toNat + idsTaken ops := by
  induction ops generalizing h with
  | nil => rfl
  | cons op rest ih =>
    obtain ⟨hcount, hrest⟩ := hroom.step
    show ((h.perform op).performAll rest).nextId.toNat = _
    rw [ih hrest, hcount, Nat.add_assoc, ← idsTaken_append]
    rfl

theorem Room.later {before later : List HostOperation} (hroom : h.Room (before ++ later)) :
    (h.performAll before).Room later := by
  have hcount := hroom.initial.toNat_nextId
  unfold Room at hroom ⊢
  rw [idsTaken_append] at hroom
  omega

/-- What an operation answers is not the identifier that comes next at a later time. -/
theorem Room.answeredId?_ne {front back : List HostOperation} {o : HostOperation}
    (hroom : h.Room (front ++ o :: back)) :
    (h.performAll front).answeredId? o ≠ some (h.performAll (front ++ o :: back)).nextId := by
  rw [answeredId?_eq]
  cases htakes : o.takesId with
  | false => exact nofun
  | true =>
    intro hanswer
    have hearlier := hroom.initial.toNat_nextId
    have hlater := hroom.toNat_nextId
    -- the counter has gone on by one at least, and has not come back
    have htaken : 0 < idsTaken (o :: back) := by simp [idsTaken, htakes]
    rw [← Option.some.inj hanswer, hearlier, idsTaken_append] at hlater
    omega

/-- The counter has passed every identifier of a type. -/
structure Passed (h : Host) : Prop where
  types : ∀ p ∈ h.types, p.1.toNat < h.nextId.toNat
  typeNames : ∀ p ∈ h.typeNames, p.2.toNat < h.nextId.toNat

theorem passed_new : new.Passed where
  types := by decide
  typeNames := by decide

theorem Passed.perform {rest : List HostOperation} (hp : h.Passed) (hroom : h.Room (op :: rest)) :
    (h.perform op).Passed := by
  have hcount := hroom.step.1
  -- identifiers that were given out are below the next one; a definition takes just that one
  cases hdef : h.defined? op with
  | none =>
    obtain ⟨hsame, -⟩ := sameTypes_perform hdef
    refine ⟨fun p hin => ?_, fun p hin => ?_⟩
    · rw [hsame.types] at hin
      exact Nat.lt_of_lt_of_le (hp.types p hin) (hcount ▸ Nat.le_add_right _ _)
    · rw [hsame.typeNames] at hin
      exact Nat.lt_of_lt_of_le (hp.typeNames p hin) (hcount ▸ Nat.le_add_right _ _)
  | some d =>
    obtain ⟨e, -, -, henters⟩ := enters_perform hdef
    have hone := idsTaken_of_defined hdef
    have hid : e.id.toNat = h.nextId.toNat := by rw [henters.id]
    refine ⟨fun p hin => ?_, fun p hin => ?_⟩
    · rw [henters.types] at hin
      rcases List.mem_cons.mp hin with rfl | hin
      · show e.id.toNat < _
        omega
      · have hbefore := hp.types p hin
        omega
    · rw [henters.typeNames] at hin
      rcases List.mem_cons.mp hin with rfl | hin
      · show e.id.toNat < _
        omega
      · have hbefore := hp.typeNames p hin
        omega

theorem Passed.performAll {before later : List HostOperation} (hp : h.Passed)
    (hroom : h.Room (before ++ later)) : (h.performAll before).Passed := by
  induction before generalizing h with
  | nil => exact hp
  | cons op rest ih => exact ih (hp.perform hroom) hroom.step.2

theorem Passed.lookupType_lt (hp : h.Passed) {i : TypeId} {e : Catalog.Entry}
    (hlookup : h.lookupType i = some e) : i.toNat < h.nextId.toNat := by
  obtain ⟨front, back, heq, -⟩ := List.lookup_eq_some_iff.mp hlookup
  exact hp.types (i, e) (heq ▸ List.mem_append_right front List.mem_cons_self)

/-- A type that was found by its identifier is found again. -/
theorem Passed.lookupType_perform (hp : h.Passed) {i : TypeId} {e : Catalog.Entry}
    (hlookup : h.lookupType i = some e) (op : HostOperation) :
    (h.perform op).lookupType i = some e := by
  have hless := hp.lookupType_lt hlookup
  unfold lookupType at hlookup ⊢
  cases hdef : h.defined? op with
  | none => rw [(sameTypes_perform hdef).1.types, hlookup]
  | some d =>
    obtain ⟨new, -, -, henters⟩ := enters_perform hdef
    have hne : (i == new.id) = false := by
      rw [henters.id, beq_eq_false_iff_ne]
      rintro rfl
      exact Nat.lt_irrefl _ hless
    rw [henters.types, List.lookup_cons, hne]
    exact hlookup

theorem Passed.lookupType_performAll {ops : List HostOperation} (hp : h.Passed)
    (hroom : h.Room ops) {i : TypeId} {e : Catalog.Entry} (hlookup : h.lookupType i = some e) :
    (h.performAll ops).lookupType i = some e := by
  induction ops generalizing h with
  | nil => exact hlookup
  | cons op rest ih =>
    exact ih (hp.perform hroom) hroom.step.2 (hp.lookupType_perform hlookup op)

/-- What a run defines has identifiers that the counter had not passed. -/
theorem le_of_mem_definitions {ops : List HostOperation} (hroom : h.Room ops) :
    ∀ d ∈ h.definitions ops, h.nextId.toNat ≤ d.2.toNat := by
  induction ops generalizing h with
  | nil => exact fun d hin => absurd hin List.not_mem_nil
  | cons op rest ih =>
    intro d hin
    obtain ⟨hcount, hrest⟩ := hroom.step
    rcases List.mem_append.mp hin with hlater | hnow
    · have hpassed := ih hrest d hlater
      omega
    · obtain ⟨e, -, hid, henters⟩ := enters_perform (Option.mem_toList.mp hnow)
      rw [← hid, henters.id]

/-- A text is folded to a name, and no later definition is given this name. -/
def Current (h : Host) (later : List HostOperation) (name text : String) : Prop :=
  Text.folded text = name ∧ ∀ d ∈ h.definitions later, d.1 ≠ name

/-- The type that was defined last stands for the texts that are folded to its name, until the name
is defined again. -/
theorem Passed.typeId?_iff_current {later : List HostOperation} (hp : h.Passed)
    (hdef : h.defined? op = some (name, id)) (hroom : h.Room (op :: later)) (text : String) :
    ((h.perform op).performAll later).typeId? text = some id ↔
      (h.perform op).Current later name text := by
  obtain ⟨e, -, hid, henters⟩ := enters_perform hdef
  obtain ⟨hcount, hlater⟩ := hroom.step
  have hone := idsTaken_of_defined hdef
  have hnow : id.toNat = h.nextId.toNat := by rw [← hid, henters.id]
  have hnewer : ∀ d ∈ (h.perform op).definitions later, d.2 ≠ id := by
    rintro d hin rfl
    have hpassed := le_of_mem_definitions hlater d hin
    omega
  have holder : ∀ d ∈ h.typeNames, d.2 ≠ id := by
    rintro d hin rfl
    have hpassed := hp.typeNames d hin
    omega
  -- the entry of the definition lies between what was entered later and what was there before
  have hnames : ((h.perform op).performAll later).typeNames =
      (h.perform op).definitions later ++ (name, id) :: h.typeNames := by
    rw [typeNames_performAll, typeNames_perform, hdef]
    rfl
  unfold typeId?
  rw [hnames]
  exact lookup_eq_some_iff_of_only hnewer holder _

/-- A type whose name is changed by folding is found by no name. -/
theorem not_current_of_folded_ne {later : List HostOperation} (hname : Text.folded name ≠ name)
    (text : String) : ¬ h.Current later name text := by
  rintro ⟨rfl, -⟩
  exact hname (Text.folded_folded text)

end Host

end StoredRoutine
