import StoredRoutine.Proofs.Datum.Reading
import StoredRoutine.Proofs.Marshal.Documents

/-!
# `StoredRoutine.Proofs.Marshal.Entries`: the entries of tables in documents

A table that does not become an array becomes an object under the texts of its keys. Integers and
texts are different keys, but an integer and its decimal form have the same text, and a member that
is entered a second time replaces the first one. So a table keeps its entries if and only if none of
its integer keys is there as a text too (`keeps_table_iff`), and a value keeps all that is in it if
this holds of every table at every level (`toJson_keeps_iff`).
-/

set_option autoImplicit false

namespace StoredRoutine

/-! ### The texts of keys -/

namespace ScriptKey

/-- No integer is among the keys together with its text. -/
def Apart (keys : List ScriptKey) : Prop :=
  ∀ n : Int64, .int n ∈ keys → .text (toString n.toInt) ∉ keys

theorem toString_toInt_injective : Function.Injective fun n : Int64 => toString n.toInt := by
  intro m n hsame
  -- each of them is read back from its text
  have hread := congrArg (fun s : String => Decimal.readInt? s.toList) hsame
  simp only [Decimal.readInt?_toString] at hread
  exact Int64.toInt_inj.mp (Option.some.inj hread)

/-- Among keys that are apart, different ones have different texts. -/
theorem Apart.eq_of_display {keys : List ScriptKey} (hapart : Apart keys) {k l : ScriptKey}
    (hk : k ∈ keys) (hl : l ∈ keys) (hsame : k.display = l.display) : k = l := by
  cases k with
  | int m =>
    cases l with
    | int n => exact congrArg _ (toString_toInt_injective hsame)
    | text s =>
      -- the text of an integer that is a key is no key
      cases hsame
      exact absurd hl (hapart m hk)
  | text s =>
    cases l with
    | int n =>
      cases hsame
      exact absurd hk (hapart n hl)
    | text t => exact congrArg _ hsame

theorem nodup_display_iff {keys : List ScriptKey} (hkeys : keys.Nodup) :
    (keys.map display).Nodup ↔ Apart keys := by
  constructor
  · intro hdisplay n hint htext
    cases List.inj_on_of_nodup_map hdisplay hint htext rfl
  · intro hapart
    exact hkeys.map_on fun k hk l hl hsame => hapart.eq_of_display hk hl hsame

end ScriptKey

/-! ### Members that are replaced -/

namespace Json

variable {α : Type} {key : String} {members : List (String × α)}

theorem length_insertMember_le (key : String) (value : α) (members : List (String × α)) :
    (insertMember key value members).length ≤ members.length + 1 := by
  induction members with
  | nil => exact Nat.le_refl _
  | cons m rest ih =>
    unfold insertMember
    split
    · exact Nat.le_succ _
    · split
      · exact Nat.le_refl _
      · exact Nat.succ_le_succ ih

/-- A member with a key that is there replaces another one. -/
theorem length_insertMember_of_mem (value : α) (hsorted : members.Pairwise fun a b => a.1 < b.1)
    (hmem : key ∈ members.map (·.1)) :
    (insertMember key value members).length = members.length := by
  induction members with
  | nil => cases hmem
  | cons m rest ih =>
    obtain ⟨hfirst, hrest⟩ := List.pairwise_cons.mp hsorted
    unfold insertMember
    split
    · rfl
    next hne =>
      -- the key is further on, and so greater than the first one
      have hlater : key ∈ rest.map (·.1) := (List.mem_cons.mp hmem).resolve_left hne
      obtain ⟨later, hlater', rfl⟩ := List.mem_map.mp hlater
      rw [if_neg (not_lt_of_gt (hfirst later hlater')), List.length_cons, ih hrest hlater]
      rfl

theorem length_foldl_insertMember_le (members entered : List (String × α)) :
    (members.foldl (fun acc m => insertMember m.1 m.2 acc) entered).length ≤
      members.length + entered.length := by
  induction members generalizing entered with
  | nil => exact Nat.le_of_eq (Nat.zero_add _).symm
  | cons m rest ih =>
    have hfirst := length_insertMember_le m.1 m.2 entered
    have hrest := ih (insertMember m.1 m.2 entered)
    rw [List.length_cons, List.foldl_cons]
    omega

/-- None of the members that are entered is lost if and only if their keys are different. -/
theorem length_foldl_insertMember_iff {entered : List (String × α)}
    (hsorted : entered.Pairwise fun a b => a.1 < b.1) :
    (members.foldl (fun acc m => insertMember m.1 m.2 acc) entered).length =
        members.length + entered.length ↔ ((members ++ entered).map (·.1)).Nodup := by
  refine ⟨fun hlength => ?_, fun hkeys => ?_⟩
  -- a member that replaces another one cannot be made up for by those that are entered later
  · induction members generalizing entered with
    | nil => exact (List.pairwise_map.mpr hsorted).imp ne_of_lt
    | cons m rest ih =>
      rw [List.foldl_cons, List.length_cons] at hlength
      have hrest := length_foldl_insertMember_le rest (insertMember m.1 m.2 entered)
      by_cases hmem : m.1 ∈ entered.map (·.1)
      · have hreplaced := length_insertMember_of_mem m.2 hsorted hmem
        omega
      · have hperm := insertMember_perm m.2 hmem
        have hlonger := hperm.length_eq
        rw [List.length_cons] at hlonger
        have hmove : (rest ++ insertMember m.1 m.2 entered).Perm (m :: rest ++ entered) :=
          (hperm.append_left rest).trans List.perm_middle
        exact (hmove.map (·.1)).nodup_iff.mp (ih (sorted_insertMember m.2 hsorted hmem) (by omega))
  · rw [(foldl_insertMember hsorted hkeys).1.length_eq, List.length_append]

theorem length_sortMembers_iff :
    (sortMembers members).length = members.length ↔ (members.map (·.1)).Nodup := by
  have hentered := @length_foldl_insertMember_iff α members [] List.Pairwise.nil
  rwa [List.append_nil] at hentered

/-- A member is found under its key if the keys are different. -/
theorem lookup_of_mem {value : α} (hkeys : (members.map (·.1)).Nodup)
    (hmem : (key, value) ∈ members) : members.lookup key = some value := by
  obtain ⟨before, after, rfl⟩ := List.append_of_mem hmem
  refine List.lookup_eq_some_iff.mpr ⟨before, after, rfl, fun m hm => ?_⟩
  rw [List.map_append, List.nodup_append] at hkeys
  have hne := hkeys.2.2 m.1 (List.mem_map_of_mem hm) key List.mem_cons_self
  simpa using Ne.symm hne

theorem lookup_sortMembers_of_mem {value : α} (hkeys : (members.map (·.1)).Nodup)
    (hmem : (key, value) ∈ members) : (sortMembers members).lookup key = some value := by
  have hperm : (sortMembers members).Perm members := by
    rw [sortMembers_eq_mergeSort hkeys]
    exact List.mergeSort_perm members _
  exact lookup_of_mem ((hperm.map (·.1)).nodup_iff.mpr hkeys) (hperm.mem_iff.mpr hmem)

end Json

/-! ### Documents of entries -/

namespace ScriptTable

variable {entries : ScriptTable}

/-- The documents of the entries, under the texts of their keys. -/
theorem toMembers_eq_map {document : ScriptValue → Json}
    (hentries : ∀ key value, (key, value) ∈ entries → value.toJson = .ok (document value)) :
    toMembers entries = .ok (entries.map fun e => (e.1.display, document e.2)) := by
  induction entries with
  | nil => rfl
  | cons e rest ih =>
    obtain ⟨key, value⟩ := e
    exact toMembers_cons (hentries key value List.mem_cons_self)
      (ih fun key value hmem => hentries key value (List.mem_cons_of_mem _ hmem))

theorem key_of_isSequence (hsequence : isSequence entries = true) {n : Nat} {key : ScriptKey}
    {value : ScriptValue} (hn : entries[n]? = some (key, value)) : key = .ofPosition (n + 1) := by
  unfold isSequence at hsequence
  rw [Bool.and_eq_true, all_zipIdx_iff] at hsequence
  -- the keys are those of the positions, so this one is too
  have hkey := congrArg (fun keys : List ScriptKey => keys[n]?) hsequence.2
  obtain ⟨hlength, -⟩ := List.getElem?_eq_some_iff.mp hn
  simp only [List.getElem?_map, hn, List.getElem?_range' hlength, Option.map_some,
    Option.some.injEq] at hkey
  rw [hkey, Nat.one_mul, Nat.zero_add, Nat.add_comm]

/-- The keys of an array are all integers. -/
theorem apart_of_isSequence (hsequence : isSequence entries = true) :
    ScriptKey.Apart (entries.map (·.1)) := by
  intro n _ htext
  obtain ⟨⟨key, value⟩, hmem, hkey⟩ := List.mem_map.mp htext
  obtain ⟨n, hn⟩ := List.mem_iff_getElem?.mp hmem
  cases hkey.symm.trans (key_of_isSequence hsequence hn)

end ScriptTable

/-! ### Values at every level -/

namespace ScriptValue

/-- What a document can represent: tables of such values under different keys, numbers that are
finite, strings that are UTF-8. -/
inductive Plain : ScriptValue → Prop
  | nil : Plain .nil
  | bool (b : Bool) : Plain (.bool b)
  | int (n : Int64) : Plain (.int n)
  | number {x : Float} (hx : x.isFinite = true) : Plain (.number x)
  | string {bytes : ByteArray} {s : String} (hs : String.fromUTF8? bytes = some s) :
      Plain (.string bytes)
  | table {entries : ScriptTable} (hkeys : (entries.map (·.1)).Nodup)
      (hentries : ∀ key value, (key, value) ∈ entries → Plain value) : Plain (.table entries)

/-- In none of the tables, at any level, there is an integer among the keys together with its
text. -/
inductive Apart : ScriptValue → Prop
  | scalar {v : ScriptValue} (hv : ∀ entries, v ≠ .table entries) : Apart v
  | table {entries : ScriptTable} (hkeys : ScriptKey.Apart (entries.map (·.1)))
      (hentries : ∀ key value, (key, value) ∈ entries → Apart value) : Apart (.table entries)

/-- A document has every entry of a value, at every level. -/
inductive Keeps : ScriptValue → Json → Prop
  | scalar {v : ScriptValue} {j : Json} (hv : ∀ entries, v ≠ .table entries)
      (hj : v.toJson = .ok j) : Keeps v j
  /-- An array has as many items as the table has entries. Each one is the document of the entry
  under its position. -/
  | array {entries : ScriptTable} {items : List Json} (hlength : items.length = entries.length)
      (hitems : ∀ (n : Nat) key value, entries[n]? = some (key, value) →
        key = .ofPosition (n + 1) ∧ ∃ j, items[n]? = some j ∧ value.toJson = .ok j)
      (hentries : ∀ key value j, (key, value) ∈ entries → value.toJson = .ok j → Keeps value j) :
      Keeps (.table entries) (.array items)
  /-- An object has as many members as the table has entries. The member of each key is the document
  of the entry. -/
  | object {entries : ScriptTable} {members : List (String × Json)}
      (hlength : members.length = entries.length)
      (hmembers : ∀ key value, (key, value) ∈ entries →
        ∃ j, members.lookup key.display = some j ∧ value.toJson = .ok j)
      (hentries : ∀ key value j, (key, value) ∈ entries → value.toJson = .ok j → Keeps value j) :
      Keeps (.table entries) (.object members)

variable {v : ScriptValue} {entries : ScriptTable} {document : ScriptValue → Json}

theorem toJson_table
    (hentries : ∀ key value, (key, value) ∈ entries → value.toJson = .ok (document value)) :
    (table entries).toJson = .ok (if ScriptTable.isSequence entries then
        .array (entries.map fun e => document e.2)
      else .object (Json.sortMembers (entries.map fun e => (e.1.display, document e.2)))) := by
  unfold toJson
  rw [ScriptTable.toMembers_eq_map hentries]
  show Except.ok (if _ then Json.array (List.map _ (List.map _ entries)) else _) = _
  rw [List.map_map]
  rfl

theorem Keeps.entry {key : ScriptKey} {value : ScriptValue} {j k : Json}
    (hkeeps : Keeps (.table entries) j) (hmem : (key, value) ∈ entries)
    (hk : value.toJson = .ok k) : Keeps value k := by
  cases hkeeps with
  | scalar hv => cases hv entries rfl
  | array _ _ hentries => exact hentries key value k hmem hk
  | object _ _ hentries => exact hentries key value k hmem hk

/-- An array keeps all that its entries keep. -/
theorem keeps_array (hsequence : ScriptTable.isSequence entries = true)
    (hentries : ∀ key value, (key, value) ∈ entries → value.toJson = .ok (document value))
    (hkeeps : ∀ key value, (key, value) ∈ entries → Keeps value (document value)) :
    Keeps (.table entries) (.array (entries.map fun e => document e.2)) := by
  refine .array (List.length_map _) (fun n key value hn => ?_) fun key value j hmem hj => ?_
  · refine ⟨ScriptTable.key_of_isSequence hsequence hn, document value, ?_, ?_⟩
    · rw [List.getElem?_map, hn]
      rfl
    · exact hentries key value (List.mem_of_getElem? hn)
  · cases (hentries key value hmem).symm.trans hj
    exact hkeeps key value hmem

/-- The texts of the keys are the keys of the members. -/
theorem nodup_members_iff (document : ScriptValue → Json) (hkeys : (entries.map (·.1)).Nodup) :
    ((entries.map fun e => (e.1.display, document e.2)).map (·.1)).Nodup ↔
      ScriptKey.Apart (entries.map (·.1)) := by
  rw [← ScriptKey.nodup_display_iff hkeys, List.map_map, List.map_map]
  rfl

/-- An object under keys that are apart keeps all that its entries keep. -/
theorem keeps_object (hkeys : (entries.map (·.1)).Nodup)
    (hapart : ScriptKey.Apart (entries.map (·.1)))
    (hentries : ∀ key value, (key, value) ∈ entries → value.toJson = .ok (document value))
    (hkeeps : ∀ key value, (key, value) ∈ entries → Keeps value (document value)) :
    Keeps (.table entries)
      (.object (Json.sortMembers (entries.map fun e => (e.1.display, document e.2)))) := by
  have htexts := (nodup_members_iff document hkeys).mpr hapart
  refine .object ?_ (fun key value hmem => ?_) fun key value j hmem hj => ?_
  · rw [Json.length_sortMembers_iff.mpr htexts, List.length_map]
  · refine ⟨document value, Json.lookup_sortMembers_of_mem htexts ?_, hentries key value hmem⟩
    exact List.mem_map_of_mem (f := fun e => (e.1.display, document e.2)) hmem
  · cases (hentries key value hmem).symm.trans hj
    exact hkeeps key value hmem

/-- A table keeps its entries if and only if its keys are apart, and what is in them if they do. -/
theorem keeps_table_iff {j : Json} (hkeys : (entries.map (·.1)).Nodup)
    (hentries : ∀ key value, (key, value) ∈ entries → value.toJson = .ok (document value))
    (hj : (table entries).toJson = .ok j) :
    Keeps (.table entries) j ↔ ScriptKey.Apart (entries.map (·.1)) ∧
      ∀ key value, (key, value) ∈ entries → Keeps value (document value) := by
  rw [toJson_table hentries] at hj
  cases hsequence : ScriptTable.isSequence entries with
  | true =>
    rw [hsequence, if_pos rfl] at hj
    cases hj
    exact ⟨fun hkeeps => ⟨ScriptTable.apart_of_isSequence hsequence, fun key value hmem =>
      hkeeps.entry hmem (hentries key value hmem)⟩,
      fun hboth => keeps_array hsequence hentries hboth.2⟩
  | false =>
    rw [hsequence, if_neg Bool.false_ne_true] at hj
    cases hj
    refine ⟨fun hkeeps => ⟨?_, fun key value hmem => hkeeps.entry hmem (hentries key value hmem)⟩,
      fun hboth => keeps_object hkeys hboth.1 hentries hboth.2⟩
    cases hkeeps with
    | scalar hv => cases hv entries rfl
    | object hlength =>
      -- as many members as there were before they were sorted
      refine (nodup_members_iff document hkeys).mp (Json.length_sortMembers_iff.mp ?_)
      rw [hlength, List.length_map]

theorem keeps_scalar {j : Json} (hv : ∀ entries, v ≠ .table entries) (hj : v.toJson = .ok j) :
    ∃ j, v.toJson = .ok j ∧ (Keeps v j ↔ v.Apart) :=
  ⟨j, hj, fun _ => .scalar hv, fun _ => .scalar hv hj⟩

theorem exists_document
    (hentries : ∀ key value, (key, value) ∈ entries → ∃ j, value.toJson = .ok j) :
    ∃ document : ScriptValue → Json,
      ∀ key value, (key, value) ∈ entries → value.toJson = .ok (document value) := by
  refine ⟨fun v => v.toJson.toOption.getD .null, fun key value hmem => ?_⟩
  obtain ⟨j, hj⟩ := hentries key value hmem
  show value.toJson = .ok (value.toJson.toOption.getD .null)
  rw [hj]
  rfl

/-- A plain value has a document, and this keeps everything in it, at every level, if and only if in
none of its tables there is an integer among the keys together with its text. -/
theorem toJson_keeps_iff (hplain : v.Plain) :
    ∃ j, v.toJson = .ok j ∧ (Keeps v j ↔ v.Apart) := by
  induction hplain with
  | nil => exact keeps_scalar (fun _ => nofun) rfl
  | bool b => exact keeps_scalar (fun _ => nofun) rfl
  | int n => exact keeps_scalar (fun _ => nofun) rfl
  | @number x hx =>
    have hj : (ScriptValue.number x).toJson = .ok (.number (.float x)) := if_pos hx
    exact keeps_scalar (fun _ => nofun) hj
  | @string bytes s hs =>
    have hj : (ScriptValue.string bytes).toJson = .ok (.string s) := by
      unfold toJson
      rw [hs]
    exact keeps_scalar (fun _ => nofun) hj
  | @table entries hkeys _ ih =>
    obtain ⟨document, hentries⟩ := exists_document fun key value hmem =>
      (ih key value hmem).imp fun _ => And.left
    -- what is known of the entries, for the documents that stand in the one of the table
    have hsame (key : ScriptKey) (value : ScriptValue) (hmem : (key, value) ∈ entries) :
        Keeps value (document value) ↔ value.Apart := by
      obtain ⟨j, hj, hiff⟩ := ih key value hmem
      cases hj.symm.trans (hentries key value hmem)
      exact hiff
    have hj := toJson_table hentries
    refine ⟨_, hj, (keeps_table_iff hkeys hentries hj).trans ?_⟩
    constructor
    · rintro ⟨hapart, hkeeps⟩
      exact .table hapart fun key value hmem => (hsame key value hmem).mp (hkeeps key value hmem)
    · rintro (⟨hv⟩ | ⟨hapart, hinner⟩)
      · cases hv entries rfl
      · exact ⟨hapart, fun key value hmem => (hsame key value hmem).mpr (hinner key value hmem)⟩

/-- A table with an array and a number in it. -/
def nested : ScriptValue :=
  .table [(.int 1, .table [(.int 1, .bool true), (.int 2, .nil)]), (.text "one", .int 1)]

theorem nested_plain : nested.Plain := by
  refine .table (by decide) fun key value hmem => ?_
  rcases List.mem_pair.mp hmem with hfirst | hlast
  · cases hfirst
    refine .table (by decide) fun key value hmem => ?_
    rcases List.mem_pair.mp hmem with hfirst | hlast
    · cases hfirst
      exact .bool true
    · cases hlast
      exact .nil
  · cases hlast
    exact .int 1

theorem toJson_keeps_iff_nested :
    nested.Plain ∧ ∃ j, nested.toJson = .ok j ∧ (Keeps nested j ↔ nested.Apart) :=
  ⟨nested_plain, toJson_keeps_iff nested_plain⟩

/-- An integer and its text are two keys of a table, and one member of its document. -/
theorem entry_lost :
    ¬ ∀ (v : ScriptValue) (j : Json), v.Plain → v.toJson = .ok j → Keeps v j := by
  intro hkeeps
  have hplain : (ScriptValue.table [(.int 1, .int 1), (.text "1", .int 2)]).Plain := by
    refine .table (by decide) fun key value hmem => ?_
    rcases List.mem_pair.mp hmem with hfirst | hlast
    · cases hfirst
      exact .int 1
    · cases hlast
      exact .int 2
  cases hkeeps _ _ hplain rfl with
  | scalar hv => exact hv _ rfl
  | object hlength => cases hlength

end ScriptValue

end StoredRoutine
