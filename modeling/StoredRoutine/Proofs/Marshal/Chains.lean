import Mathlib.Data.List.Nodup
import Mathlib.Order.Bounds.Basic
import StoredRoutine.Proofs.Datum.Subscripts

/-!
# `StoredRoutine.Proofs.Marshal.Chains`: chains of integer keys in a table

A chain of integer keys `Leads` from a table to a value: each key but the last one has a table, in
which the next key is looked for. What `scan` and `placements` make of any table can be said by its
chains alone:

* `surveyed_scanEntries`, `outline_scan`: if the scan succeeds, all chains to values that are no
  tables have one length, which is the number of dimensions, and the bounds of a dimension are the
  least and the greatest key of its level (`levelKeys`), anywhere in the table;
* `scan_error`: the scan has no other failures than conversion errors;
* `mem_placementsFrom`: the values that are placed are those at the end of chains as long as there
  are dimensions, each in the place of its chain.
-/

set_option autoImplicit false

namespace StoredRoutine

/-- Whether a value is a table. -/
def ScriptValue.isTable : ScriptValue → Bool
  | .table _ => true
  | _ => false

/-- In each table, at any depth, no key stands twice. -/
inductive ScriptValue.Keyed : ScriptValue → Prop
  | plain {v : ScriptValue} (hv : v.isTable = false) : Keyed v
  | table {entries : List (ScriptKey × ScriptValue)} (hkeys : (entries.map (·.1)).Nodup)
      (hentries : ∀ k v, (k, v) ∈ entries → Keyed v) : Keyed (.table entries)

namespace Marshal

open ArrayOf (place place_cons)

/-! ### Chains -/

/-- Integer keys, each in the table of the one before, lead from a table to a value. -/
inductive Leads : ScriptTable → List Int → ScriptValue → Prop
  | here {entries : ScriptTable} {k : Int64} {v : ScriptValue} (h : (.int k, v) ∈ entries) :
      Leads entries [k.toInt] v
  | through {entries sub : ScriptTable} {k : Int64} {chain : List Int} {v : ScriptValue}
      (h : (.int k, .table sub) ∈ entries) (hsub : Leads sub chain v) :
      Leads entries (k.toInt :: chain) v

/-- The chains that begin with a certain entry. -/
def Begins (k : Int64) (w : ScriptValue) (chain : List Int) (v : ScriptValue) : Prop :=
  (chain = [k.toInt] ∧ v = w) ∨
    ∃ sub rest, w = .table sub ∧ chain = k.toInt :: rest ∧ Leads sub rest v

theorem Leads.ne_nil {entries : ScriptTable} {chain : List Int} {v : ScriptValue}
    (h : Leads entries chain v) : chain ≠ [] := by
  cases h <;> simp

theorem not_leads_nil {chain : List Int} {v : ScriptValue} : ¬Leads [] chain v := by
  intro h
  cases h with
  | here h => exact List.not_mem_nil h
  | through h _ => exact List.not_mem_nil h

/-- A chain begins with some entry. -/
theorem leads_iff {entries : ScriptTable} {chain : List Int} {v : ScriptValue} :
    Leads entries chain v ↔ ∃ k w, (.int k, w) ∈ entries ∧ Begins k w chain v := by
  constructor
  · intro h
    cases h with
    | @here _ k _ h => exact ⟨k, v, h, Or.inl ⟨rfl, rfl⟩⟩
    | @through _ sub k rest _ h hsub => exact ⟨k, .table sub, h, Or.inr ⟨sub, rest, rfl, rfl, hsub⟩⟩
  · rintro ⟨k, w, h, ⟨rfl, rfl⟩ | ⟨sub, rest, rfl, rfl, hsub⟩⟩
    · exact .here h
    · exact .through h hsub

/-- No chain begins with an entry under a text. -/
theorem leads_text_cons {s : String} {w : ScriptValue} {rest : ScriptTable} {chain : List Int}
    {v : ScriptValue} : Leads ((.text s, w) :: rest) chain v ↔ Leads rest chain v := by
  simp [leads_iff]

theorem leads_int_cons {k : Int64} {w : ScriptValue} {rest : ScriptTable} {chain : List Int}
    {v : ScriptValue} :
    Leads ((.int k, w) :: rest) chain v ↔ Begins k w chain v ∨ Leads rest chain v := by
  simp only [leads_iff, List.mem_cons, Prod.mk.injEq, ScriptKey.int.injEq]
  constructor
  · rintro ⟨k', w', ⟨rfl, rfl⟩ | h, hbegins⟩
    · exact Or.inl hbegins
    · exact Or.inr ⟨k', w', h, hbegins⟩
  · rintro (hbegins | ⟨k', w', h, hbegins⟩)
    · exact ⟨k, w, Or.inl ⟨rfl, rfl⟩, hbegins⟩
    · exact ⟨k', w', Or.inr h, hbegins⟩

/-- Where no key stands twice, a chain leads to one value only. -/
theorem leads_unique {entries : ScriptTable} (hkeyed : ScriptValue.Keyed (.table entries))
    {chain : List Int} {v v' : ScriptValue} (h : Leads entries chain v)
    (h' : Leads entries chain v') : v = v' := by
  have hentry : ∀ {entries : ScriptTable} {k k' : Int64} {w w' : ScriptValue},
      (entries.map (·.1)).Nodup → (.int k, w) ∈ entries → (.int k', w') ∈ entries →
        k.toInt = k'.toInt → w = w' := by
    intro entries k k' w w' hnodup hw hw' heq
    rw [Int64.toInt_inj.mp heq] at hw
    exact congrArg Prod.snd (List.inj_on_of_nodup_map hnodup hw hw' rfl)
  induction h generalizing v' with
  | @here entries k v h =>
    cases hkeyed with
    | plain hv => exact nomatch hv
    | table hnodup hentries =>
      obtain ⟨k', w', hmem, ⟨heq, rfl⟩ | ⟨sub, rest, -, heq, hsub⟩⟩ := leads_iff.mp h'
      · exact hentry hnodup h hmem (List.cons.inj heq).1
      · exact absurd (List.cons.inj heq).2.symm hsub.ne_nil
  | @through entries sub k chain v h hsub ih =>
    cases hkeyed with
    | plain hv => exact nomatch hv
    | table hnodup hentries =>
      obtain ⟨k', w', hmem, ⟨heq, rfl⟩ | ⟨sub', rest, rfl, heq, hsub'⟩⟩ := leads_iff.mp h'
      · exact absurd (List.cons.inj heq).2 hsub.ne_nil
      · obtain ⟨hkey, rfl⟩ := List.cons.inj heq
        obtain rfl := ScriptValue.table.inj (hentry hnodup h hmem hkey)
        exact ih (hentries _ _ h) hsub'

/-! ### The keys of a level -/

/-- The integer keys of a table, and of the tables below them so many levels down. -/
def levelKeys : Nat → ScriptTable → List Int
  | 0, entries => entries.filterMap fun e =>
    match e.1 with
    | .int k => some k.toInt
    | .text _ => none
  | level + 1, entries => entries.flatMap fun e =>
    match e with
    | (.int _, .table sub) => levelKeys level sub
    | _ => []

/-- The keys of a level below one value, counted from the level where the value stands. -/
def keysBelow (w : ScriptValue) : Nat → List Int
  | 0 => []
  | level + 1 =>
    match w with
    | .table sub => levelKeys level sub
    | _ => []

theorem levelKeys_nil (level : Nat) : levelKeys level [] = [] := by
  cases level <;> rfl

theorem levelKeys_text_cons (level : Nat) (s : String) (w : ScriptValue) (rest : ScriptTable) :
    levelKeys level ((.text s, w) :: rest) = levelKeys level rest := by
  cases level <;> rfl

theorem levelKeys_zero_int_cons (k : Int64) (w : ScriptValue) (rest : ScriptTable) :
    levelKeys 0 ((.int k, w) :: rest) = k.toInt :: levelKeys 0 rest := rfl

theorem levelKeys_succ_int_cons (level : Nat) (k : Int64) (w : ScriptValue) (rest : ScriptTable) :
    levelKeys (level + 1) ((.int k, w) :: rest) =
      keysBelow w (level + 1) ++ levelKeys (level + 1) rest := by
  cases w <;> rfl

/-- The keys of a level are those that chains have there. -/
theorem mem_levelKeys {level : Nat} {entries : ScriptTable} {i : Int} :
    i ∈ levelKeys level entries ↔
      ∃ front v, front.length = level ∧ Leads entries (front ++ [i]) v := by
  -- a level further in is a level of the tables in this one
  induction level generalizing entries with
  | zero =>
    simp only [levelKeys, List.mem_filterMap, List.length_eq_zero_iff]
    constructor
    · rintro ⟨⟨key, v⟩, hmem, hkey⟩
      cases key with
      | text s => exact nomatch hkey
      | int k =>
        obtain rfl := Option.some.inj hkey
        exact ⟨[], v, rfl, .here hmem⟩
    · rintro ⟨front, v, rfl, h⟩
      obtain ⟨k, w, hmem, ⟨heq, -⟩ | ⟨sub, rest, -, heq, -⟩⟩ := leads_iff.mp h
      · exact ⟨(.int k, w), hmem, congrArg some (List.cons.inj heq).1.symm⟩
      · exact ⟨(.int k, w), hmem, congrArg some (List.cons.inj heq).1.symm⟩
  | succ level ih =>
    simp only [levelKeys, List.mem_flatMap]
    constructor
    · rintro ⟨⟨key, w⟩, hmem, hin⟩
      split at hin
      next k sub heq =>
        obtain ⟨rfl, rfl⟩ := Prod.mk.inj heq
        obtain ⟨front, v, hlen, h⟩ := ih.mp hin
        exact ⟨k.toInt :: front, v, by rw [List.length_cons, hlen], .through hmem h⟩
      · exact absurd hin List.not_mem_nil
    · rintro ⟨front, v, hlen, h⟩
      cases front with
      | nil => exact nomatch hlen
      | cons j front =>
        obtain ⟨k, w, hmem, ⟨heq, -⟩ | ⟨sub, rest, rfl, heq, hsub⟩⟩ := leads_iff.mp h
        · have hnil := (List.cons.inj heq).2
          exact absurd hnil (List.append_ne_nil_of_right_ne_nil _ (List.cons_ne_nil _ _))
        · obtain ⟨-, rfl⟩ := List.cons.inj heq
          exact ⟨(.int k, .table sub), hmem, ih.mpr ⟨front, v, Nat.succ.inj hlen, hsub⟩⟩

/-- The keys of a chain are keys of their levels. -/
theorem Leads.mem_levelKeys {entries : ScriptTable} {chain : List Int} {v : ScriptValue}
    (h : Leads entries chain v) {level : Nat} {i : Int} (hi : chain[level]? = some i) :
    i ∈ levelKeys level entries := by
  induction h generalizing level with
  | @here entries k v h =>
    cases level with
    | succ level => exact nomatch hi
    | zero =>
      obtain rfl := Option.some.inj hi
      exact Marshal.mem_levelKeys.mpr ⟨[], v, rfl, .here h⟩
  | @through entries sub k chain v h hsub ih =>
    cases level with
    | zero =>
      obtain rfl := Option.some.inj hi
      exact Marshal.mem_levelKeys.mpr ⟨[], .table sub, rfl, .here h⟩
    | succ level =>
      obtain ⟨front, w, hlen, hfront⟩ := Marshal.mem_levelKeys.mp (ih hi)
      exact Marshal.mem_levelKeys.mpr
        ⟨k.toInt :: front, w, by rw [List.length_cons, hlen], .through h hfront⟩

/-! ### The scan -/

/-- The subscripts of arrays fit thirty-two bits. -/
def InRange (i : Int) : Prop := -(2 ^ 31) ≤ i ∧ i ≤ 2 ^ 31 - 1

/-- What a scan has found, on and below level `level`, when it is given a depth and bounds: `chains`
are the chains there are, and `keys` their keys by level. -/
structure Surveyed (maxDims level : Nat) (chains : List Int → ScriptValue → Prop)
    (keys : Nat → List Int) (depth : Option Nat) (bounds : Bounds)
    (found : Option Nat × Bounds) : Prop where
  fits : ∀ chain v, chains chain v → level + chain.length ≤ maxDims
  range : ∀ chain v, chains chain v → ∀ i ∈ chain, InRange i
  even : ∀ chain v, chains chain v → v.isTable = false → found.1 = some chain.length
  kept : ∀ n, depth = some n → found.1 = some n
  origin : ∀ n, found.1 = some n →
    depth = some n ∨ ∃ chain v, chains chain v ∧ v.isTable = false ∧ chain.length = n
  longer : level ≤ bounds.length → bounds.length ≤ found.2.length
  above : level ≤ bounds.length → ∀ j < level, found.2[j]? = bounds[j]?
  widened : level ≤ bounds.length → ∀ j,
    found.2[level + j]? = (keys j).foldl hull bounds[level + j]?

variable {maxDims level : Nat} {depth : Option Nat} {bounds : Bounds}

/-- Nothing is found in an empty table. -/
theorem surveyed_nil :
    Surveyed maxDims level (Leads []) (fun j => levelKeys j []) depth bounds (depth, bounds) where
  fits _ _ h := absurd h not_leads_nil
  range _ _ h := absurd h not_leads_nil
  even _ _ h := absurd h not_leads_nil
  kept _ h := h
  origin _ h := Or.inl h
  longer _ := Nat.le_refl _
  above _ _ _ := rfl
  widened _ j := by rw [levelKeys_nil]; rfl

/-- A value that is no table ends a chain of one key. -/
theorem surveyed_leaf {k : Int64} {w : ScriptValue} (hw : w.isTable = false)
    (hlevel : level < maxDims) (hk : InRange k.toInt) :
    Surveyed maxDims level (Begins k w) (keysBelow w) none bounds (some 1, bounds) where
  -- there is one chain, of one key, and it does not go through a table
  fits := by
    rintro chain v (⟨rfl, -⟩ | ⟨sub, rest, rfl, -⟩)
    · exact hlevel
    · exact nomatch hw
  range := by
    rintro chain v (⟨rfl, -⟩ | ⟨sub, rest, rfl, -⟩)
    · intro i hi
      rw [List.mem_singleton.mp hi]
      exact hk
    · exact nomatch hw
  even := by
    rintro chain v (⟨rfl, -⟩ | ⟨sub, rest, rfl, -⟩)
    · exact fun _ => rfl
    · exact nomatch hw
  kept _ h := nomatch h
  origin n h := Or.inr ⟨[k.toInt], w, Or.inl ⟨rfl, rfl⟩, hw, Option.some.inj h⟩
  longer _ := Nat.le_refl _
  above _ _ _ := rfl
  widened _ j := by
    cases j with
    | zero => rfl
    | succ j =>
      cases w with
      | table entries => exact nomatch hw
      | _ => rfl

/-- The chains through a table are those in it, with one key more. -/
theorem surveyed_table {k : Int64} {sub : ScriptTable} {found : Option Nat × Bounds}
    (hlevel : level < maxDims) (hk : InRange k.toInt) (hroom : level + 1 ≤ bounds.length)
    (h : Surveyed maxDims (level + 1) (Leads sub) (fun j => levelKeys j sub) none bounds found) :
    Surveyed maxDims level (Begins k (.table sub)) (keysBelow (.table sub)) none bounds
      (found.1.map (· + 1), found.2) where
  -- a chain ends at the table itself, or it goes on in it
  fits := by
    rintro chain v (⟨rfl, -⟩ | ⟨sub', rest, heq, rfl, hrest⟩)
    · exact hlevel
    · obtain rfl := ScriptValue.table.inj heq
      have hfits := h.fits rest v hrest
      rw [List.length_cons]
      omega
  range := by
    rintro chain v (⟨rfl, -⟩ | ⟨sub', rest, heq, rfl, hrest⟩) i hi
    · rw [List.mem_singleton.mp hi]
      exact hk
    · obtain rfl := ScriptValue.table.inj heq
      rcases List.mem_cons.mp hi with rfl | hi
      · exact hk
      · exact h.range rest v hrest i hi
  even := by
    rintro chain v (⟨-, rfl⟩ | ⟨sub', rest, heq, rfl, hrest⟩) hv
    · exact nomatch hv
    · obtain rfl := ScriptValue.table.inj heq
      show found.1.map (· + 1) = _
      rw [h.even rest v hrest hv]
      rfl
  kept _ h := nomatch h
  origin := by
    intro n hn
    obtain ⟨m, hm, rfl⟩ := Option.map_eq_some_iff.mp hn
    rcases h.origin m hm with hnone | ⟨chain, v, hchain, hv, rfl⟩
    · exact nomatch hnone
    · exact Or.inr ⟨k.toInt :: chain, v, Or.inr ⟨sub, chain, rfl, rfl, hchain⟩, hv, rfl⟩
  longer _ := h.longer hroom
  above _ j hj := h.above hroom j (by omega)
  widened _ j := by
    cases j with
    | zero => exact h.above hroom level (by omega)
    | succ j =>
      have hsub := h.widened hroom j
      rw [show level + 1 + j = level + (j + 1) by omega] at hsub
      exact hsub

/-- Joined depths give a depth if one of them does, and they do not contradict each other. -/
theorem eq_some_iff_of_joinDepth {below joined : Option Nat}
    (h : joinDepth depth below = .ok joined) (n : Nat) :
    joined = some n ↔ depth = some n ∨ below = some n := by
  cases depth with
  | none =>
    obtain rfl := Except.ok.inj h
    simp
  | some x =>
    cases below with
    | none =>
      obtain rfl := Except.ok.inj h
      simp
    | some y =>
      simp only [joinDepth] at h
      split at h
      next heq =>
        obtain rfl := Except.ok.inj h
        simp [heq]
      · cases h

/-- What is found behind an entry joins what was found at it. -/
theorem Surveyed.cons {k : Int64} {w : ScriptValue} {rest : ScriptTable} {below joined : Option Nat}
    {bounds' : Bounds} {found : Option Nat × Bounds}
    (hvalue : Surveyed maxDims level (Begins k w) (keysBelow w) none
      (bounds.widen level k.toInt) (below, bounds'))
    (hjoined : joinDepth depth below = .ok joined)
    (hrest : Surveyed maxDims level (Leads rest) (fun j => levelKeys j rest) joined bounds' found) :
    Surveyed maxDims level (Leads ((.int k, w) :: rest))
      (fun j => levelKeys j ((.int k, w) :: rest)) depth bounds found := by
  have hkept := eq_some_iff_of_joinDepth hjoined
  constructor
  case fits =>
    intro chain v h
    rcases leads_int_cons.mp h with h | h
    · exact hvalue.fits chain v h
    · exact hrest.fits chain v h
  case range =>
    intro chain v h
    rcases leads_int_cons.mp h with h | h
    · exact hvalue.range chain v h
    · exact hrest.range chain v h
  case even =>
    intro chain v h hv
    rcases leads_int_cons.mp h with h | h
    · exact hrest.kept _ ((hkept _).mpr (Or.inr (hvalue.even chain v h hv)))
    · exact hrest.even chain v h hv
  case kept => exact fun n hn => hrest.kept n ((hkept n).mpr (Or.inl hn))
  case origin =>
    intro n hn
    rcases hrest.origin n hn with hn | ⟨chain, v, h, hv, hlen⟩
    · rcases (hkept n).mp hn with hn | hn
      · exact Or.inl hn
      · rcases hvalue.origin n hn with hnone | ⟨chain, v, h, hv, hlen⟩
        · exact nomatch hnone
        · exact Or.inr ⟨chain, v, leads_int_cons.mpr (Or.inl h), hv, hlen⟩
    · exact Or.inr ⟨chain, v, leads_int_cons.mpr (Or.inr h), hv, hlen⟩
  case longer =>
    intro hroom
    obtain ⟨hgrown, hlonger⟩ := length_widen hroom k.toInt
    have hfirst := hvalue.longer (by omega)
    exact Nat.le_trans (Nat.le_trans hlonger hfirst) (hrest.longer (by simp only at hfirst; omega))
  case above =>
    intro hroom j hj
    obtain ⟨hgrown, hlonger⟩ := length_widen hroom k.toInt
    have hfirst := hvalue.longer (by omega)
    simp only at hfirst
    rw [hrest.above (by omega) j hj]
    rw [hvalue.above (by omega) j hj, getElem?_widen hroom, if_neg (by omega)]
  case widened =>
    intro hroom j
    obtain ⟨hgrown, hlonger⟩ := length_widen hroom k.toInt
    have hfirst := hvalue.longer (by omega)
    have hat := hvalue.widened (by omega) j
    simp only at hfirst hat
    -- a level meets the key of the entry, the keys below it and those of the rest, in this order
    rw [hrest.widened (by omega) j, hat, getElem?_widen hroom]
    cases j with
    | zero =>
      rw [if_pos (by omega), levelKeys_zero_int_cons]
      rfl
    | succ j => rw [if_neg (by omega), levelKeys_succ_int_cons, List.foldl_append]

mutual

theorem surveyed_scanValue {maxDims level : Nat} {bounds : Bounds} {k : Int64} {w : ScriptValue}
    {found : Option Nat × Bounds} (hlevel : level < maxDims) (hk : InRange k.toInt)
    (hroom : level + 1 ≤ bounds.length) (h : scanValue maxDims false level bounds w = .ok found) :
    Surveyed maxDims level (Begins k w) (keysBelow w) none bounds found := by
  match w with
  | .table sub =>
    simp only [scanValue, Bool.false_eq_true, if_false] at h
    cases hsub : scanEntries maxDims false (level + 1) none bounds sub with
    | error f =>
      rw [hsub] at h
      exact nomatch h
    | ok below =>
      rw [hsub] at h
      obtain rfl := Except.ok.inj h
      exact surveyed_table hlevel hk hroom (surveyed_scanEntries hroom hsub)
  | .nil | .bool _ | .int _ | .number _ | .string _ | .tuple _ | .cursor _ =>
    obtain rfl := Except.ok.inj h
    exact surveyed_leaf rfl hlevel hk

/-- A scan that succeeds has found all the chains of a table, and the keys of every level. -/
theorem surveyed_scanEntries {maxDims level : Nat} {depth : Option Nat} {bounds : Bounds}
    {entries : List (ScriptKey × ScriptValue)} {found : Option Nat × Bounds}
    (hroom : level ≤ bounds.length)
    (h : scanEntries maxDims false level depth bounds entries = .ok found) :
    Surveyed maxDims level (Leads entries) (fun j => levelKeys j entries) depth bounds found := by
  match entries with
  | [] =>
    unfold scanEntries at h
    obtain rfl := Except.ok.inj h
    exact surveyed_nil
  | (.text s, w) :: rest =>
    -- an entry under a text adds neither chains nor keys
    unfold scanEntries at h
    have hchains : Leads ((.text s, w) :: rest) = Leads rest :=
      funext fun _ => funext fun _ => propext leads_text_cons
    have hkeys : (fun j => levelKeys j ((.text s, w) :: rest)) = fun j => levelKeys j rest :=
      funext fun j => levelKeys_text_cons j s w rest
    rw [hchains, hkeys]
    exact surveyed_scanEntries hroom h
  | (.int k, w) :: rest =>
    unfold scanEntries at h
    simp only at h
    split at h
    · exact nomatch h
    next hlevel =>
      split at h
      · exact nomatch h
      next hrange =>
        have hk : InRange k.toInt := by
          unfold InRange
          omega
        -- the key has widened its level before the value is scanned, so the next level has room
        obtain ⟨hgrown, -⟩ := length_widen hroom k.toInt
        split at h
        · exact nomatch h
        next below bounds' hscan =>
          split at h
          · exact nomatch h
          next joined hjoined =>
            have hvalue := surveyed_scanValue (Nat.not_le.mp hlevel) hk hgrown hscan
            have hlonger : (bounds.widen level k.toInt).length ≤ bounds'.length :=
              hvalue.longer (by omega)
            exact hvalue.cons hjoined (surveyed_scanEntries (by omega) h)

end

/-- The bounds of a level that has keys are the least and the greatest of them. -/
theorem foldl_hull {keys : List Int} (hne : keys ≠ []) :
    ∃ lo hi, keys.foldl hull none = some (lo, hi) ∧ IsLeast {i | i ∈ keys} lo ∧
      IsGreatest {i | i ∈ keys} hi := by
  cases keys with
  | nil => exact absurd rfl hne
  | cons k rest =>
    obtain ⟨lo, hi, heq, hlo, hhi, hlo', hhi', hrest⟩ := foldl_hull_some k k rest
    have hall : ∀ i ∈ k :: rest, lo ≤ i ∧ i ≤ hi := by
      intro i hi
      rcases List.mem_cons.mp hi with rfl | hi
      · exact ⟨hlo, hhi⟩
      · exact hrest i hi
    exact ⟨lo, hi, heq, ⟨List.mem_cons.mpr hlo', fun i hi => (hall i hi).1⟩,
      ⟨List.mem_cons.mpr hhi', fun i hi => (hall i hi).2⟩⟩

mutual

theorem scanValue_error {maxDims level : Nat} {leafTables : Bool} {bounds : Bounds}
    {w : ScriptValue} {f : Failure} (h : scanValue maxDims leafTables level bounds w = .error f) :
    ∃ text, f = .conversion text := by
  match w with
  | .table sub =>
    unfold scanValue at h
    split at h
    · exact nomatch h
    · cases hsub : scanEntries maxDims leafTables (level + 1) none bounds sub with
      | ok found =>
        rw [hsub] at h
        exact nomatch h
      | error f' =>
        rw [hsub] at h
        obtain rfl := Except.error.inj h
        exact scanEntries_error hsub
  | .nil | .bool _ | .int _ | .number _ | .string _ | .tuple _ | .cursor _ => exact nomatch h

/-- A scan fails with conversion errors only. -/
theorem scanEntries_error {maxDims level : Nat} {leafTables : Bool} {depth : Option Nat}
    {bounds : Bounds} {entries : List (ScriptKey × ScriptValue)} {f : Failure}
    (h : scanEntries maxDims leafTables level depth bounds entries = .error f) :
    ∃ text, f = .conversion text := by
  match entries with
  | [] =>
    unfold scanEntries at h
    exact nomatch h
  | (.text s, w) :: rest =>
    unfold scanEntries at h
    exact scanEntries_error h
  | (.int k, w) :: rest =>
    unfold scanEntries at h
    simp only at h
    split at h
    · exact ⟨_, (Except.error.inj h).symm⟩
    · split at h
      · exact ⟨_, (Except.error.inj h).symm⟩
      · split at h
        next f' hscan =>
          obtain rfl := Except.error.inj h
          exact scanValue_error hscan
        next below bounds' _ =>
          split at h
          next f' hjoined =>
            obtain rfl := Except.error.inj h
            -- depths are only refused where both are there and differ
            unfold joinDepth at hjoined
            split at hjoined
            · exact nomatch hjoined
            · exact nomatch hjoined
            · split at hjoined
              · exact nomatch hjoined
              · exact ⟨_, (Except.error.inj hjoined).symm⟩
          · exact scanEntries_error h

end

/-- A table whose shape is not found is refused with a conversion error. -/
theorem scan_error {maxDims : Nat} {leafTables : Bool} {entries : ScriptTable} {f : Failure}
    (h : scan maxDims leafTables entries = .error f) : ∃ text, f = .conversion text := by
  unfold scan at h
  cases hscan : scanEntries maxDims leafTables 0 none [] entries with
  | ok found =>
    rw [hscan] at h
    exact nomatch h
  | error f' =>
    rw [hscan] at h
    obtain rfl := Except.error.inj h
    exact scanEntries_error hscan

/-- The dimensions that were found for a table, and what this says about its chains. -/
structure Outline (maxDims : Nat) (entries : ScriptTable) (dims : List ArrayDim) : Prop where
  fits : ∀ chain v, Leads entries chain v → chain.length ≤ maxDims
  range : ∀ chain v, Leads entries chain v → ∀ i ∈ chain, InRange i
  even : ∀ chain v, Leads entries chain v → v.isTable = false → chain.length = dims.length
  reached : dims ≠ [] → ∃ chain v, Leads entries chain v ∧ v.isTable = false
  extents : ∀ d ∈ dims, Extent d
  least : ∀ level d, dims[level]? = some d →
    IsLeast {i | i ∈ levelKeys level entries} d.lower.toInt
  greatest : ∀ level d, dims[level]? = some d →
    IsGreatest {i | i ∈ levelKeys level entries} (d.lower.toInt + d.len - 1)

/-- The dimension between two subscripts. -/
theorem dimOfBounds_range {lo hi : Int} (hlo : InRange lo) (hhi : InRange hi) (hle : lo ≤ hi) :
    (dimOfBounds (lo, hi)).lower.toInt = lo ∧ Extent (dimOfBounds (lo, hi)) ∧
      (dimOfBounds (lo, hi)).lower.toInt + (dimOfBounds (lo, hi)).len - 1 = hi := by
  unfold InRange at hlo hhi
  have hlower : (dimOfBounds (lo, hi)).lower.toInt = lo :=
    Int32.toInt_ofInt_of_le (by omega) (by omega)
  have hlen : (dimOfBounds (lo, hi)).len = (hi - lo + 1).toNat := rfl
  exact ⟨hlower, ⟨by omega, by omega⟩, by omega⟩

/-- The bounds that a scan has found for one level are the least and the greatest of its keys. -/
structure Spans (entries : ScriptTable) (level : Nat) (lo hi : Int) : Prop where
  least : IsLeast {i | i ∈ levelKeys level entries} lo
  greatest : IsGreatest {i | i ∈ levelKeys level entries} hi
  range_lo : InRange lo
  range_hi : InRange hi

/-- A scan that finds a depth has found bounds for as many levels, and a chain as long. -/
theorem spans_scanEntries {maxDims depth : Nat} {entries : ScriptTable} {bounds : Bounds}
    (h : scanEntries maxDims false 0 none [] entries = .ok (some depth, bounds)) :
    (∃ chain v, Leads entries chain v ∧ v.isTable = false ∧ chain.length = depth) ∧
      ∀ level, level < depth → ∃ lo hi, bounds[level]? = some (lo, hi) ∧
        Spans entries level lo hi := by
  have hfound := surveyed_scanEntries (Nat.zero_le _) h
  obtain hnone | ⟨chain, v, hchain, hv, rfl⟩ := hfound.origin depth rfl
  · exact nomatch hnone
  have hkeys : ∀ level i, i ∈ levelKeys level entries → InRange i := by
    intro level i hi
    obtain ⟨front, w, -, hfront⟩ := mem_levelKeys.mp hi
    exact hfound.range _ _ hfront i (List.mem_append_right front List.mem_cons_self)
  refine ⟨⟨chain, v, hchain, hv, rfl⟩, fun level hlt => ?_⟩
  -- every level down to the end of a chain has a key, so it has bounds
  have hkey := hchain.mem_levelKeys (List.getElem?_eq_getElem hlt)
  obtain ⟨lo, hi, hhull, hlo, hhi⟩ := foldl_hull (List.ne_nil_of_mem hkey)
  refine ⟨lo, hi, ?_, hlo, hhi, hkeys level lo hlo.1, hkeys level hi hhi.1⟩
  rw [← Nat.zero_add level, hfound.widened (Nat.zero_le _) level, List.getElem?_nil]
  exact hhull

/-- As many levels have bounds as the depth says. -/
theorem depth_le_length {maxDims depth : Nat} {entries : ScriptTable} {bounds : Bounds}
    (h : scanEntries maxDims false 0 none [] entries = .ok (some depth, bounds)) :
    depth ≤ bounds.length := by
  cases depth with
  | zero => exact Nat.zero_le _
  | succ level =>
    obtain ⟨lo, hi, hbounds, -⟩ := (spans_scanEntries h).2 level (Nat.lt_succ_self level)
    exact (List.getElem?_eq_some_iff.mp hbounds).1

/-- A table in which no chain ends in a value has no dimensions. -/
theorem outline_nil {maxDims : Nat} {entries : ScriptTable} {bounds : Bounds}
    (h : scanEntries maxDims false 0 none [] entries = .ok (none, bounds)) :
    Outline maxDims entries [] := by
  have hfound := surveyed_scanEntries (Nat.zero_le _) h
  constructor
  case fits => exact fun chain v hchain => Nat.zero_add chain.length ▸ hfound.fits chain v hchain
  case range => exact hfound.range
  case even => exact fun chain v hchain hv => nomatch hfound.even chain v hchain hv
  case reached => exact fun hne => absurd rfl hne
  case extents => exact fun d hd => absurd hd List.not_mem_nil
  case least => exact fun level d hd => nomatch hd
  case greatest => exact fun level d hd => nomatch hd

/-- A table whose chains have a depth has the dimensions between the bounds of as many levels. -/
theorem outline_take {maxDims depth : Nat} {entries : ScriptTable} {bounds : Bounds}
    (h : scanEntries maxDims false 0 none [] entries = .ok (some depth, bounds)) :
    Outline maxDims entries ((bounds.take depth).map dimOfBounds) := by
  have hfound := surveyed_scanEntries (Nat.zero_le _) h
  have hroom := depth_le_length h
  obtain ⟨⟨chain, v, hchain, hv, rfl⟩, hspans⟩ := spans_scanEntries h
  -- each dimension is that of a level above the end of the chains
  have hdim : ∀ level d, ((bounds.take chain.length).map dimOfBounds)[level]? = some d →
      Extent d ∧ IsLeast {i | i ∈ levelKeys level entries} d.lower.toInt ∧
        IsGreatest {i | i ∈ levelKeys level entries} (d.lower.toInt + d.len - 1) := by
    intro level d hd
    rw [List.getElem?_map, List.getElem?_take] at hd
    split at hd
    next hlt =>
      obtain ⟨lo, hi, hbounds, hspan⟩ := hspans level hlt
      rw [hbounds] at hd
      obtain rfl := Option.some.inj hd
      obtain ⟨hlower, hextent, hupper⟩ := dimOfBounds_range hspan.range_lo hspan.range_hi
        (hspan.least.2 hspan.greatest.1)
      exact ⟨hextent, hlower.symm ▸ hspan.least, hupper.symm ▸ hspan.greatest⟩
    · exact nomatch hd
  constructor
  case fits => exact fun chain v hchain => Nat.zero_add chain.length ▸ hfound.fits chain v hchain
  case range => exact hfound.range
  case even =>
    intro chain' v' hchain' hv'
    have hlen : chain.length = chain'.length := Option.some.inj (hfound.even _ _ hchain' hv')
    rw [← hlen, List.length_map, List.length_take_of_le hroom]
  case reached => exact fun _ => ⟨chain, v, hchain, hv⟩
  case extents =>
    intro d hd
    obtain ⟨level, hlevel⟩ := List.mem_iff_getElem?.mp hd
    exact (hdim level d hlevel).1
  case least => exact fun level d hd => (hdim level d hd).2.1
  case greatest => exact fun level d hd => (hdim level d hd).2.2

/-- A scan that succeeds has outlined the table. -/
theorem outline_scan {maxDims : Nat} {entries : ScriptTable} {dims : List ArrayDim}
    (h : scan maxDims false entries = .ok dims) : Outline maxDims entries dims := by
  unfold scan at h
  cases hscan : scanEntries maxDims false 0 none [] entries with
  | error f =>
    rw [hscan] at h
    exact nomatch h
  | ok found =>
    rw [hscan] at h
    have hdims := Except.ok.inj h
    obtain ⟨_ | depth, bounds⟩ := found
    · obtain rfl : [] = dims := hdims
      exact outline_nil hscan
    · obtain rfl : (bounds.take depth).map dimOfBounds = dims := hdims
      exact outline_take hscan

/-! ### The values that are placed -/

/-- Placed are the values that chains as long as the dimensions lead to, each in the place of its
chain. -/
theorem mem_placementsFrom {dims : List ArrayDim} {entries : ScriptTable} {base slot : Nat}
    {v : ScriptValue} :
    (slot, v) ∈ placementsFrom dims base entries ↔ dims ≠ [] ∧ ∃ chain,
      chain.length = dims.length ∧ Leads entries chain v ∧ slot = base + place dims chain := by
  -- the base is the place of the chain so far
  induction dims generalizing base entries with
  | nil => simp [placementsFrom]
  | cons d inner ih =>
    simp only [placementsFrom, List.mem_flatMap, ne_eq, List.cons_ne_nil, not_false_eq_true,
      true_and, List.length_cons]
    constructor
    · rintro ⟨⟨key, w⟩, hmem, hplaced⟩
      cases key with
      | text s => exact absurd hplaced List.not_mem_nil
      | int k =>
        simp only at hplaced
        split at hplaced
        next hinner =>
          obtain ⟨rfl, rfl⟩ := Prod.mk.inj (List.mem_singleton.mp hplaced)
          obtain rfl := List.isEmpty_iff.mp hinner
          exact ⟨[k.toInt], rfl, .here hmem, rfl⟩
        next =>
          split at hplaced
          next sub =>
            obtain ⟨-, chain, hlen, hchain, rfl⟩ := ih.mp hplaced
            refine ⟨k.toInt :: chain, by rw [List.length_cons, hlen], .through hmem hchain, ?_⟩
            rw [place_cons, Nat.add_assoc]
            rfl
          · exact absurd hplaced List.not_mem_nil
    · rintro ⟨chain, hlen, hchain, rfl⟩
      obtain ⟨k, w, hmem, hbegins⟩ := leads_iff.mp hchain
      refine ⟨(.int k, w), hmem, ?_⟩
      obtain ⟨rfl, rfl⟩ | ⟨sub, rest, rfl, rfl, hrest⟩ := hbegins
      · obtain rfl : inner = [] := List.eq_nil_of_length_eq_zero (Nat.succ.inj hlen).symm
        exact List.mem_singleton.mpr rfl
      · have hne : inner ≠ [] := by
          rintro rfl
          exact hrest.ne_nil (List.eq_nil_of_length_eq_zero (Nat.succ.inj hlen))
        simp only [List.isEmpty_eq_false_iff.mpr hne, Bool.false_eq_true, if_false]
        refine ih.mpr ⟨hne, rest, Nat.succ.inj hlen, hrest, ?_⟩
        rw [place_cons, Nat.add_assoc]
        rfl

end Marshal

end StoredRoutine
