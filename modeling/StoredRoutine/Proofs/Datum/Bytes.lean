import StoredRoutine.Proofs.Datum.Reading

/-!
# `StoredRoutine.Proofs.Datum.Bytes`: which texts are bytes

A text that begins with `\x` is read in pairs of characters, one pair for each byte. The second
character of a pair is a hexadecimal digit, and the first one a digit or a plus sign, which counts
as zero. `Denotes` says this without a reader, and `Paired` says it of a text as a whole: it has an
even length, its characters are digits, and there may be plus signs at the even places. Reading
succeeds for these texts and no others (`bytePairs?_eq_some_iff`, `Denotes.paired`,
`Paired.denotes`). A text that does not begin with `\x` stands for its own bytes.

Bytes are written with digits only, so plus signs are never written and are read nevertheless
(`plus_sign_read`).
-/

set_option autoImplicit false

namespace StoredRoutine.Datum

/-! ### Digits -/

/-- A character is the digit of a number, in small or in capital letters. -/
def HexDigit (c : Char) (n : Nat) : Prop :=
  "0123456789abcdef".toList[n]? = some c ∨ "0123456789ABCDEF".toList[n]? = some c

instance (c : Char) (n : Nat) : Decidable (HexDigit c n) := inferInstanceAs (Decidable (_ ∨ _))

/-- The first character of a pair: a digit, or a plus sign in place of a zero. -/
def Leads (c : Char) (n : Nat) : Prop := HexDigit c n ∨ c = '+' ∧ n = 0

/-- A word of pairs and the bytes that it denotes. -/
inductive Denotes : List Char → List UInt8 → Prop
  | nil : Denotes [] []
  | cons {a b : Char} {high low : Nat} {rest : List Char} {bytes : List UInt8}
      (hhigh : Leads a high) (hlow : HexDigit b low) (hrest : Denotes rest bytes) :
      Denotes (a :: b :: rest) (UInt8.ofNat (16 * high + low) :: bytes)

/-- Digits that stand side by side have values side by side. There are `count` of them, the first
one is the character of the number `first`, and its value is `least`. -/
theorem hexDigit_of_range {c : Char} {first least count : Nat}
    (hdigits : ∀ k : Fin count, HexDigit (Char.ofNat (first + k.val)) (least + k.val))
    (hfirst : first ≤ c.toNat) (hlast : c.toNat < first + count) :
    HexDigit c (least + (c.toNat - first)) := by
  have hdigit := hdigits ⟨c.toNat - first, by omega⟩
  rwa [Nat.add_sub_cancel' hfirst, Char.ofNat_toNat] at hdigit

/-- The value of a digit is found in one of three ranges of characters. -/
theorem hexValue?_eq_some_iff {c : Char} {n : Nat} : Text.hexValue? c = some n ↔ HexDigit c n := by
  constructor
  · intro hvalue
    -- the first range is that of the figures; the letters of the other two count from ten
    unfold Text.hexValue? at hvalue
    split at hvalue
    next hc =>
      have hdigit := @hexDigit_of_range c 48 0 10 (by decide) hc.1
        (Nat.lt_succ_of_le hc.2)
      rw [Nat.zero_add] at hdigit
      exact Option.some.inj hvalue ▸ hdigit
    · split at hvalue
      next hc =>
        have hfirst : 97 ≤ c.toNat := hc.1
        have hdigit := @hexDigit_of_range c 97 10 6 (by decide) hfirst
          (Nat.lt_succ_of_le hc.2)
        rw [show 10 + (c.toNat - 97) = c.toNat - 87 by omega] at hdigit
        exact Option.some.inj hvalue ▸ hdigit
      · split at hvalue
        next hc =>
          have hfirst : 65 ≤ c.toNat := hc.1
          have hdigit := @hexDigit_of_range c 65 10 6 (by decide) hfirst
            (Nat.lt_succ_of_le hc.2)
          rw [show 10 + (c.toNat - 65) = c.toNat - 55 by omega] at hdigit
          exact Option.some.inj hvalue ▸ hdigit
        · exact nomatch hvalue
  · rintro (hdigit | hdigit)
    · have hdigits : ∀ k : Fin 16, Text.hexValue? "0123456789abcdef".toList[k] = some k.val := by
        decide
      obtain ⟨hlt, rfl⟩ := List.getElem?_eq_some_iff.mp hdigit
      exact hdigits ⟨n, hlt⟩
    · have hdigits : ∀ k : Fin 16, Text.hexValue? "0123456789ABCDEF".toList[k] = some k.val := by
        decide
      obtain ⟨hlt, rfl⟩ := List.getElem?_eq_some_iff.mp hdigit
      exact hdigits ⟨n, hlt⟩

theorem leads_iff {c : Char} {n : Nat} :
    (if c = '+' then some 0 else Text.hexValue? c) = some n ↔ Leads c n := by
  unfold Leads
  rw [← hexValue?_eq_some_iff]
  by_cases hplus : c = '+'
  · subst hplus
    have hnone : Text.hexValue? '+' = none := by decide
    simp [hnone, eq_comm]
  · simp [hplus]

theorem bytePair?_eq_some_iff {a b : Char} {byte : UInt8} :
    bytePair? a b = some byte ↔
      ∃ high low, Leads a high ∧ HexDigit b low ∧ UInt8.ofNat (16 * high + low) = byte := by
  have hbind : bytePair? a b = (if a = '+' then some 0 else Text.hexValue? a).bind fun high =>
      (Text.hexValue? b).bind fun low => some (UInt8.ofNat (16 * high + low)) := by
    unfold bytePair?
    split <;> rfl
  rw [hbind]
  constructor
  · intro hpair
    obtain ⟨high, hhigh, hpair⟩ := Option.bind_eq_some_iff.mp hpair
    obtain ⟨low, hlow, hpair⟩ := Option.bind_eq_some_iff.mp hpair
    exact ⟨high, low, leads_iff.mp hhigh, hexValue?_eq_some_iff.mp hlow, Option.some.inj hpair⟩
  · rintro ⟨high, low, hhigh, hlow, rfl⟩
    rw [leads_iff.mpr hhigh, hexValue?_eq_some_iff.mpr hlow]
    rfl

/-- The reader of pairs reads the words that denote bytes, and reads them as these bytes. -/
theorem bytePairs?_eq_some_iff {hex : List Char} {bytes : List UInt8} :
    bytePairs? hex = some bytes ↔ Denotes hex bytes := by
  constructor
  · intro hread
    induction hex using bytePairs?.induct generalizing bytes with
    | case1 =>
      obtain rfl := Option.some.inj hread
      exact .nil
    | case2 a b rest ih =>
      unfold bytePairs? at hread
      obtain ⟨byte, hpair, hread⟩ := Option.bind_eq_some_iff.mp hread
      obtain ⟨more, hmore, hread⟩ := Option.bind_eq_some_iff.mp hread
      obtain ⟨high, low, hhigh, hlow, rfl⟩ := bytePair?_eq_some_iff.mp hpair
      obtain rfl := Option.some.inj hread
      exact .cons hhigh hlow (ih hmore)
    | case3 c => cases hread
  · intro hdenotes
    induction hdenotes with
    | nil => rfl
    | cons hhigh hlow _ ih =>
      unfold bytePairs?
      rw [bytePair?_eq_some_iff.mpr ⟨_, _, hhigh, hlow, rfl⟩, ih]
      rfl

/-! ### Words of pairs -/

/-- A word of pairs as a whole. -/
structure Paired (hex : List Char) : Prop where
  even : hex.length % 2 = 0
  digits : ∀ i c, hex[i]? = some c → (∃ n, HexDigit c n) ∨ c = '+' ∧ i % 2 = 0

theorem Denotes.paired {hex : List Char} {bytes : List UInt8} (hdenotes : Denotes hex bytes) :
    Paired hex := by
  induction hdenotes with
  | nil => exact ⟨rfl, fun i c hget => nomatch hget⟩
  | @cons a b high low rest bytes hhigh hlow _ ih =>
    refine ⟨?_, fun i c hget => ?_⟩
    -- two characters more: the places of the others are still even or odd
    · have := ih.even
      simp only [List.length_cons]
      omega
    · match i with
      | 0 =>
        obtain rfl := Option.some.inj hget
        exact hhigh.imp (fun hdigit => ⟨high, hdigit⟩) fun hplus => ⟨hplus.1, rfl⟩
      | 1 =>
        obtain rfl := Option.some.inj hget
        exact .inl ⟨low, hlow⟩
      | i + 2 =>
        rw [Nat.add_mod_right]
        exact ih.digits i c hget

theorem Paired.denotes {hex : List Char} (hpaired : Paired hex) : ∃ bytes, Denotes hex bytes := by
  induction hex using bytePairs?.induct with
  | case1 => exact ⟨[], .nil⟩
  | case2 a b rest ih =>
    have hrest : Paired rest := by
      refine ⟨?_, fun i c hget => ?_⟩
      · have := hpaired.even
        simp only [List.length_cons] at this
        omega
      · have := hpaired.digits (i + 2) c hget
        rwa [Nat.add_mod_right] at this
    obtain ⟨bytes, hdenotes⟩ := ih hrest
    have hhigh : ∃ high, Leads a high := by
      rcases hpaired.digits 0 a rfl with ⟨n, hdigit⟩ | ⟨hplus, -⟩
      · exact ⟨n, .inl hdigit⟩
      · exact ⟨0, .inr ⟨hplus, rfl⟩⟩
    obtain ⟨high, hhigh⟩ := hhigh
    rcases hpaired.digits 1 b rfl with ⟨low, hlow⟩ | ⟨-, hodd⟩
    · exact ⟨_, .cons hhigh hlow hdenotes⟩
    · exact nomatch hodd
  | case3 c => exact nomatch hpaired.even

/-! ### Input of bytes -/

/-- A type of byte strings. An enum is none, whatever its identifier. -/
def IsBytea (d : TypeDescriptor) : Prop := d.id = Scalar.bytea.id ∧ ∀ labels, d.kind ≠ .enum labels

theorem ofText_bytea {d : TypeDescriptor} (hd : IsBytea d) (text : String) (typeMod : Int32) :
    ofText d text typeMod =
      orFail (invalidSyntax d.name text) ((byteaOfText? text).map .bytea) := by
  unfold ofText
  obtain ⟨hid, hkind⟩ := hd
  split
  next labels henum => exact absurd henum (hkind labels)
  · rw [hid, Scalar.ofId?_id]
    rfl

theorem byteaOfText?_of_mark {text : String} {hex : List Char}
    (hmark : text.toList = '\\' :: 'x' :: hex) :
    byteaOfText? text = (bytePairs? hex).map fun bytes => ⟨bytes.toArray⟩ := by
  unfold byteaOfText?
  rw [hmark]
  rfl

theorem byteaOfText?_of_no_mark {text : String}
    (hplain : ∀ hex, text.toList ≠ '\\' :: 'x' :: hex) :
    byteaOfText? text = some text.toUTF8 := by
  unfold byteaOfText?
  split
  next hex hmark => exact absurd hmark (hplain hex)
  · rfl

section Input

variable {d : TypeDescriptor} {text : String} {hex : List Char}

/-- Behind the mark, the input answers the bytes that the pairs denote. -/
theorem ofText_eq_ok_of_mark (hd : IsBytea d) (hmark : text.toList = '\\' :: 'x' :: hex)
    (typeMod : Int32) (v : Datum) :
    ofText d text typeMod = .ok v ↔ ∃ bytes, Denotes hex bytes ∧ v = .bytea ⟨bytes.toArray⟩ := by
  rw [ofText_bytea hd, byteaOfText?_of_mark hmark]
  constructor
  · intro hok
    obtain ⟨b, hread, rfl⟩ := some_of_orFail_map_eq_ok hok
    obtain ⟨bytes, hpairs, rfl⟩ := Option.map_eq_some_iff.mp hread
    exact ⟨bytes, bytePairs?_eq_some_iff.mp hpairs, rfl⟩
  · rintro ⟨bytes, hdenotes, rfl⟩
    rw [bytePairs?_eq_some_iff.mpr hdenotes]
    rfl

/-- Behind the mark, the input fails for anything but pairs. -/
theorem ofText_eq_error_of_mark (hd : IsBytea d) (hmark : text.toList = '\\' :: 'x' :: hex)
    (typeMod : Int32) (f : Failure) :
    ofText d text typeMod = .error f ↔ f = invalidSyntax d.name text ∧ ¬ Paired hex := by
  by_cases hpaired : Paired hex
  · obtain ⟨bytes, hdenotes⟩ := hpaired.denotes
    rw [(ofText_eq_ok_of_mark hd hmark typeMod _).mpr ⟨bytes, hdenotes, rfl⟩]
    exact iff_of_false nofun fun hfail => hfail.2 hpaired
  · have hnone : bytePairs? hex = none := by
      rw [Option.eq_none_iff_forall_ne_some]
      intro bytes hread
      exact hpaired (bytePairs?_eq_some_iff.mp hread).paired
    rw [ofText_bytea hd, byteaOfText?_of_mark hmark, hnone]
    show Except.error (invalidSyntax d.name text) = .error f ↔ _
    rw [Except.error.injEq, eq_comm, and_iff_left hpaired]

/-- Without the mark, the input answers the bytes of the text. -/
theorem ofText_of_no_mark (hd : IsBytea d) (hplain : ∀ hex, text.toList ≠ '\\' :: 'x' :: hex)
    (typeMod : Int32) : ofText d text typeMod = .ok (.bytea text.toUTF8) := by
  rw [ofText_bytea hd, byteaOfText?_of_no_mark hplain]
  rfl

end Input

/-- What the input of bytes does. -/
structure ByteaLaw (d : TypeDescriptor) : Prop where
  /-- It fails for the texts that begin with the mark and go on with anything but pairs. -/
  fails : ∀ text typeMod f, ofText d text typeMod = .error f ↔
    f = invalidSyntax d.name text ∧ ∃ hex, text.toList = '\\' :: 'x' :: hex ∧ ¬ Paired hex
  /-- Behind the mark, it answers the bytes that the pairs denote. -/
  marked : ∀ text typeMod hex, text.toList = '\\' :: 'x' :: hex → ∀ v,
    ofText d text typeMod = .ok v ↔ ∃ bytes, Denotes hex bytes ∧ v = .bytea ⟨bytes.toArray⟩
  /-- Without the mark, it answers the bytes of the text. -/
  plain : ∀ text typeMod, (∀ hex, text.toList ≠ '\\' :: 'x' :: hex) →
    ofText d text typeMod = .ok (.bytea text.toUTF8)
  /-- What bytes are written as is read as these bytes. -/
  again : ∀ bytes typeMod, ∃ text, toText (.bytea bytes) = .ok text ∧
    ofText d text typeMod = .ok (.bytea bytes)

/-- The input of bytes obeys the law. -/
theorem byteaLaw_ofText {d : TypeDescriptor} (hd : IsBytea d) : ByteaLaw d where
  fails text typeMod f := by
    by_cases hmark : ∃ hex, text.toList = '\\' :: 'x' :: hex
    · obtain ⟨hex, hmark⟩ := hmark
      rw [ofText_eq_error_of_mark hd hmark]
      refine and_congr_right fun _ => ⟨fun hnot => ⟨hex, hmark, hnot⟩, ?_⟩
      rintro ⟨hex', hmark', hnot⟩
      obtain rfl := (List.cons.inj (List.cons.inj (hmark.symm.trans hmark')).2).2
      exact hnot
    · rw [ofText_of_no_mark hd fun hex heq => hmark ⟨hex, heq⟩]
      refine iff_of_false nofun ?_
      rintro ⟨-, hex, heq, -⟩
      exact hmark ⟨hex, heq⟩
  marked text typeMod hex hmark := ofText_eq_ok_of_mark hd hmark typeMod
  plain text typeMod hplain := ofText_of_no_mark hd hplain typeMod
  again bytes typeMod := by
    refine ⟨textOfBytea bytes, rfl, ?_⟩
    rw [ofText_bytea hd, byteaOfText?_textOfBytea]
    rfl

/-- The type of byte strings that every database has. -/
def builtinBytea : TypeDescriptor :=
  { id := Scalar.bytea.id, name := "bytea", kind := .base, len := -1, byValue := false,
    align := .int }

theorem byteaLaw_ofText_builtin : IsBytea builtinBytea ∧ ByteaLaw builtinBytea :=
  ⟨⟨rfl, nofun⟩, byteaLaw_ofText ⟨rfl, nofun⟩⟩

/-- A plus sign is no digit, and is read nevertheless. -/
theorem plus_sign_read :
    ofText builtinBytea "\\x+5" (-1) = .ok (.bytea ⟨#[5]⟩) ∧ ¬ ∃ n, HexDigit '+' n := by
  refine ⟨by rfl, ?_⟩
  rintro ⟨n, hdigit⟩
  exact nomatch hexValue?_eq_some_iff.mpr hdigit

end StoredRoutine.Datum
