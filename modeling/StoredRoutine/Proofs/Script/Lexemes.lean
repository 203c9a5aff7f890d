import Mathlib
import StoredRoutine.Script.Token

/-!
# `StoredRoutine.Proofs.Script.Lexemes`: how sources fall into words

Every round of the lexer takes at least one character, so the fuel that it is given is enough
(`readAllFrom_fuel`), and what a source reads as can be computed from the front: blanks are skipped,
and a token stands for itself, followed by what the rest reads as (`readFrom_token`).

A word reads as one name exactly if it is an identifier (`readAll_eq_name_iff`).
-/

set_option autoImplicit false

namespace StoredRoutine.Script.Token

/-! ### Progress -/

theorem ok_of_map {α β : Type} {x : Reading α} {f : Rest α → Rest β} {r : Rest β}
    (h : x.map f = .ok r) : ∃ r', x = .ok r' ∧ f r' = r := by
  cases x with
  | error e => exact nomatch h
  | ok r' => exact ⟨r', rfl, Except.ok.inj h⟩

theorem length_dropNewline_lt (c : Char) (rest : List Char) :
    (dropNewline (c :: rest)).length < (c :: rest).length := by
  unfold dropNewline
  split <;> simp_all

theorem length_closeLong?_le {level : Nat} {cs after : List Char}
    (h : closeLong? level cs = some after) : after.length ≤ cs.length := by
  unfold closeLong? at h
  split at h
  next rest hrest =>
    split at h
    · obtain rfl := Option.some.inj h
      have hle := (List.dropWhile_sublist (l := cs) fun c => decide (c = '=')).length_le
      rw [hrest, List.length_cons] at hle
      omega
    · exact nomatch h
  · exact nomatch h

theorem length_openLong?_le {cs body : List Char} {level : Nat}
    (h : openLong? cs = some (level, body)) : body.length ≤ cs.length := by
  unfold openLong? at h
  split at h
  next rest hrest =>
    obtain ⟨-, rfl⟩ := Prod.mk.inj (Option.some.inj h)
    have hle := (List.dropWhile_sublist (l := cs) fun c => decide (c = '=')).length_le
    rw [hrest, List.length_cons] at hle
    omega
  · exact nomatch h

theorem length_readLong_le {level fuel line : Nat} {acc cs : List Char} {r : Rest (List Char)}
    (h : readLong level fuel line acc cs = .ok r) : r.chars.length ≤ cs.length := by
  fun_induction readLong level fuel line acc cs with
  | case1 => exact nomatch h
  | case2 => exact nomatch h
  | case3 fuel line acc c rest _ ih =>
    exact (ih h).trans (length_dropNewline_lt c rest).le
  | case4 fuel line acc rest after hclose _ =>
    obtain rfl := Except.ok.inj h
    exact (length_closeLong?_le hclose).trans (Nat.le_succ _)
  | case5 fuel line acc rest _ _ ih => exact (ih h).trans (Nat.le_succ _)
  | case6 fuel line acc c rest _ _ ih => exact (ih h).trans (Nat.le_succ _)

theorem length_readLongBody_le {level line : Nat} {cs : List Char} {r : Rest (List Char)}
    (h : readLongBody level line cs = .ok r) : r.chars.length ≤ cs.length := by
  unfold readLongBody at h
  split at h
  next c rest =>
    split at h
    · exact (length_readLong_le h).trans (length_dropNewline_lt c rest).le
    · exact length_readLong_le h
  · exact nomatch h

theorem length_readCodePoint?_le {cs after : List Char} {n : Nat}
    (h : readCodePoint? cs = some (n, after)) : after.length ≤ cs.length := by
  unfold readCodePoint? at h
  split at h
  next rest =>
    dsimp only at h
    split at h
    next after' hafter =>
      split at h
      · exact nomatch h
      · obtain ⟨-, rfl⟩ := Prod.mk.inj (Option.some.inj h)
        have hle := (List.dropWhile_sublist (l := rest) Number.isHexDigit).length_le
        rw [hafter, List.length_cons] at hle
        rw [List.length_cons]
        omega
    · exact nomatch h
  · exact nomatch h

theorem length_readEscape_le {line : Nat} {cs : List Char} {r : Rest (List Char)}
    (h : readEscape line cs = .ok r) : r.chars.length ≤ cs.length := by
  unfold readEscape at h
  cases cs with
  | nil => exact nomatch h
  | cons c rest =>
    dsimp only at h
    split at h
    · obtain rfl := Except.ok.inj h
      exact Nat.le_succ _
    · split_ifs at h
      · obtain rfl := Except.ok.inj h
        exact (length_dropNewline_lt c rest).le
      · split at h
        next a b after =>
          split at h
          · obtain rfl := Except.ok.inj h
            simp only [List.length_cons]
            omega
          · exact nomatch h
        · exact nomatch h
      · obtain rfl := Except.ok.inj h
        simp only [List.length_drop, List.length_cons]
        omega
      · split at h
        next n after hpoint =>
          obtain rfl := Except.ok.inj h
          exact (length_readCodePoint?_le hpoint).trans (Nat.le_succ _)
        · exact nomatch h
      · obtain rfl := Except.ok.inj h
        simp only [List.length_drop]
        omega

theorem length_readQuoted_le {quote : Char} {fuel line : Nat} {acc cs : List Char}
    {r : Rest (List Char)} (h : readQuoted quote fuel line acc cs = .ok r) :
    r.chars.length ≤ cs.length := by
  fun_induction readQuoted quote fuel line acc cs with
  | case1 => exact nomatch h
  | case2 => exact nomatch h
  | case3 fuel line acc rest =>
    obtain rfl := Except.ok.inj h
    exact Nat.le_succ _
  | case4 => exact nomatch h
  | case5 => exact nomatch h
  | case6 fuel line acc rest r' he _ _ ih =>
    exact ((ih h).trans (length_readEscape_le he)).trans (Nat.le_succ _)
  | case7 fuel line acc c rest _ _ _ ih => exact (ih h).trans (Nat.le_succ _)

theorem length_readComment_le {line : Nat} {cs : List Char} {r : Rest Unit}
    (h : readComment line cs = .ok r) : r.chars.length ≤ cs.length := by
  have hline : ∀ {r : Rest Unit},
      (.ok ⟨(), cs.dropWhile fun c => !isNewline c, line⟩ : Reading Unit) = .ok r →
        r.chars.length ≤ cs.length := by
    intro r h
    obtain rfl := Except.ok.inj h
    exact (List.dropWhile_sublist _).length_le
  unfold readComment at h
  dsimp only at h
  split at h
  next rest =>
    split at h
    next level body hopen =>
      obtain ⟨r', hbody, rfl⟩ := ok_of_map h
      exact ((length_readLongBody_le hbody).trans (length_openLong?_le hopen)).trans
        (Nat.le_succ _)
    · exact hline h
  · exact hline h

theorem isPart_of_isStart {c : Char} (h : Identifier.isStart c = true) :
    Identifier.isPart c = true := by
  simp only [Identifier.isStart, Identifier.isPart, Char.isAlphanum, Bool.or_eq_true] at h ⊢
  tauto

theorem toNat_of_isPart {c : Char} (h : Identifier.isPart c = true) :
    48 ≤ c.toNat ∧ c.toNat < 128 := by
  simp only [Identifier.isPart, Char.isAlphanum, Char.isAlpha, Char.isUpper, Char.isLower,
    Char.isDigit, Bool.or_eq_true, Bool.and_eq_true, decide_eq_true_eq, ge_iff_le,
    UInt32.le_iff_toNat_le] at h
  obtain rfl | h := h
  · decide
  · have hval : c.val.toNat = c.toNat := rfl
    have hbounds : 'A'.val.toNat = 65 ∧ 'Z'.val.toNat = 90 ∧ 'a'.val.toNat = 97 ∧
      'z'.val.toNat = 122 ∧ '0'.val.toNat = 48 ∧ '9'.val.toNat = 57 := by decide
    simp only [hbounds, hval] at h
    omega

/-- A numeral is not empty. -/
theorem length_takeNumeral_pos (exponent : List Char) {c : Char} {rest : List Char}
    (h : (c.isDigit || c = '.' && (rest.head?.map Char.isDigit).getD false) = true) :
    0 < (takeNumeral exponent (c :: rest)).length := by
  have hnumeral : (decide (c = '.') || Identifier.isPart c) = true := by
    simp only [Identifier.isPart, Char.isAlphanum, Bool.or_eq_true, Bool.and_eq_true] at h ⊢
    tauto
  unfold takeNumeral
  split
  · simp_all
  · simp_all
  · simp_all
    split <;> simp

/-- A symbol at the front has at least one character. -/
theorem length_splitSymbol?_lt {c : Char} {rest after : List Char} {s : String}
    (h : splitSymbol? (c :: rest) = some (s, after)) : after.length < (c :: rest).length := by
  obtain ⟨s', hfind, heq⟩ := Option.map_eq_some_iff.mp h
  obtain ⟨rfl, rfl⟩ := Prod.mk.inj heq
  have hlong : ∀ s ∈ symbols, 0 < s.length := by decide
  have hpos := hlong s' (List.mem_of_find?_eq_some hfind)
  simp only [List.length_drop, List.length_cons]
  omega

theorem length_readToken_lt {line : Nat} {c : Char} {rest : List Char} {r : Rest Token}
    (h : readToken line (c :: rest) = .ok r) : r.chars.length < (c :: rest).length := by
  unfold readToken at h
  dsimp only at h
  -- A word, a numeral, a quoted string, a long string or a symbol: each of them takes the first
  -- character.
  split at h
  next hstart =>
    obtain rfl := Except.ok.inj h
    rw [List.dropWhile_cons_of_pos (isPart_of_isStart hstart)]
    exact Nat.lt_succ_of_le (List.dropWhile_sublist _).length_le
  split at h
  next hdigit =>
    unfold readNumeral at h
    dsimp only at h
    split at h
    · obtain rfl := Except.ok.inj h
      have hpos := length_takeNumeral_pos (exponentLetters (c :: rest)) hdigit
      simp only [List.length_drop, List.length_cons]
      omega
    · cases h
  split at h
  · obtain ⟨r', hquoted, rfl⟩ := ok_of_map h
    exact Nat.lt_succ_of_le (length_readQuoted_le hquoted)
  by_cases hbracket : c = '['
  · rw [if_pos hbracket] at h
    split at h
    next level body hopen =>
      obtain ⟨r', hbody, rfl⟩ := ok_of_map h
      exact Nat.lt_succ_of_le ((length_readLongBody_le hbody).trans (length_openLong?_le hopen))
    split at h
    next s after hsplit =>
      obtain rfl := Except.ok.inj h
      exact length_splitSymbol?_lt hsplit
    · cases h
  · rw [if_neg hbracket] at h
    dsimp only at h
    split at h
    next s after hsplit =>
      obtain rfl := Except.ok.inj h
      exact length_splitSymbol?_lt hsplit
    · cases h

/-! ### Reading without fuel -/

/-- Any fuel that exceeds the number of characters is enough. -/
theorem readAllFrom_fuel {fuel fuel' line : Nat} {cs : List Char} (h : cs.length < fuel)
    (h' : cs.length < fuel') : readAllFrom fuel line cs = readAllFrom fuel' line cs := by
  induction fuel generalizing fuel' line cs with
  | zero => exact absurd h (Nat.not_lt_zero _)
  | succ fuel ih =>
    obtain _ | fuel' := fuel'
    · exact absurd h' (Nat.not_lt_zero _)
    obtain _ | ⟨c, rest⟩ := cs
    · rfl
    rw [List.length_cons] at h h'
    -- after one round fewer characters are left
    have hshorter : ∀ (line : Nat) {after : List Char}, after.length ≤ rest.length →
        readAllFrom fuel line after = readAllFrom fuel' line after :=
      fun line after hafter => ih (by omega) (by omega)
    unfold readAllFrom
    have hnewline := hshorter (line + 1) (Nat.le_of_lt_succ (length_dropNewline_lt c rest))
    have hspace := hshorter line (Nat.le_refl rest.length)
    rw [hnewline, hspace]
    have hcomment : ∀ r, readComment line (rest.drop 1) = .ok r →
        readAllFrom fuel r.line r.chars = readAllFrom fuel' r.line r.chars := fun r hr =>
      hshorter r.line ((length_readComment_le hr).trans (by simp))
    have htoken : ∀ r, readToken line (c :: rest) = .ok r →
        readAllFrom fuel r.line r.chars = readAllFrom fuel' r.line r.chars := fun r hr =>
      hshorter r.line (Nat.le_of_lt_succ (length_readToken_lt hr))
    cases hc : readComment line (rest.drop 1) <;> cases ht : readToken line (c :: rest) <;>
      simp_all

/-- The tokens of characters from a line on. -/
def readFrom (line : Nat) (cs : List Char) : Except SyntaxFault (List Lexeme) :=
  readAllFrom (cs.length + 1) line cs

theorem readAll_eq_readFrom (source : ByteArray) :
    readAll source = readFrom 1 (Text.byteChars source) := rfl

/-- What starts with a token reads as the token, and then as the rest. -/
theorem readFrom_token {line : Nat} {c : Char} {rest : List Char} {r : Rest Token}
    (hspace : Number.isSpace c = false) (hcomment : c ≠ '-')
    (h : readToken line (c :: rest) = .ok r) :
    readFrom line (c :: rest) = (readFrom r.line r.chars).map (⟨r.value, r.line⟩ :: ·) := by
  have hnewline : ¬isNewline c = true := by
    intro hc
    obtain rfl | rfl : c = '\n' ∨ c = '\r' := by simpa [isNewline] using hc
    all_goals exact absurd hspace (by decide)
  have hdashes : ¬"--".toList.isPrefixOf (c :: rest) = true := by
    simp [List.isPrefixOf, Ne.symm hcomment]
  unfold readFrom
  rw [List.length_cons, readAllFrom, if_neg hnewline, if_neg (by simp [hspace]), if_neg hdashes, h]
  dsimp only
  have hshorter := length_readToken_lt h
  rw [List.length_cons] at hshorter
  rw [readAllFrom_fuel hshorter (Nat.lt_succ_self _)]

/-! ### One line -/

/-- Words that stand on one line. -/
def onLine (line : Nat) (words : List Token) : List Lexeme := words.map (⟨·, line⟩)

/-- Characters read as words on one line, followed by what the rest reads as from that line on. -/
def Reads (line : Nat) (cs : List Char) (words : List Token) (rest : List Char) : Prop :=
  readFrom line cs = (readFrom line rest).map (onLine line words ++ ·)

variable {line : Nat} {cs mid rest : List Char} {words words' : List Token}

/-- What is read in two parts. -/
theorem Reads.trans (h : Reads line cs words mid) (h' : Reads line mid words' rest) :
    Reads line cs (words ++ words') rest := by
  unfold Reads at h h' ⊢
  rw [h, h']
  cases readFrom line rest with
  | error e => rfl
  | ok tokens => simp [Except.map, onLine]

/-- Blanks are skipped. -/
theorem reads_blank (line : Nat) (rest : List Char) : Reads line (' ' :: rest) [] rest := by
  have hskip : readFrom line (' ' :: rest) = readFrom line rest := rfl
  unfold Reads
  rw [hskip]
  cases readFrom line rest <;> rfl

/-- A token is read off the front. -/
theorem reads_token {c : Char} {token : Token} (hspace : Number.isSpace c = false)
    (hcomment : c ≠ '-') (h : readToken line (c :: cs) = .ok ⟨token, rest, line⟩) :
    Reads line (c :: cs) [token] rest := readFrom_token hspace hcomment h

/-! ### Texts in the ASCII range -/

theorem byteChars_append (s t : String) :
    Text.byteChars (s ++ t).toUTF8 = Text.byteChars s.toUTF8 ++ Text.byteChars t.toUTF8 := by
  simp [Text.byteChars, String.toUTF8_eq_toByteArray, String.toByteArray_append]

/-- The bytes of a text in which all characters are in the ASCII range are these characters. -/
theorem byteChars_toUTF8 {s : String} (h : ∀ c ∈ s.toList, c.toNat < 128) :
    Text.byteChars s.toUTF8 = s.toList := by
  obtain ⟨cs, rfl⟩ : ∃ cs, s = String.ofList cs := ⟨s.toList, s.ofList_toList.symm⟩
  rw [String.toList_ofList] at h ⊢
  rw [Text.byteChars, String.toUTF8_eq_toByteArray, String.toByteArray_ofList]
  induction cs with
  | nil => rfl
  | cons c cs ih =>
    obtain ⟨hc, hcs⟩ := List.forall_mem_cons.mp h
    have hsize : c.utf8Size = 1 := by
      rw [Char.utf8Size_eq_one_iff, UInt32.le_iff_toNat_le]
      exact Nat.le_of_lt_succ hc
    have hfirst : [c].utf8Encode = [c.val.toUInt8].toByteArray := by
      rw [List.utf8Encode_singleton, String.utf8EncodeChar_eq_singleton hsize]
    have hcode : Char.ofNat c.val.toUInt8.toNat = c := by
      have hval : c.val.toUInt8.toNat = c.toNat := by
        rw [UInt32.toNat_toUInt8]
        exact Nat.mod_eq_of_lt (by have : c.val.toNat = c.toNat := rfl; omega)
      rw [hval, Char.ofNat_toNat]
    rw [List.utf8Encode_cons, hfirst]
    simp only [ByteArray.data_append, Array.toList_append, List.map_append]
    rw [ih (by simpa using hcs)]
    simpa using hcode

theorem byteChars_of_isShaped {word : String} (h : Identifier.isShaped word.toList = true) :
    Text.byteChars word.toUTF8 = word.toList := by
  refine byteChars_toUTF8 fun c hc => ?_
  cases hchars : word.toList with
  | nil => rw [hchars] at h; exact nomatch h
  | cons x cs =>
    rw [hchars] at h hc
    obtain ⟨hstart, hparts⟩ := Bool.and_eq_true_iff.mp h
    obtain rfl | hc := List.mem_cons.mp hc
    · exact (toNat_of_isPart (isPart_of_isStart hstart)).2
    · exact (toNat_of_isPart (List.all_eq_true.mp hparts c hc)).2

/-! ### Words -/

/-- What a word reads as. -/
def ofWord (word : String) : Token :=
  if Identifier.reserved.contains word then .reserved word else .name word

theorem ofWord_of_isValid {name : String} (h : Identifier.isValid name = true) :
    ofWord name = .name name := by
  obtain ⟨-, hreserved⟩ := Bool.and_eq_true_iff.mp h
  exact if_neg (by simpa using hreserved)

/-- A word at the front is read up to the first character that cannot belong to it. -/
theorem reads_word (line : Nat) {word : String} (hword : Identifier.isShaped word.toList = true)
    {rest : List Char} (hrest : ∀ c ∈ rest.head?, Identifier.isPart c = false) :
    Reads line (Text.byteChars word.toUTF8 ++ rest) [ofWord word] rest := by
  rw [byteChars_of_isShaped hword]
  cases hchars : word.toList with
  | nil => rw [hchars] at hword; exact nomatch hword
  | cons c cs =>
    rw [hchars] at hword
    obtain ⟨hstart, hparts⟩ := Bool.and_eq_true_iff.mp hword
    have hall : ∀ x ∈ c :: cs, Identifier.isPart x = true :=
      List.forall_mem_cons.mpr ⟨isPart_of_isStart hstart, List.all_eq_true.mp hparts⟩
    -- The characters of the word end where the rest begins.
    have hend : rest.takeWhile Identifier.isPart = [] ∧
        rest.dropWhile Identifier.isPart = rest := by
      cases rest with
      | nil => exact ⟨rfl, rfl⟩
      | cons x rest =>
        have hx : ¬Identifier.isPart x = true := by rw [hrest x rfl]; exact Bool.false_ne_true
        exact ⟨List.takeWhile_cons_of_neg hx, List.dropWhile_cons_of_neg hx⟩
    have htoken : readToken line (c :: (cs ++ rest)) = .ok ⟨ofWord word, rest, line⟩ := by
      unfold readToken
      dsimp only
      rw [if_pos hstart, ← List.cons_append, List.takeWhile_append_of_pos hall,
        List.dropWhile_append_of_pos hall, hend.1, hend.2, List.append_nil, ← hchars,
        String.ofList_toList]
      rfl
    have hspace : Number.isSpace c = false := by
      have hrange := toNat_of_isPart (isPart_of_isStart hstart)
      have hblank : c ≠ ' ' := by
        rintro rfl
        exact absurd hstart (by decide)
      simp only [Number.isSpace, hblank, decide_false, Bool.false_or, Bool.and_eq_false_iff,
        decide_eq_false_iff_not]
      omega
    have hdash : c ≠ '-' := by
      rintro rfl
      exact absurd hstart (by decide)
    exact reads_token hspace hdash htoken

/-- A word ends before a character that cannot belong to it. -/
theorem reads_word_cons (line : Nat) {word : String}
    (hword : Identifier.isShaped word.toList = true) {c : Char}
    (hc : Identifier.isPart c = false) (rest : List Char) :
    Reads line (Text.byteChars word.toUTF8 ++ c :: rest) [ofWord word] (c :: rest) := by
  refine reads_word line hword fun x hx => ?_
  obtain rfl := Option.some.inj hx
  exact hc

/-- A word and the blank behind it. -/
theorem reads_word_blank (line : Nat) {word : String}
    (hword : Identifier.isShaped word.toList = true) (rest : List Char) :
    Reads line (Text.byteChars word.toUTF8 ++ ' ' :: rest) [ofWord word] rest :=
  (reads_word_cons line hword (by decide) rest).trans (reads_blank line rest)

/-- What is read as a name is an identifier. -/
theorem isValid_of_readToken {line : Nat} {cs : List Char} {name : String} {r : Rest Token}
    (h : readToken line cs = .ok r) (hname : r.value = .name name) :
    Identifier.isValid name = true := by
  unfold readToken at h
  split at h
  · exact nomatch h
  next c rest =>
  dsimp only at h
  split at h
  next hstart =>
    obtain rfl := Except.ok.inj h
    -- Only a word gives a name, and a reserved one does not.
    dsimp only at hname
    split at hname
    · exact nomatch hname
    next hreserved =>
      obtain rfl := Token.name.inj hname
      have hshaped : Identifier.isShaped ((c :: rest).takeWhile Identifier.isPart) = true := by
        rw [List.takeWhile_cons_of_pos (isPart_of_isStart hstart)]
        exact Bool.and_eq_true_iff.mpr ⟨hstart, List.all_takeWhile⟩
      rw [Identifier.isValid, String.toList_ofList, hshaped, Bool.true_and]
      simpa using hreserved
  split at h
  · unfold readNumeral at h
    dsimp only at h
    split at h
    · obtain rfl := Except.ok.inj h
      exact nomatch hname
    · exact nomatch h
  split at h
  · obtain ⟨r', -, rfl⟩ := ok_of_map h
    exact nomatch hname
  split at h
  · obtain ⟨r', -, rfl⟩ := ok_of_map h
    exact nomatch hname
  · split at h
    · obtain rfl := Except.ok.inj h
      exact nomatch hname
    · exact nomatch h

/-- All names in a source are identifiers. -/
theorem isValid_of_readAllFrom {fuel line : Nat} {cs : List Char} {tokens : List Lexeme}
    (h : readAllFrom fuel line cs = .ok tokens) {name : String} {l : Lexeme} (hl : l ∈ tokens)
    (hname : l.token = .name name) : Identifier.isValid name = true := by
  fun_induction readAllFrom fuel line cs generalizing tokens with
  | case1 => exact nomatch h
  | case2 =>
    obtain rfl := Except.ok.inj h
    exact absurd hl List.not_mem_nil
  | case3 fuel line c rest _ ih => exact ih h hl
  | case4 fuel line c rest _ _ ih => exact ih h hl
  | case5 => exact nomatch h
  | case6 fuel line c rest _ _ _ r _ ih => exact ih h hl
  | case7 => exact nomatch h
  | case8 fuel line c rest _ _ _ r hr ih =>
    cases hrest : readAllFrom fuel r.line r.chars with
    | error e => rw [hrest] at h; exact nomatch h
    | ok tokens' =>
      rw [hrest] at h
      obtain rfl := Except.ok.inj h
      obtain rfl | hl := List.mem_cons.mp hl
      · exact isValid_of_readToken hr hname
      · exact ih hrest hl

/-- An identifier is a text that reads as one name, which is the text itself. -/
theorem readAll_eq_name_iff {name : String} :
    readAll name.toUTF8 = .ok [⟨.name name, 1⟩] ↔ Identifier.isValid name = true := by
  constructor
  · exact fun h => isValid_of_readAllFrom h (List.mem_singleton_self _) rfl
  · intro h
    obtain ⟨hshaped, -⟩ := Bool.and_eq_true_iff.mp h
    have hread : Reads 1 (Text.byteChars name.toUTF8 ++ []) [ofWord name] [] :=
      reads_word 1 hshaped fun _ hc => nomatch hc
    rwa [List.append_nil, ofWord_of_isValid h] at hread

end StoredRoutine.Script.Token
