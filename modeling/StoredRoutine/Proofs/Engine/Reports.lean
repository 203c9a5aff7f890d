import Mathlib.Tactic.IntervalCases
import StoredRoutine.Proofs.Engine.Records
import StoredRoutine.Text.Bytes

/-!
# `StoredRoutine.Proofs.Engine.Reports`: from a failure to a table and back

`Text.display` takes any bytes for a text. Bytes that are one are shown as what they are
(`display_toUTF8`): no character of a text is shown as the replacement character unless it is that
character. One lemma goes by the number of bytes that a character takes (`decode_char`); the bounds
for the byte behind the first one are those that keep out the numbers which are no characters.

A failure that a protected call has caught becomes a table with the fields of its report
(`Serving.reportTable_eq`). What the table is read as, when it is raised again, is the same report
(`Engine.reportOf_eq`), and the failure that this makes has the report and the SQLSTATE of the first
one (`Failure.report_again`). All five fields come back, whichever of them there are: a text is
written byte by byte and read as itself, and a field that is not there is nil.
-/

set_option autoImplicit false

namespace StoredRoutine.Text

variable {rest : List UInt8}

theorem toNat_ofNat {n : Nat} (hn : n < 256) : (UInt8.ofNat n).toNat = n :=
  UInt8.toNat_ofNat_of_lt hn

/-- A byte with six more bits of a character. -/
theorem decodeTail_six {x : Nat} {low high : UInt8} (hlow : low.toNat ≤ x % 64 + 128)
    (hhigh : x % 64 + 128 ≤ high.toNat) (count value : Nat) (rest : List UInt8) :
    decodeTail (count + 1) value low high (UInt8.ofNat (x % 64 + 128) :: rest) =
      decodeTail count (64 * value + x % 64) 0x80 0xBF rest := by
  have hbyte : (UInt8.ofNat (x % 64 + 128)).toNat = x % 64 + 128 := toNat_ofNat (by omega)
  have hfits : low ≤ UInt8.ofNat (x % 64 + 128) ∧ UInt8.ofNat (x % 64 + 128) ≤ high := by
    rw [UInt8.le_iff_toNat_le, UInt8.le_iff_toNat_le, hbyte]
    exact ⟨hlow, hhigh⟩
  have hbits : (x % 64 + 128) % 64 = x % 64 := by omega
  rw [decodeTail, if_pos hfits, hbyte, hbits]

/-- The same where any such byte may come next. -/
theorem decodeTail_any (x count value : Nat) (rest : List UInt8) :
    decodeTail (count + 1) value 0x80 0xBF (UInt8.ofNat (x % 64 + 128) :: rest) =
      decodeTail count (64 * value + x % 64) 0x80 0xBF rest := by
  refine decodeTail_six ?_ ?_ count value rest
  · show 128 ≤ _
    omega
  · show _ ≤ 191
    omega

/-- The first byte of a character that takes more of them. -/
theorem decode_lead {n count value : Nat} {low high : UInt8} (hn : 128 ≤ n) (hlt : n < 256)
    (hlead : leadByte? (UInt8.ofNat n) = some (count, value, low, high)) (rest : List UInt8) :
    decode (UInt8.ofNat n :: rest) =
      (decodeTail count value low high rest).1 ::
        decode (decodeTail count value low high rest).2 := by
  have hlarge : ¬ UInt8.ofNat n < 0x80 := by
    rw [UInt8.lt_iff_toNat_lt, toNat_ofNat hlt]
    show ¬ n < 128
    omega
  rw [decode, if_neg hlarge, hlead]

theorem leadByte?_two {x : Nat} (hlow : 2 ≤ x) (hhigh : x < 32) :
    leadByte? (UInt8.ofNat (x + 192)) = some (1, x, 0x80, 0xBF) := by
  unfold leadByte?
  rw [toNat_ofNat (by omega)]
  dsimp only
  rw [if_pos (by omega), Nat.add_sub_cancel]

/-- The first byte of three: what the next one may be depends on it. -/
theorem leadByte?_three {x : Nat} (hx : x < 16) :
    ∃ low high : UInt8, leadByte? (UInt8.ofNat (x + 224)) = some (2, x, low, high) ∧
      low.toNat = (if x = 0 then 0xA0 else 0x80) ∧
        high.toNat = (if x = 13 then 0x9F else 0xBF) := by
  interval_cases x <;> exact ⟨_, _, rfl, rfl, rfl⟩

/-- The first byte of four. -/
theorem leadByte?_four {x : Nat} (hx : x < 5) :
    ∃ low high : UInt8, leadByte? (UInt8.ofNat (x + 240)) = some (3, x, low, high) ∧
      low.toNat = (if x = 0 then 0x90 else 0x80) ∧ high.toNat = (if x = 4 then 0x8F else 0xBF) := by
  interval_cases x <;> exact ⟨_, _, rfl, rfl, rfl⟩

/-- The bytes of a character are read as the character. -/
theorem decode_char (c : Char) (rest : List UInt8) :
    decode (String.utf8EncodeChar c ++ rest) = c :: decode rest := by
  have hvalid : c.val.toNat < 0xD800 ∨ 0xDFFF < c.val.toNat ∧ c.val.toNat < 0x110000 := c.valid
  have hchar (n : Nat) (hn : n = c.val.toNat) : Char.ofNat n = c := by
    rw [hn]
    exact Char.ofNat_toNat c
  unfold String.utf8EncodeChar
  dsimp only
  generalize c.val.toNat = v at hvalid hchar ⊢
  split
  · -- one byte
    have hsmall : UInt8.ofNat v < 0x80 := by
      rw [UInt8.lt_iff_toNat_lt, toNat_ofNat (by omega)]
      show v < 128
      omega
    rw [List.singleton_append, decode, if_pos hsmall, toNat_ofNat (by omega), hchar v rfl]
  · split
    · -- two bytes
      have hhead : v / 64 % 32 = v / 64 := by omega
      rw [hhead, List.cons_append, List.singleton_append,
        decode_lead (by omega) (by omega) (leadByte?_two (by omega) (by omega)), decodeTail_any,
        decodeTail, hchar _ (by omega)]
    · split
      · -- three bytes; the bounds keep out what would take fewer, and the surrogates
        have hhead : v / 4096 % 16 = v / 4096 := by omega
        obtain ⟨low, high, hlead, hlow, hhigh⟩ := leadByte?_three (x := v / 4096) (by omega)
        rw [hhead, List.cons_append, List.cons_append, List.singleton_append,
          decode_lead (by omega) (by omega) hlead, decodeTail_six, decodeTail_any, decodeTail,
          hchar _ (by omega)]
        · rw [hlow]
          split <;> omega
        · rw [hhigh]
          split <;> omega
      · -- four bytes; the bounds keep out what would take fewer, and what is too large
        have hhead : v / 262144 % 8 = v / 262144 := by omega
        obtain ⟨low, high, hlead, hlow, hhigh⟩ := leadByte?_four (x := v / 262144) (by omega)
        rw [hhead, List.cons_append, List.cons_append, List.cons_append, List.singleton_append,
          decode_lead (by omega) (by omega) hlead, decodeTail_six, decodeTail_any, decodeTail_any,
          decodeTail, hchar _ (by omega)]
        · rw [hlow]
          split <;> omega
        · rw [hhigh]
          split <;> omega

theorem decode_chars (cs : List Char) : decode (cs.flatMap String.utf8EncodeChar) = cs := by
  induction cs with
  | nil => rw [List.flatMap_nil, decode]
  | cons c rest ih => rw [List.flatMap_cons, decode_char, ih]

/-- A text is shown as it is. -/
theorem display_toUTF8 (s : String) : display s.toUTF8 = s := by
  have hbytes : s.toUTF8.data.toList = s.toList.flatMap String.utf8EncodeChar := by
    rw [String.toUTF8_eq_toByteArray, ← String.utf8Encode_toList]
    simp [List.utf8Encode]
  rw [display, hbytes, decode_chars, String.ofList_toList]

end StoredRoutine.Text

namespace StoredRoutine

open Script (Heap Key TableId Value)

/-! ### Failures that stand for reports -/

/-- The code of a report is the SQLSTATE of the failure, so to make a failure of a report and to
report it again changes nothing. -/
theorem Failure.report_again (f : Failure) : (Failure.runtime f.report).report = f.report ∧
    (Failure.runtime f.report).sqlstate = f.sqlstate := by
  have hstate : (Failure.runtime f.report).sqlstate = f.sqlstate := by
    show f.report.code.getD "22000" = f.sqlstate
    rw [f.report_code]
    rfl
  refine ⟨?_, hstate⟩
  show { f.report with code := some (Failure.runtime f.report).sqlstate } = f.report
  rw [hstate, ← f.report_code]

namespace Script

/-- A field that is there if there is a text for it. -/
def textFields (name : String) (text : Option String) : List (String × Value) :=
  (text.map fun t => (name, Value.ofText t)).toList

variable {fields : List (String × Value)} {name other : String}

theorem lastField_textFields_of_ne (hne : Key.ofText name ≠ .ofText other) (text : Option String) :
    lastField (fields ++ textFields name text) (.ofText other) =
      lastField fields (.ofText other) := by
  refine lastField_append_of_ne fun f hf => ?_
  obtain ⟨t, -, rfl⟩ := Option.map_eq_some_iff.mp (Option.mem_toList.mp hf)
  exact hne

/-- If there is no such field in front, it is the text, or nil if there is none. -/
theorem lastField_textFields (hnone : lastField fields (.ofText name) = .nil)
    (text : Option String) :
    lastField (fields ++ textFields name text) (.ofText name) =
      (text.map Value.ofText).getD .nil := by
  unfold textFields
  cases text with
  | none =>
    rw [Option.map_none, Option.toList_none, List.append_nil, hnone]
    rfl
  | some t =>
    rw [Option.map_some, Option.toList_some, lastField_concat]
    rfl

/-- The fields of a table are those of a report. A text that is not there is nil. -/
structure Heap.HasReport (h : Heap) (id : TableId) (r : Report) : Prop where
  message : h.rawGet id (.ofText "message") = .ofText r.message
  detail : h.rawGet id (.ofText "detail") = (r.detail.map Value.ofText).getD .nil
  hint : h.rawGet id (.ofText "hint") = (r.hint.map Value.ofText).getD .nil
  context : h.rawGet id (.ofText "context") = (r.context.map Value.ofText).getD .nil
  code : h.rawGet id (.ofText "sqlerrcode") = (r.code.map Value.ofText).getD .nil

end Script

namespace Engine

open Script (lastField lastField_textFields lastField_textFields_of_ne textFields)

theorem reportFields_eq (r : Report) : reportFields r = [("message", .ofText r.message)] ++
    textFields "detail" r.detail ++ textFields "hint" r.hint ++ textFields "context" r.context ++
      textFields "sqlerrcode" r.code := rfl

/-- The fields that are made for a report are those of the report: behind each there are only fields
of other names. -/
theorem hasReport_of_fields {h : Heap} {id : TableId} {r : Report}
    (hfields : ∀ name, h.rawGet id (.ofText name) = lastField (reportFields r) (.ofText name)) :
    h.HasReport id r where
  -- the fields behind the one that is asked for are passed one by one
  message := by
    rw [hfields, reportFields_eq, lastField_textFields_of_ne (by decide),
      lastField_textFields_of_ne (by decide), lastField_textFields_of_ne (by decide),
      lastField_textFields_of_ne (by decide)]
    rfl
  detail := by
    rw [hfields, reportFields_eq, lastField_textFields_of_ne (by decide),
      lastField_textFields_of_ne (by decide), lastField_textFields_of_ne (by decide)]
    exact lastField_textFields rfl _
  hint := by
    rw [hfields, reportFields_eq, lastField_textFields_of_ne (by decide),
      lastField_textFields_of_ne (by decide)]
    refine lastField_textFields ?_ _
    rw [lastField_textFields_of_ne (by decide)]
    rfl
  context := by
    rw [hfields, reportFields_eq, lastField_textFields_of_ne (by decide)]
    refine lastField_textFields ?_ _
    rw [lastField_textFields_of_ne (by decide), lastField_textFields_of_ne (by decide)]
    rfl
  code := by
    rw [hfields, reportFields_eq]
    refine lastField_textFields ?_ _
    rw [lastField_textFields_of_ne (by decide), lastField_textFields_of_ne (by decide),
      lastField_textFields_of_ne (by decide)]
    rfl

theorem textField?_eq {h : Heap} {id : TableId} {name : String} {text : Option String}
    (hfield : h.rawGet id (.ofText name) = (text.map Value.ofText).getD .nil) :
    textField? h id name = text := by
  unfold textField?
  rw [hfield]
  cases text with
  | none => rfl
  | some t => exact congrArg some (Text.display_toUTF8 t)

/-- A table with the fields of a report is read as the report. -/
theorem reportOf_eq {h : Heap} {id : TableId} {r : Report} (hr : h.HasReport id r) :
    reportOf h id = r := by
  have hmessage : textField? h id "message" = some r.message := textField?_eq hr.message
  unfold reportOf
  rw [hmessage, textField?_eq hr.detail, textField?_eq hr.hint, textField?_eq hr.context,
    textField?_eq hr.code]
  rfl

end Engine

namespace Serving

/-- A report becomes a new table with its fields. -/
theorem reportTable_eq (r : Report) (e : Engine) :
    ∃ id heap, reportTable r e = (.ok (.table id), { e with heap }) ∧ heap.HasReport id r := by
  refine ⟨_, _, rfl, Engine.hasReport_of_fields fun name => ?_⟩
  rw [← Heap.rawGet_tableOf e.heap]
  -- the metatable of reports has no part in what is read
  unfold Heap.rawGet
  rw [Heap.table_modifyTable, if_pos ⟨rfl, Heap.lt_size_tableOf _ _⟩]
  rfl

/-- What is caught by a protected call reaches the script as a table if it is a failure. -/
theorem caught_failure (f : Failure) (e : Engine) :
    ∃ id heap, caught (.failure f) e = (.ok (.table id), { e with heap }) ∧
      heap.HasReport id f.report := reportTable_eq f.report e

/-- Anything else reaches it as it is. -/
theorem caught_of_ne {v : Value} (hv : ∀ f, v ≠ .failure f) (e : Engine) :
    caught v e = (.ok v, e) := by
  cases v with
  | failure f => exact absurd rfl (hv f)
  | _ => rfl

end Serving

end StoredRoutine
