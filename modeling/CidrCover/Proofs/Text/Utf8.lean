import CidrCover.Proofs.Text.Basic
import Mathlib.Tactic.SplitIfs

/-!
# UTF-8 and lines

A text comes back from its bytes (`decodeUtf8?_encodeUtf8`), and bytes that are no text at all are
those that no list of characters encodes (`decodeUtf8?_eq_some_iff`). The byte of an ASCII character
is found in the code of that character and in no other (`mem_utf8EncodeChar_iff`). So it makes no
difference whether a text is taken apart into lines before or after it is encoded
(`splitOn_encodeChars`), and a byte that is appended to bytes is a character that is appended to
their text (`decodeUtf8?_push`).
-/

namespace CidrCover.Text

variable {c : Char} {s : String} {bytes : ByteArray}

/-- The bytes of some characters. -/
def encodeChars (cs : List Char) : List UInt8 :=
  cs.flatMap String.utf8EncodeChar

/-- What was encoded is decoded as it was. -/
@[simp] theorem decodeUtf8?_encodeUtf8 (s : String) : decodeUtf8? (encodeUtf8 s) = some s := by
  unfold decodeUtf8? encodeUtf8 String.fromUTF8?
  rw [String.toUTF8_eq_toByteArray, dif_pos s.isValidUTF8]
  rfl

/-- The bytes of a text are those of its characters. -/
theorem toList_encodeUtf8 (s : String) : (encodeUtf8 s).data.toList = encodeChars s.toList := by
  unfold encodeUtf8 encodeChars
  rw [String.toUTF8_eq_toByteArray, ← String.utf8Encode_toList]
  exact List.toList_data_toByteArray

/-- Bytes are decoded as a text if they are its bytes. -/
theorem decodeUtf8?_eq_some_iff : decodeUtf8? bytes = some s ↔ bytes = encodeUtf8 s := by
  constructor
  · intro h
    unfold decodeUtf8? String.fromUTF8? at h
    split at h
    · cases h
      rfl
    · exact absurd h nofun
  · rintro rfl
    exact decodeUtf8?_encodeUtf8 s

/-- To be the bytes of a text is to be the bytes of its characters. -/
theorem eq_encodeUtf8_iff : bytes = encodeUtf8 s ↔ bytes.data.toList = encodeChars s.toList := by
  rw [← toList_encodeUtf8, Array.toList_inj, ← ByteArray.ext_iff]

/-- Nothing is decoded if the bytes are not those of any text. -/
theorem decodeUtf8?_eq_none_iff : decodeUtf8? bytes = none ↔ ¬ bytes.IsValidUTF8 := by
  unfold decodeUtf8? String.fromUTF8?
  rw [dite_eq_right_iff]
  simp

/-! ### ASCII -/

/-- An ASCII character is encoded by one byte. -/
theorem utf8EncodeChar_of_lt (hc : c.toNat < 128) :
    String.utf8EncodeChar c = [UInt8.ofNat c.toNat] := by
  have hone : c.toNat ≤ 127 := Nat.le_of_lt_succ hc
  simp [String.utf8EncodeChar, hone]

/-- The byte of an ASCII character is found in the code of that character and in no other. -/
theorem mem_utf8EncodeChar_iff (hc : c.toNat < 128) {d : Char} :
    UInt8.ofNat c.toNat ∈ String.utf8EncodeChar d ↔ d = c := by
  constructor
  · intro h
    have hbyte : (UInt8.ofNat c.toNat).toNat = c.toNat := by
      rw [UInt8.toNat_ofNat', Nat.mod_eq_of_lt (by omega)]
    have hval : d.val.toNat = c.toNat := by
      unfold String.utf8EncodeChar at h
      generalize d.val.toNat = v at h
      generalize UInt8.ofNat c.toNat = b at h hbyte
      -- from the second row of the table on, every byte is at least 128
      simp only at h
      split_ifs at h with hone
      · simp only [List.mem_singleton, ← UInt8.toNat_inj, UInt8.toNat_ofNat'] at h
        rw [Nat.mod_eq_of_lt (by omega)] at h
        exact h.symm.trans hbyte
      all_goals
        simp only [List.mem_cons, List.not_mem_nil, or_false, ← UInt8.toNat_inj,
          UInt8.toNat_ofNat'] at h
        omega
    exact Char.ext (UInt32.toNat_inj.mp hval)
  · rintro rfl
    rw [utf8EncodeChar_of_lt hc]
    exact List.mem_singleton_self _

/-- The bytes of two texts stand one after the other. -/
theorem encodeChars_append (cs ds : List Char) :
    encodeChars (cs ++ ds) = encodeChars cs ++ encodeChars ds :=
  List.flatMap_append

/-- A single character has the bytes of its own. -/
theorem encodeChars_singleton (c : Char) : encodeChars [c] = String.utf8EncodeChar c :=
  List.flatMap_singleton _ _

/-- What precedes the byte of an ASCII character at the end of a text is a text. -/
theorem exists_encodeChars_eq_of_append (hc : c.toNat < 128) {cs : List Char} {part : List UInt8}
    (h : encodeChars cs = part ++ [UInt8.ofNat c.toNat]) : ∃ ds, encodeChars ds = part := by
  rcases List.eq_nil_or_concat' cs with rfl | ⟨ds, d, rfl⟩
  · exact absurd (congrArg List.length h) (by simp [encodeChars])
  · rw [encodeChars_append, encodeChars_singleton] at h
    have hlast := congrArg List.getLast? h
    rw [List.getLast?_append_of_ne_nil _ (by simp), List.getLast?_concat] at hlast
    obtain rfl := (mem_utf8EncodeChar_iff hc).mp (List.mem_of_getLast? hlast)
    rw [utf8EncodeChar_of_lt hc] at h
    exact ⟨ds, List.append_cancel_right h⟩

/-- An ASCII character is one byte, that of its code. -/
theorem encodeUtf8_push (hc : c.toNat < 128) (s : String) :
    encodeUtf8 (s.push c) = (encodeUtf8 s).push (UInt8.ofNat c.toNat) := by
  symm
  rw [eq_encodeUtf8_iff, ByteArray.data_push, Array.toList_push, toList_encodeUtf8,
    String.toList_push, encodeChars_append, encodeChars_singleton, utf8EncodeChar_of_lt hc]

/-- **An ASCII character more** at the end of a text is a byte more at the end of its bytes. -/
theorem decodeUtf8?_push (hc : c.toNat < 128) (bytes : ByteArray) :
    decodeUtf8? (bytes.push (UInt8.ofNat c.toNat)) = (decodeUtf8? bytes).map (·.push c) := by
  cases hbytes : decodeUtf8? bytes with
  | some s =>
    rw [decodeUtf8?_eq_some_iff] at hbytes
    rw [hbytes, ← encodeUtf8_push hc, decodeUtf8?_encodeUtf8]
    rfl
  | none =>
    cases hpush : decodeUtf8? (bytes.push (UInt8.ofNat c.toNat)) with
    | none => rfl
    | some t =>
      rw [decodeUtf8?_eq_some_iff, eq_encodeUtf8_iff, ByteArray.data_push, Array.toList_push]
        at hpush
      obtain ⟨ds, hds⟩ := exists_encodeChars_eq_of_append hc hpush.symm
      have htext : bytes = encodeUtf8 (String.ofList ds) := by
        rw [eq_encodeUtf8_iff, String.toList_ofList, hds]
      rw [htext, decodeUtf8?_encodeUtf8] at hbytes
      exact absurd hbytes nofun

/-! ### Lines -/

/-- The byte of a line feed is in no other character than the line feed. -/
theorem lineFeed_mem_utf8EncodeChar_iff : 10 ∈ String.utf8EncodeChar c ↔ c = '\n' :=
  mem_utf8EncodeChar_iff (c := '\n') (by decide)

/-- Bytes without line feeds belong to the first part of what follows. -/
theorem splitOn_append_of_notMem {part : List UInt8} (h : 10 ∉ part) (rest : List UInt8) :
    (part ++ rest).splitOn 10 = (rest.splitOn 10).modifyHead (part ++ ·) := by
  induction part with
  | nil =>
    rw [List.nil_append]
    cases rest.splitOn 10 with
    | nil => rfl
    | cons line lines => rfl
  | cons b part ih =>
    rw [List.mem_cons, not_or] at h
    have hb : (b == 10) = false := by simpa using Ne.symm h.1
    rw [List.cons_append, List.splitOn_cons_eq_if_modifyHead, hb, ih h.2]
    simp [List.modifyHead_modifyHead, Function.comp_def]

/-- **Lines of bytes are the bytes of lines.** -/
theorem splitOn_encodeChars (cs : List Char) :
    (encodeChars cs).splitOn 10 = (cs.splitOn '\n').map encodeChars := by
  induction cs with
  | nil => rfl
  | cons c cs ih =>
    have hcons : encodeChars (c :: cs) = String.utf8EncodeChar c ++ encodeChars cs :=
      List.flatMap_cons
    rw [hcons, List.splitOn_cons_eq_if_modifyHead]
    by_cases hc : c = '\n'
    · subst hc
      have hbytes : String.utf8EncodeChar '\n' = [10] := by decide
      rw [hbytes, List.singleton_append, List.splitOn_cons_eq_if_modifyHead, ih]
      rfl
    · rw [splitOn_append_of_notMem (mt lineFeed_mem_utf8EncodeChar_iff.mp hc), ih]
      obtain ⟨line, lines, hlines⟩ := List.exists_cons_of_ne_nil (List.splitOn_ne_nil '\n' cs)
      simp [hlines, hc, encodeChars]

/-- The bytes of lines are joined by the byte of the line feed, as the lines by the character. -/
theorem encodeChars_intercalate (lines : List (List Char)) :
    encodeChars (['\n'].intercalate lines) = [10].intercalate (lines.map encodeChars) := by
  induction lines with
  | nil => rfl
  | cons line lines ih =>
    cases lines with
    | nil => simp
    | cons next lines =>
      rw [List.map_cons] at ih ⊢
      rw [List.map_cons, List.intercalate_cons_cons, List.intercalate_cons_cons, ← ih]
      unfold encodeChars
      simp only [List.flatMap_append]
      rfl

end CidrCover.Text
