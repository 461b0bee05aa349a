import CidrCover.Entry.Basic
import CidrCover.Proofs.Text.Utf8
import Mathlib.Data.Set.List

/-!
# Reading entries by lines

Bytes are read as a whole or not at all: the lines of a text are read as the lines of characters
that they are (`readLines_encodeUtf8`), and bytes that are no text are refused, wherever in them the
flaw is (`readLines_of_not_text`). A line feed parts what is read: the entries on both sides of it
are read one after the other (`readLines_push_append`), so bytes can be cut at any line end. A
carriage return before it is a blank of the line before (`readLines_push_return`).

* **Reading line by line** (`readLines_line_by_line`): what is read and what is refused, and which
  differences between line ends do not matter.
-/

namespace CidrCover.Entry

variable {bytes : ByteArray} {line : List Char}

/-- The lines of a text in bytes are the bytes of its lines. -/
theorem byteLines_encodeUtf8 (s : String) :
    byteLines (Text.encodeUtf8 s) =
      (s.toList.splitOn '\n').map fun line => Text.encodeUtf8 (String.ofList line) := by
  unfold byteLines lineFeed
  rw [Text.toList_encodeUtf8, Text.splitOn_encodeChars, List.map_map]
  apply List.map_congr_left
  intro line _
  rw [Text.eq_encodeUtf8_iff, String.toList_ofList]
  rfl

/-- The bytes of a line are read as the line without blanks around it. -/
theorem readLine_encodeUtf8 (line : List Char) :
    readLine (Text.encodeUtf8 (String.ofList line)) = .ok (Text.trim line) := by
  simp [readLine]

/-- The same of several lines. -/
theorem mapM_readLine_encodeUtf8 (lines : List (List Char)) :
    (lines.map fun line => Text.encodeUtf8 (String.ofList line)).mapM readLine =
      .ok (lines.map Text.trim) := by
  induction lines with
  | nil => rfl
  | cons line lines ih =>
    rw [List.map_cons, List.mapM_cons, readLine_encodeUtf8, ih]
    rfl

/-- **The lines of a text** are trimmed, and those that are blank or begin with a number sign are
passed over. -/
theorem readLines_encodeUtf8 (s : String) :
    readLines (Text.encodeUtf8 s) =
      .ok ((((s.toList.splitOn '\n').map Text.trim).filter isEntryLine).map String.ofList) := by
  simp only [readLines, byteLines_encodeUtf8, mapM_readLine_encodeUtf8]

/-! ### Bytes that are no text -/

/-- A line that is no text is refused. -/
theorem readLine_of_decodeUtf8?_none {line : ByteArray} (h : Text.decodeUtf8? line = none) :
    readLine line = .error .notUtf8 := by
  simp [readLine, h]

/-- If each line is a text, then so are the bytes. -/
theorem exists_of_forall_byteLines
    (h : ∀ line ∈ byteLines bytes, ∃ s, Text.decodeUtf8? line = some s) :
    ∃ s, Text.decodeUtf8? bytes = some s := by
  have hrange : ∀ line ∈ bytes.data.toList.splitOn lineFeed, line ∈ Set.range Text.encodeChars := by
    intro line hline
    obtain ⟨s, hs⟩ := h _ (List.mem_map_of_mem hline)
    rw [Text.decodeUtf8?_eq_some_iff] at hs
    refine ⟨s.toList, ?_⟩
    rw [← Text.toList_encodeUtf8, ← hs]
  obtain ⟨lines, hlines⟩ := (Set.range_list_map Text.encodeChars).ge hrange
  refine ⟨String.ofList (['\n'].intercalate lines), Text.decodeUtf8?_eq_some_iff.mpr ?_⟩
  rw [Text.eq_encodeUtf8_iff, String.toList_ofList, Text.encodeChars_intercalate, hlines]
  exact (List.intercalate_splitOn lineFeed).symm

/-- All lines are texts, or the first one that is not is reported. -/
theorem mapM_readLine_cases (lines : List ByteArray) :
    (∀ line ∈ lines, ∃ s, Text.decodeUtf8? line = some s) ∨
      lines.mapM readLine = .error .notUtf8 := by
  induction lines with
  | nil => exact Or.inl (List.forall_mem_nil _)
  | cons line lines ih =>
    rw [List.mapM_cons]
    cases hline : Text.decodeUtf8? line with
    | none =>
      rw [readLine_of_decodeUtf8?_none hline]
      exact Or.inr rfl
    | some s =>
      rcases ih with ih | ih
      · exact Or.inl (List.forall_mem_cons.mpr ⟨⟨s, hline⟩, ih⟩)
      · have hread : readLine line = .ok (Text.trim s.toList) := by simp [readLine, hline]
        rw [hread, ih]
        exact Or.inr rfl

/-- If the bytes as a whole are no text then reading them fails. -/
theorem readLines_of_not_text (h : Text.decodeUtf8? bytes = none) :
    readLines bytes = .error ⟨[.readInput], .notUtf8⟩ := by
  rcases mapM_readLine_cases (byteLines bytes) with hall | herror
  · obtain ⟨s, hs⟩ := exists_of_forall_byteLines hall
    exact absurd (h.symm.trans hs) nofun
  · simp only [readLines, herror]

/-- What is refused is what is no text. -/
theorem readLines_eq_error_iff :
    readLines bytes = .error ⟨[.readInput], .notUtf8⟩ ↔ ¬ bytes.IsValidUTF8 := by
  rw [← Text.decodeUtf8?_eq_none_iff]
  refine ⟨fun herror => ?_, readLines_of_not_text⟩
  cases hbytes : Text.decodeUtf8? bytes with
  | none => rfl
  | some s =>
    rw [Text.decodeUtf8?_eq_some_iff.mp hbytes, readLines_encodeUtf8] at herror
    exact absurd herror nofun

/-! ### Lines after lines -/

/-- After a line end the lines go on with those of the rest. -/
theorem byteLines_push_append (a b : ByteArray) :
    byteLines (a.push lineFeed ++ b) = byteLines a ++ byteLines b := by
  have hlist : (a.push lineFeed ++ b).data.toList = a.data.toList ++ lineFeed :: b.data.toList := by
    simp [ByteArray.data_append, ByteArray.data_push]
  unfold byteLines
  rw [hlist, List.splitOn_append_cons_self, List.map_append]

/-- **Lines after lines** are read one after the other, and refused if either are. -/
theorem readLines_push_append (a b : ByteArray) :
    readLines (a.push lineFeed ++ b) = (do return (← readLines a) ++ (← readLines b)) := by
  unfold readLines
  rw [byteLines_push_append, List.mapM_append]
  cases (byteLines a).mapM readLine with
  | error f => rfl
  | ok lines =>
    cases (byteLines b).mapM readLine with
    | error f => rfl
    | ok more =>
      show Except.ok (((lines ++ more).filter isEntryLine).map String.ofList) = Except.ok (_ ++ _)
      rw [List.filter_append, List.map_append]

/-- The last line may have its end or not. -/
theorem readLines_push_lineFeed (a : ByteArray) : readLines (a.push lineFeed) = readLines a := by
  have hnothing : readLines ByteArray.empty = .ok [] := rfl
  have happend := readLines_push_append a ByteArray.empty
  rw [ByteArray.append_empty, hnothing] at happend
  rw [happend]
  cases readLines a with
  | error f => rfl
  | ok entries => exact congrArg Except.ok (List.append_nil entries)

/-! ### Carriage returns -/

/-- The byte of a carriage return. -/
def carriageReturn : UInt8 := 13

/-- A byte at the end belongs to the last line, unless it ends that line. -/
theorem exists_byteLines_push {x : UInt8} (hx : x ≠ lineFeed) (a : ByteArray) :
    ∃ lines line, byteLines a = lines ++ [line] ∧ byteLines (a.push x) = lines ++ [line.push x] := by
  obtain ⟨parts, part, ha, hpush⟩ := Text.exists_splitOn_append_singleton hx a.data.toList
  refine ⟨parts.map fun line => ⟨line.toArray⟩, ⟨part.toArray⟩, ?_, ?_⟩
  · rw [byteLines, ha, List.map_append]
    rfl
  · rw [byteLines, ByteArray.data_push, Array.toList_push, hpush, List.map_append,
      List.map_singleton, ← List.push_toArray]
    rfl

/-- A carriage return is a blank like others. -/
theorem readLine_push_return (line : ByteArray) :
    readLine (line.push carriageReturn) = readLine line := by
  have hdecode : Text.decodeUtf8? (line.push carriageReturn) =
      (Text.decodeUtf8? line).map (·.push '\r') :=
    Text.decodeUtf8?_push (c := '\r') (by decide) line
  unfold readLine
  rw [hdecode]
  cases Text.decodeUtf8? line with
  | none => rfl
  | some s =>
    show Except.ok (Text.trim (s.push '\r').toList) = _
    rw [String.toList_push, Text.trim_append_singleton rfl]

/-- A carriage return at the end makes no difference. -/
theorem readLines_push_return (a : ByteArray) :
    readLines (a.push carriageReturn) = readLines a := by
  have hne : carriageReturn ≠ lineFeed := by decide
  obtain ⟨lines, line, ha, hpush⟩ := exists_byteLines_push hne a
  unfold readLines
  rw [ha, hpush, List.mapM_append, List.mapM_append, List.mapM_cons, List.mapM_cons,
    readLine_push_return]

/-- A carriage return before the end of a line makes no difference. -/
theorem readLines_push_return_append (a b : ByteArray) :
    readLines ((a.push carriageReturn).push lineFeed ++ b) = readLines (a.push lineFeed ++ b) := by
  rw [readLines_push_append, readLines_push_append, readLines_push_return]

/-- A byte, after a carriage return if it ends a line. -/
def closedByReturn (x : UInt8) : List UInt8 :=
  if x = lineFeed then [carriageReturn, lineFeed] else [x]

/-- The bytes with a carriage return before every line feed. -/
def withReturns (bytes : ByteArray) : ByteArray :=
  (bytes.data.toList.flatMap closedByReturn).toByteArray

/-- To append bytes is to append the first one and then the rest. -/
theorem append_toByteArray_cons (a : ByteArray) (x : UInt8) (rest : List UInt8) :
    a ++ (x :: rest).toByteArray = a.push x ++ rest.toByteArray := by
  apply ByteArray.ext
  simp [ByteArray.data_append, ByteArray.data_push]

/-- One carriage return after the other makes no difference, whatever precedes them. -/
theorem readLines_append_flatMap (a : ByteArray) (rest : List UInt8) :
    readLines (a ++ (rest.flatMap closedByReturn).toByteArray) =
      readLines (a ++ rest.toByteArray) := by
  induction rest generalizing a with
  | nil => rfl
  | cons x rest ih =>
    rw [List.flatMap_cons, append_toByteArray_cons, closedByReturn]
    by_cases hx : x = lineFeed
    · subst hx
      rw [if_pos rfl, List.cons_append, List.singleton_append, append_toByteArray_cons,
        append_toByteArray_cons, ih, readLines_push_return_append]
    · rw [if_neg hx, List.singleton_append, append_toByteArray_cons, ih]

/-- Carriage returns before the line ends make no difference. -/
theorem readLines_withReturns (bytes : ByteArray) :
    readLines (withReturns bytes) = readLines bytes := by
  have hall := readLines_append_flatMap ByteArray.empty bytes.data.toList
  have hbytes : bytes.data.toList.toByteArray = bytes := by
    apply ByteArray.ext
    simp
  rwa [ByteArray.empty_append, ByteArray.empty_append, hbytes] at hall

/-! ### All bytes -/

/-- A line is an entry if it is not empty and begins with another character than a number sign. -/
theorem isEntryLine_iff : isEntryLine line = true ↔ line ≠ [] ∧ line.head? ≠ some '#' := by
  cases line with
  | nil => simp [isEntryLine]
  | cons c rest => simp [isEntryLine]

/-- The lines of a text, trimmed, without those that are blank or begin with a number sign. -/
theorem readLines_text (s : String) :
    readLines (Text.encodeUtf8 s) =
      .ok ((((s.toList.splitOn '\n').map Text.trim).filter
        fun line => line ≠ [] ∧ line.head? ≠ some '#').map String.ofList) := by
  rw [readLines_encodeUtf8]
  congr 2
  apply List.filter_congr
  intro line _
  rw [Bool.eq_iff_iff, isEntryLine_iff, decide_eq_true_iff]

/-- **Reading line by line.** Bytes are refused if they are no text as a whole. Of a text, the lines
that are neither blank nor begin with a number sign are read, each without the blanks around it. So
what a line feed parts is read one after the other, if both parts can be read. It makes no
difference whether the last line has an end, or whether there are carriage returns before the line
feeds, all of them or some. -/
theorem readLines_line_by_line :
    (∀ bytes : ByteArray,
      readLines bytes = .error ⟨[.readInput], .notUtf8⟩ ↔ ¬ bytes.IsValidUTF8) ∧
    (∀ bytes : ByteArray, bytes.IsValidUTF8 ↔
      ∃ s : String, bytes = Text.encodeUtf8 s ∧
        readLines bytes = .ok ((((s.toList.splitOn '\n').map Text.trim).filter
          fun line => line ≠ [] ∧ line.head? ≠ some '#').map String.ofList)) ∧
    (∀ a b : ByteArray,
      readLines (a.push lineFeed ++ b) = (do return (← readLines a) ++ (← readLines b))) ∧
    (∀ a : ByteArray, readLines (a.push lineFeed) = readLines a) ∧
    (∀ a b : ByteArray,
      readLines ((a.push carriageReturn).push lineFeed ++ b) = readLines (a.push lineFeed ++ b)) ∧
    ∀ bytes : ByteArray, readLines (withReturns bytes) = readLines bytes := by
  refine ⟨fun _ => readLines_eq_error_iff, fun bytes => ⟨?_, ?_⟩, readLines_push_append,
    readLines_push_lineFeed, readLines_push_return_append, readLines_withReturns⟩
  · intro hvalid
    cases hbytes : Text.decodeUtf8? bytes with
    | none => exact absurd hvalid (Text.decodeUtf8?_eq_none_iff.mp hbytes)
    | some s =>
      obtain rfl := Text.decodeUtf8?_eq_some_iff.mp hbytes
      exact ⟨s, rfl, readLines_text s⟩
  · rintro ⟨s, rfl, -⟩
    exact s.isValidUTF8

end CidrCover.Entry
