import CidrCover.Aggregation.Listing
import CidrCover.Proofs.Entry.Decoration
import CidrCover.Proofs.Json.Reading
import CidrCover.Proofs.Prefix.Printed

/-!
# What is put out can be put in again

A list of blocks is put out in lines, which the reader of entries takes apart again, or as a JSON
array, whose strings are entries. Either way the entries are the printed blocks, in their order
(`readLines_write_text`, `readStrings?_write_json`), so nothing is lost (`write_injective`).

* **Output as input** (`write_roundtrip`): the blocks come back, also from lines that have been
  decorated on the way.
-/

namespace CidrCover.OutputFormat

open Entry (Decorated closeWith readLines parseAll)

variable {blocks : List Prefix} {lines : List (List Char)} {stop : List Char}

/-! ### Lines -/

/-- One block a line. -/
theorem write_text (blocks : List Prefix) :
    text.write blocks = closeWith ['\n'] (blocks.map Prefix.chars) := by
  rw [write, chars, closeWith, List.flatMap_map]

/-- No printed block has a line feed in it. -/
theorem lineFeed_notMem_of_mem_map_chars : ∀ line ∈ blocks.map Prefix.chars, '\n' ∉ line := by
  intro line hline hmem
  obtain ⟨p, -, rfl⟩ := List.mem_map.mp hline
  exact absurd (Prefix.isBlank_of_mem_chars hmem) (by decide)

/-- The line of a printed block is one that holds an entry. -/
theorem isEntryLine_chars (p : Prefix) : Entry.isEntryLine p.chars = true := by
  rw [Entry.isEntryLine_iff]
  refine ⟨p.chars_ne_nil, fun hhead => ?_⟩
  rcases Prefix.digit_or_mark_of_mem_chars (List.mem_of_head? hhead) with h | h | h
  · exact absurd h (by decide)
  · exact absurd h (by decide)
  · exact absurd h (by decide)

/-- Every line is an entry. -/
theorem readLines_write_text (blocks : List Prefix) :
    readLines (Text.encodeUtf8 (text.write blocks)) = .ok (blocks.map Prefix.text) := by
  have htrim : (blocks.map Prefix.chars).map Text.trim = blocks.map Prefix.chars := by
    rw [List.map_map]
    apply List.map_congr_left
    intro p _
    exact Text.trim_eq_self fun _ => Prefix.isBlank_of_mem_chars
  have hentries : ∀ line ∈ blocks.map Prefix.chars, Entry.isEntryLine line = true := by
    intro line hline
    obtain ⟨p, -, rfl⟩ := List.mem_map.mp hline
    exact isEntryLine_chars p
  rw [write_text, Entry.readLines_closeWith lineFeed_notMem_of_mem_map_chars, htrim,
    List.filter_eq_self.mpr hentries, List.map_map]
  rfl

/-- So it is if the lines are decorated, and end in either way. -/
theorem readLines_decorated (h : Decorated (blocks.map Prefix.chars) lines)
    (hstop : stop ∈ [['\n'], ['\r', '\n']]) :
    readLines (Text.encodeUtf8 (closeWith stop lines)) = .ok (blocks.map Prefix.text) := by
  rw [← readLines_write_text, write_text]
  rw [List.mem_pair] at hstop
  rcases hstop with rfl | rfl
  · exact h.readLines_eq lineFeed_notMem_of_mem_map_chars
  · exact h.readLines_eq_of_return lineFeed_notMem_of_mem_map_chars

/-! ### JSON -/

/-- Every string is an entry. -/
theorem readStrings?_write_json (blocks : List Prefix) :
    Json.readStrings? (json.write blocks).toList = some (blocks.map Prefix.text) := by
  rw [write, chars, String.toList_ofList]
  exact Json.readStrings?_writeLines (List.forall_mem_singleton.mpr rfl) _

/-! ### Both formats -/

/-- Nothing is lost. -/
theorem write_injective (format : OutputFormat) : Function.Injective format.write := by
  intro blocks blocks' h
  apply Prefix.text_injective.list_map
  cases format with
  | text =>
    have hread := readLines_write_text blocks
    rw [h, readLines_write_text] at hread
    exact (Except.ok.inj hread).symm
  | json =>
    have hread := readStrings?_write_json blocks
    rw [h, readStrings?_write_json] at hread
    exact (Option.some.inj hread).symm

/-- **Output as input.** Lines of blocks are read as entries that denote the blocks, in their order.
They still are with blanks around them, with blank lines and comments anywhere, and with carriage
returns before all line feeds. A JSON array of blocks has strings that denote the blocks. In both
formats, no two lists are put out alike. -/
theorem write_roundtrip :
    (∀ blocks : List Prefix, ∃ entries,
      readLines (Text.encodeUtf8 (text.write blocks)) = .ok entries ∧
        parseAll entries = .ok blocks) ∧
    (∀ blocks : List Prefix, text.write blocks = closeWith ['\n'] (blocks.map Prefix.chars)) ∧
    (∀ (blocks : List Prefix) (lines : List (List Char)) (stop : List Char),
      Decorated (blocks.map Prefix.chars) lines → stop ∈ [['\n'], ['\r', '\n']] →
        ∃ entries, readLines (Text.encodeUtf8 (closeWith stop lines)) = .ok entries ∧
          parseAll entries = .ok blocks) ∧
    (∀ blocks : List Prefix, ∃ entries,
      Json.readStrings? (json.write blocks).toList = some entries ∧
        parseAll entries = .ok blocks) ∧
    ∀ format : OutputFormat, Function.Injective format.write := by
  refine ⟨?_, write_text, ?_, ?_, write_injective⟩
  · intro blocks
    exact ⟨_, readLines_write_text blocks, Prefix.parseAll_text blocks⟩
  · intro blocks lines stop h hstop
    exact ⟨_, readLines_decorated h hstop, Prefix.parseAll_text blocks⟩
  · intro blocks
    exact ⟨_, readStrings?_write_json blocks, Prefix.parseAll_text blocks⟩

/-- An indented comment, a block between a no-break space and a tabulator, a blank line and another
block, on lines that end with carriage returns and line feeds. -/
theorem write_roundtrip_of_decorated_lines :
    Decorated ([.host 0x0A000001, .root].map Prefix.chars)
        [" # two".toList, "\u00a010.0.0.1/32\t".toList, "\u2003".toList, "0.0.0.0/0".toList] ∧
      ['\r', '\n'] ∈ [['\n'], ['\r', '\n']] ∧
      ∃ entries, readLines (Text.encodeUtf8 (closeWith ['\r', '\n']
        [" # two".toList, "\u00a010.0.0.1/32\t".toList, "\u2003".toList, "0.0.0.0/0".toList])) =
          .ok entries ∧ parseAll entries = .ok [.host 0x0A000001, .root] := by
  have hcomment : Entry.Idle ([' '] ++ '#' :: " two".toList) :=
    .comment (Entry.padding_singleton (by decide) rfl) (by decide)
  have hblank : Entry.Idle "\u2003".toList := .blank (Entry.padding_singleton (by decide) rfl)
  have hbefore : Entry.Padding ['\u00a0'] := Entry.padding_singleton (by decide) rfl
  have hafter : Entry.Padding ['\t'] := Entry.padding_singleton (by decide) rfl
  have hdecorated : Decorated ([.host 0x0A000001, .root].map Prefix.chars)
      [" # two".toList, "\u00a010.0.0.1/32\t".toList, "\u2003".toList, "0.0.0.0/0".toList] :=
    .insert hcomment (.pad hbefore hafter (.insert hblank (.refl _)))
  have hstop : ['\r', '\n'] ∈ [['\n'], ['\r', '\n']] := by decide
  exact ⟨hdecorated, hstop, write_roundtrip.2.2.1 _ _ _ hdecorated hstop⟩

end CidrCover.OutputFormat
