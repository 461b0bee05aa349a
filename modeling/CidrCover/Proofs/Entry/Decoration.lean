import CidrCover.Proofs.Entry.Lines

/-!
# Decorated lists

A list of entries may be laid out in many ways: the lines may be indented and padded, and there may
be blank lines and comments between them (`Decorated`). None of this makes a difference to what is
read (`Decorated.readLines_eq`), and neither do carriage returns at the ends of the lines, which are
padding themselves (`Decorated.readLines_eq_of_return`).
-/

namespace CidrCover.Entry

open Text (isBlank trim)

variable {line stop : List Char} {lines decorated : List (List Char)}

/-! ### Decorations -/

/-- Blanks within a line. -/
def Padding (cs : List Char) : Prop :=
  '\n' ∉ cs ∧ ∀ c ∈ cs, isBlank c = true

/-- A line without an entry: it is blank, or it is a comment, perhaps an indented one. -/
inductive Idle : List Char → Prop
  | blank {cs : List Char} (h : Padding cs) : Idle cs
  | comment {before text : List Char} (hbefore : Padding before) (htext : '\n' ∉ text) :
    Idle (before ++ '#' :: text)

/-- The lines with padding around them, and with idle lines before, between and after them. -/
inductive Decorated : List (List Char) → List (List Char) → Prop
  | nil : Decorated [] []
  | pad {before line after : List Char} {lines decorated : List (List Char)}
    (hbefore : Padding before) (hafter : Padding after) (h : Decorated lines decorated) :
    Decorated (line :: lines) ((before ++ line ++ after) :: decorated)
  | insert {line : List Char} {lines decorated : List (List Char)} (hidle : Idle line)
    (h : Decorated lines decorated) : Decorated lines (line :: decorated)

/-- The text of some lines, each with the given end. -/
def closeWith (stop : List Char) (lines : List (List Char)) : String :=
  String.ofList (lines.flatMap (· ++ stop))

/-- Nothing is a padding. -/
theorem padding_nil : Padding [] :=
  ⟨List.not_mem_nil, List.forall_mem_nil _⟩

/-- A blank that ends no line is a padding. -/
theorem padding_singleton {c : Char} (hne : '\n' ≠ c) (hblank : isBlank c = true) : Padding [c] :=
  ⟨List.mem_singleton.not.mpr hne, List.forall_mem_singleton.mpr hblank⟩

/-- Two paddings are one. -/
theorem Padding.append {cs : List Char} (h : Padding cs) (hstop : Padding stop) :
    Padding (cs ++ stop) :=
  ⟨by simp [h.1, hstop.1], List.forall_mem_append.mpr ⟨h.2, hstop.2⟩⟩

/-- Padding after an idle line leaves it idle. -/
theorem Idle.append (h : Idle line) (hstop : Padding stop) : Idle (line ++ stop) := by
  cases h with
  | blank h => exact .blank (h.append hstop)
  | comment hbefore htext =>
    rw [List.append_assoc, List.cons_append]
    exact .comment hbefore (by simp [htext, hstop.1])

/-- Lines without any decoration. -/
theorem Decorated.refl (lines : List (List Char)) : Decorated lines lines := by
  induction lines with
  | nil => exact .nil
  | cons line lines ih =>
    have hline : Decorated (line :: lines) (([] ++ line ++ []) :: lines) :=
      .pad padding_nil padding_nil ih
    rwa [List.nil_append, List.append_nil] at hline

/-! ### Idle lines hold no entry -/

/-- An idle line is a single line. -/
theorem Idle.lineFeed_notMem (h : Idle line) : '\n' ∉ line := by
  cases h with
  | blank h => exact h.1
  | comment hbefore htext => simp [hbefore.1, htext]

/-- An idle line is passed over. -/
theorem Idle.isEntryLine_trim (h : Idle line) : isEntryLine (trim line) = false := by
  cases h with
  | blank h =>
    rw [Text.trim_of_blank h.2]
    rfl
  | comment hbefore htext =>
    rw [Text.trim_append_cons hbefore.2 rfl]
    rfl

/-! ### Reading decorated lines -/

/-- Lines are read as what is left of them, if they hold entries. -/
theorem readLines_closeWith (h : ∀ line ∈ lines, '\n' ∉ line) :
    readLines (Text.encodeUtf8 (closeWith ['\n'] lines)) =
      .ok (((lines.map trim).filter isEntryLine).map String.ofList) := by
  have hnothing : isEntryLine (trim []) = false := rfl
  rw [readLines_encodeUtf8, closeWith, String.toList_ofList, Text.splitOn_flatMap_append h]
  simp [hnothing]

namespace Decorated

/-- Decorations bring no line feeds with them. -/
theorem lineFeed_notMem (h : Decorated lines decorated) (hlines : ∀ line ∈ lines, '\n' ∉ line) :
    ∀ line ∈ decorated, '\n' ∉ line := by
  induction h with
  | nil => exact hlines
  | pad hbefore hafter _ ih =>
    obtain ⟨hline, hlines⟩ := List.forall_mem_cons.mp hlines
    exact List.forall_mem_cons.mpr ⟨by simp [hbefore.1, hline, hafter.1], ih hlines⟩
  | insert hidle _ ih => exact List.forall_mem_cons.mpr ⟨hidle.lineFeed_notMem, ih hlines⟩

/-- What is left of decorated lines is what is left of the lines. -/
theorem filter_map_trim (h : Decorated lines decorated) :
    (decorated.map trim).filter isEntryLine = (lines.map trim).filter isEntryLine := by
  induction h with
  | nil => rfl
  | pad hbefore hafter _ ih =>
    rw [List.map_cons, List.map_cons, List.filter_cons, List.filter_cons,
      Text.trim_append_append hbefore.2 hafter.2, ih]
  | insert hidle _ ih =>
    rw [List.map_cons, List.filter_cons, hidle.isEntryLine_trim, ih]
    rfl

/-- **Decorations make no difference** to what is read. -/
theorem readLines_eq (h : Decorated lines decorated) (hlines : ∀ line ∈ lines, '\n' ∉ line) :
    readLines (Text.encodeUtf8 (closeWith ['\n'] decorated)) =
      readLines (Text.encodeUtf8 (closeWith ['\n'] lines)) := by
  rw [readLines_closeWith hlines, readLines_closeWith (h.lineFeed_notMem hlines),
    h.filter_map_trim]

/-- Padding that is added to the end of each line is one more decoration. -/
theorem append (h : Decorated lines decorated) (hstop : Padding stop) :
    Decorated lines (decorated.map (· ++ stop)) := by
  induction h with
  | nil => exact .nil
  | pad hbefore hafter _ ih =>
    rw [List.map_cons, List.append_assoc]
    exact .pad hbefore (hafter.append hstop) ih
  | insert hidle _ ih => exact .insert (hidle.append hstop) ih

/-- Lines that end with a carriage return and a line feed are read like those that end with a line
feed. -/
theorem readLines_eq_of_return (h : Decorated lines decorated)
    (hlines : ∀ line ∈ lines, '\n' ∉ line) :
    readLines (Text.encodeUtf8 (closeWith ['\r', '\n'] decorated)) =
      readLines (Text.encodeUtf8 (closeWith ['\n'] lines)) := by
  have hreturn : Padding ['\r'] := padding_singleton (by decide) rfl
  have hclose : closeWith ['\r', '\n'] decorated =
      closeWith ['\n'] (decorated.map (· ++ ['\r'])) := by
    simp [closeWith, List.flatMap_map]
  rw [hclose, (h.append hreturn).readLines_eq hlines]

end Decorated

end CidrCover.Entry
