import CidrCover.Yaml.Token
import CidrCover.Yaml.Written
import Mathlib.Algebra.GroupWithZero.Nat

/-!
# Glyphs of printable texts

A text of characters that print is laid out character by character: no character is joined with
the next one and none becomes another one (`glyphs_cons`). So readers of glyphs can be followed
along the characters, from the place of the first one (`Position`) to that after the last one
(`Position.pass`).
-/

namespace CidrCover.Yaml

variable {c d : Char} {cs ds : List Char}

/-! ### Printable characters -/

/-- A printable character is none of those that are not. -/
theorem ne_of_isPrintable (hc : isPrintable c = true) (hd : isPrintable d = false) : c ≠ d := by
  rintro rfl
  exact absurd (hc.symm.trans hd) nofun

/-- The mark of the end is not printable. -/
theorem isEnd_of_isPrintable (h : isPrintable c = true) : isEnd c = false := by
  simpa [isEnd] using ne_of_isPrintable h (by decide : isPrintable '\x00' = false)

/-- Of the blanks only the space is printable. -/
theorem isBlank_of_isPrintable (h : isPrintable c = true) : isBlank c = (c == ' ') := by
  have htab : (c == '\t') = false := by
    simpa using ne_of_isPrintable h (by decide : isPrintable '\t' = false)
  rw [isBlank, htab, Bool.or_false]

/-- Of a printable character it makes no difference whether line ends have been laid out. -/
theorem isRawBreak_of_isPrintable (h : isPrintable c = true) : isRawBreak c = isBreak c := by
  have hreturn : (c == '\r') = false := by
    simpa using ne_of_isPrintable h (by decide : isPrintable '\r' = false)
  have hnext : (c == '\u0085') = false := by
    simpa using ne_of_isPrintable h (by decide : isPrintable '\u0085' = false)
  rw [isRawBreak, hreturn, hnext, Bool.false_or, Bool.false_or]

/-- A printable character may stand in a document. -/
theorem isAllowed_of_isPrintable (h : isPrintable c = true) : isAllowed c = true := by
  simp only [isPrintable, isAllowed, Bool.or_eq_true, Bool.and_eq_true, beq_iff_eq, bne_iff_ne,
    decide_eq_true_eq] at h ⊢
  omega

/-- A gap among glyphs is a gap in the text that they come from. -/
theorem isRawGap_of_isGap (h : isGap c = true) : isRawGap c = true := by
  simp only [isGap, isBreakOrEnd, isRawGap, isRawBreak, Bool.or_eq_true] at h ⊢
  rcases h with h | h | h <;> simp [h]

/-- All characters of the text print. -/
def Printable (cs : List Char) : Prop :=
  ∀ c ∈ cs, isPrintable c = true

instance : Decidable (Printable cs) :=
  decidable_of_iff (cs.all isPrintable = true) List.all_eq_true

/-- The empty text is printable. -/
@[simp] theorem printable_nil : Printable [] :=
  List.forall_mem_nil _

/-- A text is printable if its first character and the rest are. -/
@[simp] theorem printable_cons : Printable (c :: cs) ↔ isPrintable c = true ∧ Printable cs :=
  List.forall_mem_cons

/-- Two texts together are printable if each of them is. -/
@[simp] theorem printable_append : Printable (cs ++ ds) ↔ Printable cs ∧ Printable ds :=
  List.forall_mem_append

/-! ### Places -/

/-- A place in a text. -/
structure Position where
  line : Nat
  column : Nat
  index : Nat

namespace Position

variable {p : Position} {n : Nat}

/-- The place after a character. -/
def after (p : Position) (c : Char) : Position :=
  if isBreak c then ⟨p.line + 1, 0, p.index + c.utf8Size⟩
  else ⟨p.line, p.column + 1, p.index + c.utf8Size⟩

/-- The place after a text. -/
def pass (p : Position) (cs : List Char) : Position :=
  cs.foldl after p

/-- A character at a place. -/
def glyph (p : Position) (c : Char) : Glyph :=
  ⟨c, p.line, p.column, p.index⟩

/-- A glyph holds the character that was placed. -/
@[simp] theorem char_glyph : (p.glyph c).char = c := rfl

/-- A glyph has the line of its place. -/
@[simp] theorem line_glyph : (p.glyph c).line = p.line := rfl

/-- A glyph has the column of its place. -/
@[simp] theorem column_glyph : (p.glyph c).column = p.column := rfl

/-- A glyph has the bytes of its place before it. -/
@[simp] theorem index_glyph : (p.glyph c).index = p.index := rfl

/-- To pass nothing is to stay. -/
@[simp] theorem pass_nil : p.pass [] = p := rfl

/-- To pass a text is to pass its first character and then the rest. -/
@[simp] theorem pass_cons : p.pass (c :: cs) = (p.after c).pass cs := rfl

/-- After a line break comes the beginning of the next line. -/
theorem after_of_isBreak (h : isBreak c = true) :
    p.after c = ⟨p.line + 1, 0, p.index + c.utf8Size⟩ := by
  rw [after, if_pos h]

/-- After any other character comes the next column. -/
theorem after_of_not_isBreak (h : isBreak c = false) :
    p.after c = ⟨p.line, p.column + 1, p.index + c.utf8Size⟩ := by
  simp [after, h]

/-- A character that breaks no line moves the column on by one. -/
theorem column_after (h : isBreak c = false) : (p.after c).column = p.column + 1 := by
  rw [after_of_not_isBreak h]

/-- No character goes back to an earlier line. -/
theorem line_le_after : p.line ≤ (p.after c).line := by
  unfold after
  split <;> simp

/-- No text goes back to an earlier line. -/
theorem line_le_pass : p.line ≤ (p.pass cs).line := by
  induction cs generalizing p with
  | nil => exact Nat.le_refl _
  | cons c cs ih => exact Nat.le_trans line_le_after ih

/-- Within a line the column counts the characters, and the line stays the same. -/
theorem pass_of_unbroken (h : ∀ c ∈ cs, isBreak c = false) :
    (p.pass cs).line = p.line ∧ (p.pass cs).column = p.column + cs.length ∧
      (p.pass cs).index = p.index + (cs.map Char.utf8Size).sum := by
  induction cs generalizing p with
  | nil => exact ⟨rfl, rfl, rfl⟩
  | cons c cs ih =>
    obtain ⟨hc, hcs⟩ := List.forall_mem_cons.mp h
    obtain ⟨hline, hcolumn, hindex⟩ := ih hcs (p := p.after c)
    rw [after_of_not_isBreak hc] at hline hcolumn hindex
    rw [pass_cons, after_of_not_isBreak hc, hline, hcolumn, hindex]
    simp [Nat.add_assoc, Nat.add_comm 1]

/-- There is no line break among spaces. -/
theorem unbroken_spaces : ∀ c ∈ spaces n, isBreak c = false := by
  intro c hc
  rw [List.eq_of_mem_replicate hc]
  rfl

/-- Spaces stay in their line. -/
@[simp] theorem line_pass_spaces : (p.pass (spaces n)).line = p.line :=
  (pass_of_unbroken unbroken_spaces).1

/-- Every space is one column. -/
@[simp] theorem column_pass_spaces : (p.pass (spaces n)).column = p.column + n := by
  rw [(pass_of_unbroken unbroken_spaces).2.1, spaces, List.length_replicate]

end Position

/-! ### Glyphs -/

variable {p : Position}

/-- The glyphs of a text from a place on. -/
def glyphs (p : Position) (cs : List Char) : List Glyph :=
  place p.line p.column p.index cs

/-- The empty text has one glyph, the mark of its end. -/
@[simp] theorem glyphs_nil : glyphs p [] = [p.glyph '\x00'] := by
  rw [glyphs, place]
  rfl

/-- The first glyph is that of the first character, and the others start at the next place. -/
@[simp] theorem glyphs_cons (h : isPrintable c = true) :
    glyphs p (c :: cs) = p.glyph c :: glyphs (p.after c) cs := by
  have hreturn : c ≠ '\r' := ne_of_isPrintable h (by decide)
  have hnext : c ≠ '\u0085' := ne_of_isPrintable h (by decide)
  unfold glyphs
  rw [place]
  · cases hbreak : isBreak c with
    | true => simp [hreturn, hnext, Position.after_of_isBreak hbreak, Position.glyph]
    | false => simp [hreturn, hnext, Position.after_of_not_isBreak hbreak, Position.glyph]
  · intro rest hc
    exact absurd hc hreturn

/-- There is one glyph for each character and one for the end. -/
theorem length_glyphs (h : Printable cs) : (glyphs p cs).length = cs.length + 1 := by
  induction cs generalizing p with
  | nil => rw [glyphs_nil]; rfl
  | cons c cs ih =>
    rw [printable_cons] at h
    rw [glyphs_cons h.1, List.length_cons, ih h.2, List.length_cons]

/-- The first glyph holds the first character. -/
@[simp] theorem peek_glyphs_cons (h : isPrintable c = true) : peek (glyphs p (c :: cs)) = c := by
  rw [glyphs_cons h]
  rfl

/-- A printable text is laid out from the first line and column on. -/
theorem layout_of_printable (h : Printable cs) : layout cs = some (glyphs ⟨0, 0, 0⟩ cs) := by
  have hallowed : cs.all isAllowed = true :=
    List.all_eq_true.mpr fun c hc => isAllowed_of_isPrintable (h c hc)
  rw [layout, if_pos hallowed]
  rfl

end CidrCover.Yaml
