import CidrCover.Proofs.Yaml.Glyph
import CidrCover.Yaml.Token.Quoted

/-!
# Reading texts without quotes

A text that needs no quotes (`PlainText`) is read back as it is: within a line by
`scanPlain_pass`, up to the colon after a key by `scanPlain_colon`, and up to the next line that is
not indented as far by `scanPlain_lineEnd`.
-/

namespace CidrCover.Yaml

variable {c before : Char} {cs rest taken blanks tail : List Char} {p : Position} {margin k : Nat}

/-! ### Plain texts -/

/-- A text that stands for itself without quotes. -/
structure PlainText (cs : List Char) : Prop where
  ne_nil : cs ≠ []
  printable : Printable cs
  unbroken : ∀ c ∈ cs, isBreak c = false
  indicator : hasIndicator cs = false
  head : cs.head? ≠ some ' '
  last : cs.getLast? ≠ some ' '

/-- A text has no indicator in it if its first character is none where it stands and the rest has
none. -/
theorem hasInnerIndicator_cons :
    hasInnerIndicator before (c :: rest) = false ↔
      ¬ (c = ':' ∧ rest.head?.all isRawGap = true) ∧ ¬ (c = '#' ∧ isRawGap before = true) ∧
        hasInnerIndicator c rest = false := by
  simp [hasInnerIndicator, and_assoc]

/-- A plain text has no inner indicator, from its first character on. -/
theorem PlainText.hasInnerIndicator_eq (h : PlainText cs) : hasInnerIndicator 'a' cs = false := by
  have hindicator := h.indicator
  cases cs with
  | nil => rfl
  | cons c rest =>
    simp only [hasIndicator, Bool.or_eq_false_iff, Bool.and_eq_false_iff, beq_eq_false_iff_ne]
      at hindicator
    obtain ⟨⟨-, hgap⟩, hinner⟩ := hindicator
    refine hasInnerIndicator_cons.mpr ⟨?_, ?_, hinner⟩
    · rintro ⟨rfl, hrest⟩
      simp [hrest] at hgap
    · rintro ⟨rfl, hmark⟩
      exact absurd hmark (by decide)

/-- A character that may begin a token: it is no gap and begins no comment. -/
structure Starts (c : Char) : Prop where
  printable : isPrintable c = true
  unbroken : isBreak c = false
  space : c ≠ ' '
  sign : c ≠ '#'

instance : Decidable (Starts c) :=
  decidable_of_iff (isPrintable c = true ∧ isBreak c = false ∧ c ≠ ' ' ∧ c ≠ '#')
    ⟨fun ⟨hc, hbreak, hspace, hsign⟩ => ⟨hc, hbreak, hspace, hsign⟩,
      fun ⟨hc, hbreak, hspace, hsign⟩ => ⟨hc, hbreak, hspace, hsign⟩⟩

/-- What may stand at the beginning of a line after its indentation: nothing, or a token. -/
def Opening (rest : List Char) : Prop :=
  ∀ c ∈ rest.head?, Starts c

/-- A colon in a text without inner indicators does not end it. -/
theorem endsPlain_of_hasInnerIndicator (hc : isPrintable c = true) (hrest : Printable rest)
    (h : hasInnerIndicator before (c :: rest) = false) :
    endsPlain false (glyphs p (c :: (rest ++ tail))) = false := by
  have hcolon := (hasInnerIndicator_cons.mp h).1
  rw [glyphs_cons hc]
  cases rest with
  | nil => simp_all [endsPlain, peek]
  | cons d rest =>
    rw [List.cons_append, glyphs_cons (printable_cons.mp hrest).1]
    simp only [List.head?_cons, Option.all_some, not_and] at hcolon
    simp only [endsPlain, peek, Position.char_glyph, List.tail_cons, Bool.false_and, Bool.or_false,
      Bool.and_eq_false_iff, beq_eq_false_iff_ne]
    by_cases hc : c = ':'
    · exact Or.inr (Bool.eq_false_iff.mpr fun hgap => hcolon hc (isRawGap_of_isGap hgap))
    · exact Or.inl hc

/-- Glyphs that begin in another column or with another character are no mark of a document. -/
theorem isDocumentMark_cons {g : Glyph} {gs : List Glyph} (h : g.column ≠ 0 ∨ g.char ≠ c) :
    isDocumentMark c (g :: gs) = false := by
  unfold isDocumentMark
  split
  · next heq =>
    cases heq
    rcases h with h | h <;> simp [h]
  · rfl

/-- In the middle of a line there is no mark of a document. -/
theorem atDocumentMark_of_column {g : Glyph} {gs : List Glyph} (h : g.column ≠ 0) :
    atDocumentMark (g :: gs) = false := by
  rw [atDocumentMark, isDocumentMark_cons (Or.inl h), isDocumentMark_cons (Or.inl h)]
  rfl

/-- The gap that consists of blanks. -/
def Gap.within (blanks : List Char) : Gap := ⟨blanks, false, .none, []⟩

/-- The content of a gap within a line is its blanks. -/
@[simp] theorem Gap.content_within : (within blanks).content = blanks := rfl

/-- A gap within a line is not broken. -/
@[simp] theorem Gap.broken_within : (within blanks).broken = false := rfl

/-- One more space in the gap. -/
theorem Gap.push_space : (within blanks).push ' ' = within (' ' :: blanks) := rfl

/-- A character of a word is taken, with the blanks before it. -/
theorem scanPlain_word (hc : isPrintable c = true) (hrest : Printable rest)
    (hbreak : isBreak c = false) (hspace : c ≠ ' ')
    (hinner : hasInnerIndicator before (c :: rest) = false) (hbefore : blanks ≠ [] → before = ' ')
    (hcolumn : blanks ≠ [] → margin ≤ p.column ∧ p.column ≠ 0) :
    scanPlain false margin (.within blanks) taken (glyphs p (c :: (rest ++ tail))) =
      scanPlain false margin .none (c :: (blanks ++ taken))
        (glyphs (p.after c) (rest ++ tail)) := by
  have hends : endsPlain false (glyphs p (c :: (rest ++ tail))) = false :=
    endsPlain_of_hasInnerIndicator hc hrest hinner
  have hgap : (isBlank c || isBreak c) = false := by
    simpa [isBlank_of_isPrintable hc, hbreak] using hspace
  have hstay : ((Gap.within blanks).isOpen && (decide (p.column < margin) ||
      atDocumentMark (p.glyph c :: glyphs (p.after c) (rest ++ tail)) || c == '#')) = false := by
    by_cases hblanks : blanks = []
    · subst hblanks
      rfl
    · have hmark : (c == '#') = false := by
        rw [beq_eq_false_iff_ne]
        intro hc
        exact (hasInnerIndicator_cons.mp hinner).2.1 ⟨hc, by rw [hbefore hblanks]; decide⟩
      obtain ⟨hmargin, hcolumn⟩ := hcolumn hblanks
      rw [atDocumentMark_of_column (by exact hcolumn), hmark,
        decide_eq_false (Nat.not_lt.mpr hmargin)]
      simp
  rw [glyphs_cons hc] at hends ⊢
  rw [scanPlain]
  simp only [Position.char_glyph, Position.column_glyph, hgap, isEnd_of_isPrintable hc, hends,
    Bool.not_false, Bool.true_and, Bool.false_or, Bool.false_and, Bool.false_eq_true, if_false,
    Gap.content_within]
  rw [if_neg (by rw [Bool.not_eq_true]; exact hstay)]

/-- **Within a line a plain text is taken as it is.** -/
theorem scanPlain_pass (hprintable : Printable cs) (hunbroken : ∀ c ∈ cs, isBreak c = false)
    (hinner : hasInnerIndicator before cs = false) (hbefore : blanks ≠ [] → before = ' ')
    (hlast : cs.getLast? ≠ some ' ') (hne : blanks ≠ [] → cs ≠ [])
    (hmargin : margin ≤ p.column + 1)
    (hcolumn : blanks ≠ [] → margin ≤ p.column ∧ p.column ≠ 0) :
    scanPlain false margin (.within blanks) taken (glyphs p (cs ++ tail)) =
      scanPlain false margin .none (cs.reverse ++ (blanks ++ taken)) (glyphs (p.pass cs) tail) := by
  induction cs generalizing before blanks taken p with
  | nil =>
    have hblanks : blanks = [] := Decidable.not_not.mp fun h => hne h rfl
    subst hblanks
    rfl
  | cons c rest ih =>
    obtain ⟨hc, hrest⟩ := printable_cons.mp hprintable
    obtain ⟨hbreak, hrest'⟩ := List.forall_mem_cons.mp hunbroken
    have hafter : (p.after c).column = p.column + 1 := by
      rw [Position.after_of_not_isBreak hbreak]
    have hlast' : rest.getLast? ≠ some ' ' := by
      intro h
      rw [List.getLast?_cons, h] at hlast
      exact hlast rfl
    by_cases hspace : c = ' '
    · subst hspace
      have hmore : rest ≠ [] := by
        rintro rfl
        exact hlast rfl
      have hstep : scanPlain false margin (.within blanks) taken
          (glyphs p (' ' :: (rest ++ tail))) =
          scanPlain false margin (.within (' ' :: blanks)) taken
            (glyphs (p.after ' ') (rest ++ tail)) := by
        rw [glyphs_cons hc, scanPlain]
        rfl
      rw [List.cons_append, hstep, ih hrest hrest' (hasInnerIndicator_cons.mp hinner).2.2
        (fun _ => rfl) hlast' (fun _ => hmore) (by omega) (fun _ => by omega)]
      simp
    · rw [List.cons_append, scanPlain_word hc hrest hbreak hspace hinner hbefore hcolumn]
      have hword : scanPlain false margin .none (c :: (blanks ++ taken))
          (glyphs (p.after c) (rest ++ tail)) = _ :=
        ih hrest hrest' (hasInnerIndicator_cons.mp hinner).2.2 (fun h => absurd rfl h) hlast'
          (fun h => absurd rfl h) (by omega) (fun h => absurd rfl h)
      rw [hword]
      simp

/-- The colon after a key ends it. -/
theorem scanPlain_colon (hc : isPrintable c = true) (hgap : isGap c = true) :
    scanPlain false margin .none taken (glyphs p (':' :: c :: rest)) =
      .ok (taken.reverse, false, glyphs p (':' :: c :: rest)) := by
  have hcolon : isPrintable ':' = true := by decide
  rw [glyphs_cons hcolon, glyphs_cons hc, scanPlain]
  have hends : endsPlain false (p.glyph ':' :: (p.after ':').glyph c ::
      glyphs ((p.after ':').after c) rest) = true := by
    simp [endsPlain, peek, hgap]
  simp [hends, isBlank, isBreak, isEnd, Gap.isOpen, Gap.none]

/-- Spaces after a line end are passed. -/
theorem scanPlain_spaces {gap : Gap} (hgap : gap.broken = true) :
    scanPlain false margin gap taken (glyphs p (spaces k ++ rest)) =
      scanPlain false margin gap taken (glyphs (p.pass (spaces k)) rest) := by
  induction k generalizing p with
  | zero => rfl
  | succ k ih =>
    have hstep : scanPlain false margin gap taken (glyphs p (' ' :: (spaces k ++ rest))) =
        scanPlain false margin (gap.push ' ') taken (glyphs (p.after ' ') (spaces k ++ rest)) := by
      rw [glyphs_cons (by decide), scanPlain]
      rfl
    have hpush : gap.push ' ' = gap := by simp [Gap.push, hgap, isBreak]
    exact (hstep.trans (by rw [hpush])).trans ih

/-- A line that is not indented as far ends a plain text. -/
theorem scanPlain_lineEnd (hk : k < margin) (hrest : Opening rest) :
    scanPlain false margin .none taken (glyphs p ('\n' :: (spaces k ++ rest))) =
      .ok (taken.reverse, true, glyphs ((p.after '\n').pass (spaces k)) rest) := by
  have hbreak : scanPlain false margin .none taken (glyphs p ('\n' :: (spaces k ++ rest))) =
      scanPlain false margin (Gap.none.push '\n') taken
        (glyphs (p.after '\n') (spaces k ++ rest)) := by
    rw [glyphs_cons (by decide), scanPlain]
    rfl
  rw [hbreak, scanPlain_spaces rfl]
  cases rest with
  | nil =>
    rw [glyphs_nil, scanPlain]
    rfl
  | cons c rest =>
    obtain ⟨hc, hbreak, hspace, -⟩ := hrest c rfl
    have hcolumn : ((p.after '\n').pass (spaces k)).column = k := by
      rw [Position.column_pass_spaces, Position.after_of_isBreak rfl, Nat.zero_add]
    have hgap : (isBlank c || isBreak c) = false := by
      simpa [isBlank_of_isPrintable hc, hbreak] using hspace
    rw [glyphs_cons hc, scanPlain]
    simp only [Position.char_glyph, Position.column_glyph, hgap, hcolumn]
    simp [hk, Gap.push, Gap.isOpen, Gap.none, isBreak]

namespace PlainText

/-- A plain text is taken up to its end. -/
theorem scanPlain_eq (h : PlainText cs) (hmargin : margin ≤ p.column + 1) :
    scanPlain false margin .none [] (glyphs p (cs ++ tail)) =
      scanPlain false margin .none cs.reverse (glyphs (p.pass cs) tail) := by
  have hpass : scanPlain false margin (.within []) [] (glyphs p (cs ++ tail)) =
      scanPlain false margin .none (cs.reverse ++ ([] ++ [])) (glyphs (p.pass cs) tail) :=
    scanPlain_pass h.printable h.unbroken h.hasInnerIndicator_eq (fun hne => absurd rfl hne) h.last
      (fun hne => absurd rfl hne) hmargin (fun hne => absurd rfl hne)
  rwa [List.append_nil, List.append_nil] at hpass

end PlainText

end CidrCover.Yaml
