import CidrCover.Proofs.Yaml.Plain
import Mathlib.Tactic.Ring
import Mathlib.Tactic.SplitIfs

/-!
# Reading texts in quotes

A text in single quotes is read back as it is (`scanQuoted_singleBody`) if it has no line feed and
no spaces around its line ends, which are those that a reader keeps. A text in double quotes always
is (`scanQuoted_doubleChars`): a character that does not print stands there by a letter or by the
digits of its code.
-/

namespace CidrCover.Yaml

/-! ### Gaps in quoted texts -/

namespace Gap

/-- The gap that consists of line ends, the first of which is no line feed. -/
def breaks (first : Char) (others : List Char) : Gap := ⟨[], true, some first, others⟩

/-- A gap of line breaks, the first of which is no line feed, stands for all of them. -/
theorem content_breaks {first : Char} {others : List Char} (h : first ≠ '\n') :
    (breaks first others).content = others ++ [first] := by
  simp [content, breaks]

/-- The gap may stand before the text: there are no blanks before a line end and no space after
one. -/
inductive Before : Gap → List Char → Prop
  | within {blanks cs : List Char} (h : blanks ≠ [] → ∀ c ∈ cs.head?, isBreak c = false) :
    Before (.within blanks) cs
  | breaks {first : Char} {others cs : List Char} (hfirst : first ≠ '\n')
    (h : cs.head? ≠ some ' ') : Before (.breaks first others) cs

end Gap

variable {c l quote : Char} {cs rest taken blanks tail : List Char} {p : Position}
  {indent n w code : Nat} {gap : Gap}

/-! ### Single quotes -/

/-- A blank or a break goes into the gap. -/
theorem scanQuoted_blank (hc : isPrintable c = true) (h : (isBlank c || isBreak c) = true) :
    scanQuoted quote .open gap taken (glyphs p (c :: tail)) =
      scanQuoted quote .open (gap.push c) taken (glyphs (p.after c) tail) := by
  rw [glyphs_cons hc, scanQuoted]
  simp only [Position.char_glyph, h, if_true]

/-- After a break in the gap spaces are passed. -/
theorem scanQuoted_spaces (hgap : gap.broken = true) :
    scanQuoted quote .open gap taken (glyphs p (spaces n ++ tail)) =
      scanQuoted quote .open gap taken (glyphs (p.pass (spaces n)) tail) := by
  induction n generalizing p with
  | zero => rfl
  | succ n ih =>
    have hpush : gap.push ' ' = gap := by simp [Gap.push, hgap, isBreak]
    have hstep : scanQuoted quote .open gap taken (glyphs p (' ' :: (spaces n ++ tail))) =
        scanQuoted quote .open (gap.push ' ') taken (glyphs (p.after ' ') (spaces n ++ tail)) :=
      scanQuoted_blank (by decide) (by decide)
    rw [hpush] at hstep
    exact hstep.trans ih

/-- A character of a word ends the gap before it. -/
theorem scanQuoted_word (hc : isPrintable c = true) (hbreak : isBreak c = false) (hspace : c ≠ ' ')
    (hcolumn : gap.broken = true → p.column ≠ 0) :
    scanQuoted quote .open gap taken (glyphs p (c :: tail)) =
      if c == quote then
        if quote == '\'' then
          scanQuoted quote .quote .none (gap.content ++ taken) (glyphs (p.after c) tail)
        else .ok ((gap.content ++ taken).reverse, glyphs (p.after c) tail)
      else if quote == '"' && c == '\\' then
        scanQuoted quote .escape .none (gap.content ++ taken) (glyphs (p.after c) tail)
      else
        scanQuoted quote .open .none (c :: (gap.content ++ taken)) (glyphs (p.after c) tail) := by
  have hgap : (isBlank c || isBreak c) = false := by
    simpa [isBlank_of_isPrintable hc, hbreak] using hspace
  have hmark : (gap.broken && atDocumentMark (p.glyph c :: glyphs (p.after c) tail)) = false := by
    cases hbroken : gap.broken with
    | false => rfl
    | true => rw [atDocumentMark_of_column (by exact hcolumn hbroken)]; rfl
  rw [glyphs_cons hc, scanQuoted]
  simp only [Position.char_glyph, hgap, isEnd_of_isPrintable hc, hmark, Bool.false_eq_true,
    if_false]
  rfl

/-- A character other than the quote, or a backslash between double quotes, stands for itself. -/
theorem scanQuoted_char (hc : isPrintable c = true) (hbreak : isBreak c = false) (hspace : c ≠ ' ')
    (hquote : c ≠ quote) (hescape : quote = '"' → c ≠ '\\')
    (hcolumn : gap.broken = true → p.column ≠ 0) :
    scanQuoted quote .open gap taken (glyphs p (c :: tail)) =
      scanQuoted quote .open .none (c :: (gap.content ++ taken)) (glyphs (p.after c) tail) := by
  rw [scanQuoted_word hc hbreak hspace hcolumn, if_neg (by simpa using hquote), if_neg (by simpa)]

/-- A doubled quote stands for one. -/
theorem scanQuoted_doubled (hcolumn : gap.broken = true → p.column ≠ 0) :
    scanQuoted '\'' .open gap taken (glyphs p ('\'' :: '\'' :: tail)) =
      scanQuoted '\'' .open .none ('\'' :: (gap.content ++ taken))
        (glyphs (p.pass ['\'', '\'']) tail) := by
  rw [scanQuoted_word (by decide) (by decide) (by decide) hcolumn, if_pos (by decide),
    if_pos (by decide), glyphs_cons (by decide), scanQuoted]
  rfl

/-- The quote at the end. -/
theorem scanQuoted_closing (hcolumn : gap.broken = true → p.column ≠ 0) :
    scanQuoted '\'' .open gap taken (glyphs p ('\'' :: tail)) =
      scanQuoted '\'' .quote .none (gap.content ++ taken) (glyphs (p.after '\'') tail) := by
  rw [scanQuoted_word (by decide) (by decide) (by decide) hcolumn, if_pos (by decide),
    if_pos (by decide)]

/-- The indentation of a line that goes on is passed. -/
theorem scanQuoted_lead (quote : Char) (hindent : indent ≠ 0) (gap : Gap)
    (taken tail : List Char) (p : Position) :
    ∃ q : Position, p.line ≤ q.line ∧ (gap.broken = true → q.column ≠ 0) ∧
      scanQuoted quote .open gap taken
          (glyphs p ((if gap.broken then spaces indent else []) ++ tail)) =
        scanQuoted quote .open gap taken (glyphs q tail) := by
  cases hgap : gap.broken with
  | false => exact ⟨p, Nat.le_refl _, nofun, rfl⟩
  | true =>
    refine ⟨p.pass (spaces indent), Position.line_le_pass, fun _ => ?_, scanQuoted_spaces hgap⟩
    rw [Position.column_pass_spaces]
    omega

/-- No pair in a text means no pair at its beginning and none in the rest. -/
theorem hasPair_cons {first second : Char → Bool} (h : hasPair first second (c :: rest) = false) :
    (∀ d ∈ rest.head?, first c = true → second d = false) ∧ hasPair first second rest = false := by
  cases rest with
  | nil => exact ⟨nofun, rfl⟩
  | cons d rest => simpa [hasPair] using h

/-- A line end makes a gap of line ends. -/
theorem Gap.Before.push_break (h : gap.Before (c :: rest)) (hbreak : isBreak c = true)
    (hfeed : c ≠ '\n') :
    ∃ first others, gap.push c = .breaks first others ∧ first ≠ '\n' ∧
      others ++ [first] = c :: gap.content := by
  cases h with
  | @within blanks _ h =>
    have hblanks : blanks = [] := by
      apply Decidable.not_not.mp
      intro hne
      exact absurd (hbreak.symm.trans (h hne c rfl)) nofun
    subst hblanks
    exact ⟨c, [], by rw [Gap.push, if_pos hbreak]; rfl, hfeed, rfl⟩
  | @breaks first others _ hfirst h =>
    refine ⟨first, c :: others, by rw [Gap.push, if_pos hbreak]; rfl, hfirst, ?_⟩
    rw [content_breaks hfirst]
    rfl

/-- **A text in single quotes is read back as it is.** -/
theorem scanQuoted_singleBody (taken tail : List Char) (p : Position) (hindent : indent ≠ 0)
    (hprintable : Printable cs) (hfeed : '\n' ∉ cs)
    (hbreakSpace : hasPair isRawBreak (· == ' ') cs = false)
    (hspaceBreak : hasPair (· == ' ') isRawBreak cs = false) (hgap : gap.Before cs) :
    ∃ q : Position, p.line ≤ q.line ∧
      scanQuoted '\'' .open gap taken
          (glyphs p (singleBody indent gap.broken cs ++ '\'' :: tail)) =
        scanQuoted '\'' .quote .none (cs.reverse ++ (gap.content ++ taken)) (glyphs q tail) := by
  induction cs generalizing gap taken p with
  | nil =>
    obtain ⟨q, hline, hcolumn, hlead⟩ :=
      scanQuoted_lead '\'' hindent gap taken ('\'' :: tail) p
    refine ⟨q.after '\'', Nat.le_trans hline Position.line_le_after, ?_⟩
    rw [singleBody, hlead, scanQuoted_closing hcolumn]
    rfl
  | cons c rest ih =>
    obtain ⟨hc, hrest⟩ := printable_cons.mp hprintable
    rw [List.mem_cons, not_or] at hfeed
    obtain ⟨hafterBreak, hbreakSpace'⟩ := hasPair_cons hbreakSpace
    obtain ⟨hafterSpace, hspaceBreak'⟩ := hasPair_cons hspaceBreak
    by_cases hbreak : isBreak c = true
    · obtain ⟨first, others, hpush, hfirst, hcontent⟩ := hgap.push_break hbreak (Ne.symm hfeed.1)
      have hbefore : (Gap.breaks first others).Before rest := by
        refine .breaks hfirst fun hhead => ?_
        have hspace := hafterBreak ' ' hhead ((isRawBreak_of_isPrintable hc).trans hbreak)
        exact absurd hspace (by decide)
      obtain ⟨q, hline, hscan⟩ :=
        ih taken (p.after c) hrest hfeed.2 hbreakSpace' hspaceBreak' hbefore
      refine ⟨q, Nat.le_trans Position.line_le_after hline, ?_⟩
      have hbody : singleBody indent gap.broken (c :: rest) = c :: singleBody indent true rest := by
        simp [singleBody, hbreak]
      rw [hbody, List.cons_append, scanQuoted_blank hc (by simp [hbreak]), hpush]
      refine hscan.trans ?_
      rw [Gap.content_breaks hfirst, hcontent]
      simp
    · rw [Bool.not_eq_true] at hbreak
      by_cases hspace : c = ' '
      · subst hspace
        cases hgap with
        | breaks hfirst h => exact absurd rfl h
        | @within blanks _ h =>
          have hbefore : (Gap.within (' ' :: blanks)).Before rest := by
            refine .within fun _ d hd => ?_
            have hraw := hafterSpace d hd (by decide)
            rwa [isRawBreak_of_isPrintable (hrest d (List.mem_of_mem_head? hd))] at hraw
          obtain ⟨q, hline, hscan⟩ := ih taken (p.after ' ') hrest hfeed.2 hbreakSpace' hspaceBreak'
            hbefore
          refine ⟨q, Nat.le_trans Position.line_le_after hline, ?_⟩
          have hbody : singleBody indent false (' ' :: rest) =
              ' ' :: singleBody indent false rest := by
            simp [singleBody, isBreak]
          rw [Gap.broken_within, hbody, List.cons_append, scanQuoted_blank hc (by decide),
            Gap.push_space]
          refine hscan.trans ?_
          simp
      · have hbefore : (Gap.within []).Before rest := .within fun hne => absurd rfl hne
        by_cases hquote : c = '\''
        · subst hquote
          have hbody : singleBody indent gap.broken ('\'' :: rest) ++ '\'' :: tail =
              (if gap.broken then spaces indent else []) ++
                '\'' :: '\'' :: (singleBody indent false rest ++ '\'' :: tail) := by
            simp [singleBody, isBreak]
          obtain ⟨o, ho, hcolumn, hlead⟩ := scanQuoted_lead '\'' hindent gap taken
            ('\'' :: '\'' :: (singleBody indent false rest ++ '\'' :: tail)) p
          obtain ⟨q, hline, hscan⟩ := ih ('\'' :: (gap.content ++ taken)) (o.pass ['\'', '\''])
            hrest hfeed.2 hbreakSpace' hspaceBreak' hbefore
          refine ⟨q, Nat.le_trans ho (Nat.le_trans Position.line_le_pass hline), ?_⟩
          rw [hbody, hlead, scanQuoted_doubled hcolumn]
          refine hscan.trans ?_
          simp
        · have hbody : singleBody indent gap.broken (c :: rest) ++ '\'' :: tail =
              (if gap.broken then spaces indent else []) ++
                c :: (singleBody indent false rest ++ '\'' :: tail) := by
            simp [singleBody, hbreak, hspace, hquote]
          obtain ⟨o, ho, hcolumn, hlead⟩ := scanQuoted_lead '\'' hindent gap taken
            (c :: (singleBody indent false rest ++ '\'' :: tail)) p
          obtain ⟨q, hline, hscan⟩ := ih (c :: (gap.content ++ taken)) (o.after c) hrest hfeed.2
            hbreakSpace' hspaceBreak' hbefore
          refine ⟨q, Nat.le_trans ho (Nat.le_trans Position.line_le_after hline), ?_⟩
          have hsingle : '\'' = '"' → c ≠ '\\' := fun h => absurd h (by decide)
          rw [hbody, hlead, scanQuoted_char hc hbreak hspace hquote hsingle hcolumn]
          refine hscan.trans ?_
          simp

/-! ### Double quotes -/

/-- The hexadecimal digits of escapes are printable and have their values. -/
theorem upperHexDigit_spec : ∀ d < 16, isPrintable (upperHexDigit d) = true ∧
    hexValue? (upperHexDigit d) = some d := by
  decide

/-- The digits of a code stand for its character. -/
theorem scanQuoted_hexDigits (taken tail : List Char) (p : Position) (w code : Nat)
    (hvalid : (code * 16 ^ (w + 1) + n % 16 ^ (w + 1)).isValidChar) :
    scanQuoted quote (.hex (w + 1) code) .none taken (glyphs p (hexDigits n (w + 1) ++ tail)) =
      scanQuoted quote .open .none
        (Char.ofNat (code * 16 ^ (w + 1) + n % 16 ^ (w + 1)) :: taken)
        (glyphs (p.pass (hexDigits n (w + 1))) tail) := by
  induction w generalizing p code with
  | zero =>
    obtain ⟨hprint, hvalue⟩ := upperHexDigit_spec (n % 16) (Nat.mod_lt _ (by decide))
    have hdigits : hexDigits n 1 = [upperHexDigit (n % 16)] := by simp [hexDigits]
    rw [Nat.zero_add, Nat.pow_one] at hvalid ⊢
    rw [hdigits, List.singleton_append, glyphs_cons hprint, scanQuoted]
    simp only [Position.char_glyph, hvalue, hvalid, if_true]
    rfl
  | succ w ih =>
    obtain ⟨hprint, hvalue⟩ :=
      upperHexDigit_spec (n / 16 ^ (w + 1) % 16) (Nat.mod_lt _ (by decide))
    have hdigits : hexDigits n (w + 2) =
        upperHexDigit (n / 16 ^ (w + 1) % 16) :: hexDigits n (w + 1) := rfl
    have hcode : code * 16 ^ (w + 2) + n % 16 ^ (w + 2) =
        (code * 16 + n / 16 ^ (w + 1) % 16) * 16 ^ (w + 1) + n % 16 ^ (w + 1) := by
      rw [Nat.pow_succ 16 (w + 1), Nat.mod_mul]
      ring
    rw [hcode] at hvalid ⊢
    rw [hdigits, List.cons_append, glyphs_cons hprint, scanQuoted]
    simp only [Position.char_glyph, hvalue]
    exact ih _ _ hvalid

/-- A letter stands for its character. -/
theorem escapeLetter?_spec (h : escapeLetter? c = some l) :
    isPrintable l = true ∧ isBreak l = false ∧ escapeChar? l = some c := by
  unfold escapeLetter? at h
  split at h <;> cases h <;> decide

/-- A character without a letter ends no line and is no double quote or backslash. -/
theorem of_escapeLetter?_eq_none (h : escapeLetter? c = none) :
    isBreak c = false ∧ c ≠ '"' ∧ c ≠ '\\' := by
  have hne : ∀ d, (escapeLetter? d).isSome → c ≠ d := by
    rintro d hd rfl
    rw [h] at hd
    exact absurd hd nofun
  refine ⟨?_, hne '"' rfl, hne '\\' rfl⟩
  simp [isBreak, hne '\n' rfl, hne '\u2028' rfl, hne '\u2029' rfl]

/-- What is not printable has a code of four digits at most. -/
theorem toNat_lt_of_not_isPrintable (h : isPrintable c = false) : c.toNat < 65536 := by
  by_contra hlarge
  simp [isPrintable, Nat.le_of_not_lt hlarge] at h

/-- A backslash and a letter stand for one character. -/
theorem scanQuoted_letter (h : escapeLetter? c = some l) :
    scanQuoted quote .escape .none taken (glyphs p (l :: tail)) =
      scanQuoted quote .open .none (c :: taken) (glyphs (p.after l) tail) := by
  obtain ⟨hprint, hbreak, hchar⟩ := escapeLetter?_spec h
  rw [glyphs_cons hprint, scanQuoted]
  simp only [Position.char_glyph, hbreak, hchar, Bool.false_eq_true, if_false]

/-- A backslash, a letter for the number of digits and the digits of a code stand for one
character. -/
theorem scanQuoted_code (hprint : isPrintable l = true) (hbreak : isBreak l = false)
    (hchar : escapeChar? l = none) (hwidth : escapeWidth? l = some (w + 1))
    (hc : c.toNat < 16 ^ (w + 1)) :
    scanQuoted quote .escape .none taken (glyphs p (l :: (hexDigits c.toNat (w + 1) ++ tail))) =
      scanQuoted quote .open .none (c :: taken)
        (glyphs ((p.after l).pass (hexDigits c.toNat (w + 1))) tail) := by
  have hcode : 0 * 16 ^ (w + 1) + c.toNat % 16 ^ (w + 1) = c.toNat := by
    rw [Nat.mod_eq_of_lt hc, Nat.zero_mul, Nat.zero_add]
  have hvalid : (0 * 16 ^ (w + 1) + c.toNat % 16 ^ (w + 1)).isValidChar := by
    rw [hcode]
    exact c.valid
  rw [glyphs_cons hprint, scanQuoted]
  simp only [Position.char_glyph, hbreak, hchar, hwidth, Bool.false_eq_true, if_false]
  rw [scanQuoted_hexDigits taken tail (p.after l) w 0 hvalid, hcode, Char.ofNat_toNat]

/-- What stands in double quotes for a character other than a space is read as that character. -/
theorem scanQuoted_doubleChar (hspace : c ≠ ' ') :
    scanQuoted '"' .open (.within blanks) taken (glyphs p (doubleChar c ++ tail)) =
      scanQuoted '"' .open .none (c :: (blanks ++ taken))
        (glyphs (p.pass (doubleChar c)) tail) := by
  have hbroken : (Gap.within blanks).broken = true → p.column ≠ 0 := fun h =>
    absurd h Bool.false_ne_true
  have hbackslash : ∀ rest, scanQuoted '"' .open (.within blanks) taken
      (glyphs p ('\\' :: rest)) =
        scanQuoted '"' .escape .none (blanks ++ taken) (glyphs (p.after '\\') rest) := by
    intro rest
    rw [scanQuoted_word (by decide) (by decide) (by decide) hbroken]
    rfl
  unfold doubleChar
  cases hletter : escapeLetter? c with
  | some l =>
    simp only [List.cons_append, List.nil_append]
    rw [hbackslash, scanQuoted_letter hletter]
    rfl
  | none =>
    cases hprint : isPrintable c with
    | true =>
      obtain ⟨hbreak, hquote, hslash⟩ := of_escapeLetter?_eq_none hletter
      simp only [if_true, List.singleton_append]
      rw [scanQuoted_char hprint hbreak hspace hquote (fun _ => hslash) hbroken]
      rfl
    | false =>
      simp only [Bool.false_eq_true, if_false]
      split_ifs with hsmall
      · rw [List.cons_append, List.cons_append, hbackslash,
          scanQuoted_code (by decide) (by decide) (by decide) rfl (Nat.lt_succ_of_le hsmall)]
        rfl
      · rw [List.cons_append, List.cons_append, hbackslash,
          scanQuoted_code (by decide) (by decide) (by decide) rfl
            (toNat_lt_of_not_isPrintable hprint)]
        rfl

/-- **A text in double quotes is read back as it is.** -/
theorem scanQuoted_doubleChars (blanks taken : List Char) (p : Position) :
    ∃ q : Position, p.line ≤ q.line ∧
      scanQuoted '"' .open (.within blanks) taken
          (glyphs p (cs.flatMap doubleChar ++ '"' :: tail)) =
        .ok ((cs.reverse ++ (blanks ++ taken)).reverse, glyphs q tail) := by
  induction cs generalizing blanks taken p with
  | nil =>
    refine ⟨p.after '"', Position.line_le_after, ?_⟩
    rw [List.flatMap_nil, List.nil_append, scanQuoted_word (by decide) (by decide) (by decide)
      fun h => absurd h Bool.false_ne_true]
    rfl
  | cons c rest ih =>
    rw [List.flatMap_cons, List.append_assoc]
    by_cases hspace : c = ' '
    · subst hspace
      obtain ⟨q, hline, hscan⟩ := ih (' ' :: blanks) taken (p.after ' ')
      refine ⟨q, Nat.le_trans Position.line_le_after hline, ?_⟩
      have hblank : scanQuoted '"' .open (.within blanks) taken
          (glyphs p (' ' :: (rest.flatMap doubleChar ++ '"' :: tail))) = _ :=
        scanQuoted_blank (by decide) (by decide)
      refine hblank.trans (hscan.trans ?_)
      simp
    · obtain ⟨q, hline, hscan⟩ := ih [] (c :: (blanks ++ taken)) (p.pass (doubleChar c))
      refine ⟨q, Nat.le_trans Position.line_le_pass hline, ?_⟩
      rw [scanQuoted_doubleChar hspace]
      refine hscan.trans ?_
      simp

end CidrCover.Yaml
