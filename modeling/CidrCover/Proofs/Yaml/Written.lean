import CidrCover.Proofs.Yaml.Block
import CidrCover.Proofs.Yaml.Lines
import CidrCover.Proofs.Yaml.Quoted

/-!
# Reading written texts

**A written text is read back as it is, in the style in which it was written** (`GoesOn.write`). The
traits of a text tell what its style relies on (`styleOf_cases`), and whatever the text is, what is
written for it prints (`printable_write`).
-/

namespace CidrCover.Yaml

variable {c : Char} {cs rest : List Char} {p : Position} {ts all : List Token}
  {margins : List Nat} {n k indent : Nat} {b : Bool}

/-! ### Styles -/

/-- A text that can do without quotes and stands for nothing else is a plain text. -/
theorem plainText_of_plainAllowed (hambiguous : isAmbiguous cs = false)
    (hallowed : (traits cs).plainAllowed = true) : PlainText cs := by
  simp only [Traits.plainAllowed, traits, Bool.not_eq_true', Bool.or_eq_false_iff,
    Bool.not_eq_false'] at hallowed
  obtain ⟨⟨⟨⟨⟨hmultiline, hspecial⟩, hindicator⟩, hhead, hlast⟩, -⟩, -⟩ := hallowed
  refine ⟨?_, List.all_eq_true.mp hspecial, ?_, hindicator, ?_, ?_⟩
  · rintro rfl
    exact absurd hambiguous (by decide)
  · intro c hc
    have hraw := List.any_eq_false.mp hmultiline c hc
    simp only [isRawBreak, Bool.or_eq_true, not_or, Bool.not_eq_true] at hraw
    exact hraw.2
  · intro h
    simp [h] at hhead
  · intro h
    simp [h] at hlast

/-- What the style of a text says about the text. -/
theorem styleOf_cases (cs : List Char) :
    styleOf cs = .plain ∧ PlainText cs ∨
    styleOf cs = .singleQuoted ∧ '\n' ∉ cs ∧ Printable cs ∧
      hasPair isRawBreak (· == ' ') cs = false ∧ hasPair (· == ' ') isRawBreak cs = false ∨
    styleOf cs = .doubleQuoted ∨
    styleOf cs = .literal ∧ cs ≠ [] ∧ Printable cs := by
  unfold styleOf
  cases hfeed : cs.contains '\n' with
  | true =>
    cases hallowed : (traits cs).literalAllowed with
    | false => exact Or.inr (Or.inr (Or.inl (by simp [hallowed])))
    | true =>
      simp only [Traits.literalAllowed, traits, Bool.not_eq_true', Bool.or_eq_false_iff,
        Bool.not_eq_false'] at hallowed
      refine Or.inr (Or.inr (Or.inr ⟨?_, ?_, List.all_eq_true.mp hallowed.1.1⟩))
      · simp [Traits.literalAllowed, traits, hallowed]
      · rintro rfl
        exact absurd hfeed nofun
  | false =>
    have hfeed' : '\n' ∉ cs := by simpa using hfeed
    cases hplain : !isAmbiguous cs && (traits cs).plainAllowed with
    | true =>
      rw [Bool.and_eq_true, Bool.not_eq_true'] at hplain
      exact Or.inl ⟨by simp [hplain], plainText_of_plainAllowed hplain.1 hplain.2⟩
    | false =>
      cases hsingle : cs.isEmpty || (traits cs).singleAllowed with
      | false => exact Or.inr (Or.inr (Or.inl (by simp [hplain, hsingle])))
      | true =>
        refine Or.inr (Or.inl ⟨by simp [hplain, hsingle], hfeed', ?_⟩)
        cases cs with
        | nil => exact ⟨printable_nil, rfl, rfl⟩
        | cons c cs =>
          rw [List.isEmpty_cons, Bool.false_or] at hsingle
          simp only [Traits.singleAllowed, traits, Bool.not_eq_true', Bool.or_eq_false_iff,
            Bool.not_eq_false'] at hsingle
          exact ⟨List.all_eq_true.mp hsingle.1.1, hsingle.1.2, hsingle.2⟩

/-! ### Characters of written texts -/

/-- Spaces are printable. -/
theorem printable_spaces : Printable (spaces n) := by
  intro c hc
  rw [List.eq_of_mem_replicate hc]
  rfl

/-- A printable text between single quotes is written in printable characters. -/
theorem printable_singleBody (h : Printable cs) : Printable (singleBody indent b cs) := by
  induction cs generalizing b with
  | nil => cases b <;> simp [singleBody, printable_spaces]
  | cons c cs ih =>
    obtain ⟨hc, hcs⟩ := printable_cons.mp h
    have hquote : isPrintable '\'' = true := by decide
    unfold singleBody
    split
    · exact printable_cons.mpr ⟨hc, ih hcs⟩
    · split
      · exact printable_cons.mpr ⟨hc, ih hcs⟩
      · have hbody : Printable (if c == '\'' then ['\'', '\''] else [c]) := by
          split <;> simp [hc, hquote]
        cases b <;> simp only [printable_append, hbody, ih hcs, printable_nil, printable_spaces,
          Bool.false_eq_true, if_true, if_false, and_self]

/-- A printable text in a block is written in printable characters. -/
theorem printable_literalBody (h : Printable cs) : Printable (literalBody indent b cs) := by
  induction cs generalizing b with
  | nil => exact printable_nil
  | cons c cs ih =>
    obtain ⟨hc, hcs⟩ := printable_cons.mp h
    unfold literalBody
    split
    · exact printable_cons.mpr ⟨hc, ih hcs⟩
    · cases b <;> simp [printable_spaces, hc, ih hcs]

/-- The header of a block is printable. -/
theorem printable_literalHeader (hne : cs ≠ []) : Printable (literalHeader cs) := by
  obtain ⟨chomp, -, hheader⟩ := literalHeader_eq hne
  rw [hheader]
  cases chomp <;> split <;> decide

/-- Hexadecimal digits are printable. -/
theorem printable_hexDigits (n width : Nat) : Printable (hexDigits n width) := by
  induction width with
  | zero => exact printable_nil
  | succ w ih =>
    exact printable_cons.mpr ⟨(upperHexDigit_spec _ (Nat.mod_lt _ (by decide))).1, ih⟩

/-- Between double quotes every character is written in printable ones. -/
theorem printable_doubleChar : Printable (doubleChar c) := by
  have hbackslash : isPrintable '\\' = true := by decide
  unfold doubleChar
  split
  · next l hletter => simp [hbackslash, (escapeLetter?_spec hletter).1]
  · split
    · next hc => simp [hc]
    · have hcode : ∀ l w, isPrintable l = true → Printable ('\\' :: l :: hexDigits c.toNat w) :=
        fun l w hl => by simp [hbackslash, hl, printable_hexDigits]
      simp only
      split
      · exact hcode 'x' 2 (by decide)
      · exact hcode 'u' 4 (by decide)

/-- What is written prints. -/
theorem printable_write (indent : Nat) (cs : List Char) : Printable (write indent cs) := by
  have hsigns : isPrintable ' ' = true ∧ isPrintable '\n' = true ∧ isPrintable '\'' = true ∧
      isPrintable '"' = true := by decide
  obtain ⟨hspace, hfeed, hsingle, hdouble⟩ := hsigns
  rcases styleOf_cases cs with ⟨hstyle, hplain⟩ | ⟨hstyle, -, hprintable, -⟩ | hstyle |
    ⟨hstyle, hne, hprintable⟩
  · simp [write, hstyle, hspace, hfeed, hplain.printable]
  · simp [write, hstyle, hspace, hfeed, hsingle, printable_singleBody hprintable]
  · have hchars : Printable (cs.flatMap doubleChar) := fun d hd => by
      obtain ⟨c, -, hd⟩ := List.mem_flatMap.mp hd
      exact printable_doubleChar d hd
    simp [write, hstyle, hspace, hfeed, hdouble, hchars]
  · have hclosing : Printable (if cs.getLast?.any isBreak then [] else ['\n']) := by
      split <;> decide
    simp only [write, hstyle, printable_append, printable_cons, hspace, hfeed, hclosing,
      printable_literalHeader hne, printable_literalBody hprintable, and_self]

/-! ### Reading written texts -/

/-- A text in single quotes. -/
theorem GoesOn.singleQuoted (h : GoesOn margins (.text .singleQuoted cs :: ts) rest all)
    (hmargin : margins.headD 0 ≤ p.column) (hindent : indent ≠ 0) (hfeed : '\n' ∉ cs)
    (hprintable : Printable cs) (hbreakSpace : hasPair isRawBreak (· == ' ') cs = false)
    (hspaceBreak : hasPair (· == ' ') isRawBreak cs = false) :
    Reads (.outside margins b none ts) p
      ('\'' :: (singleBody indent false cs ++ ['\''] ++ '\n' :: rest)) all := by
  have hbefore : (Gap.within []).Before cs := .within fun hne => absurd rfl hne
  obtain ⟨q, hline, hscan⟩ := scanQuoted_singleBody [] ('\n' :: rest) (p.after '\'') hindent
    hprintable hfeed hbreakSpace hspaceBreak hbefore
  have hquoted : scanQuoted '\'' .open .none []
      (glyphs (p.after '\'') (singleBody indent false cs ++ '\'' :: '\n' :: rest)) =
        .ok (cs, glyphs q ('\n' :: rest)) := by
    refine hscan.trans ?_
    rw [glyphs_cons (by decide), scanQuoted]
    simp
  refine h.quoted (by decide) stale_none hmargin (fun s hflow => ?_)
    (Nat.le_trans Position.line_le_after hline)
  rw [List.append_assoc, List.singleton_append]
  simp [scanToken, isDocumentMark_glyph, hflow, hquoted, Except.map]

/-- A text in double quotes. -/
theorem GoesOn.doubleQuoted (h : GoesOn margins (.text .doubleQuoted cs :: ts) rest all)
    (hmargin : margins.headD 0 ≤ p.column) :
    Reads (.outside margins b none ts) p
      ('"' :: (cs.flatMap doubleChar ++ ['"'] ++ '\n' :: rest)) all := by
  obtain ⟨q, hline, hquoted⟩ : ∃ q : Position, (p.after '"').line ≤ q.line ∧
      scanQuoted '"' .open .none [] (glyphs (p.after '"')
          (cs.flatMap doubleChar ++ '"' :: '\n' :: rest)) = .ok (cs, glyphs q ('\n' :: rest)) := by
    obtain ⟨q, hline, hscan⟩ := scanQuoted_doubleChars [] [] (p.after '"')
    exact ⟨q, hline, hscan.trans (by simp)⟩
  refine h.quoted (by decide) stale_none hmargin (fun s hflow => ?_)
    (Nat.le_trans Position.line_le_after hline)
  rw [List.append_assoc, List.singleton_append]
  simp [scanToken, isDocumentMark_glyph, hflow, hquoted, Except.map]

/-- **A written text is read back in its style.** -/
theorem GoesOn.write (h : GoesOn margins (.text (styleOf cs) cs :: ts) rest all)
    (hne : margins.headD 0 ≠ 0) (hmargin : margins.headD 0 ≤ p.column) :
    Reads (.outside margins b none ts) p (Yaml.write (margins.headD 0 + 1) cs ++ rest) all := by
  have hafter : (p.after ' ').column = p.column + 1 := Position.column_after rfl
  have hmargin' : margins.headD 0 ≤ (p.after ' ').column := by omega
  rcases styleOf_cases cs with ⟨hstyle, hplain⟩ | ⟨hstyle, hfeed, hprintable, hbreak, hspace⟩ |
    hstyle | ⟨hstyle, hne', hprintable⟩
  · have hwrite : Yaml.write (margins.headD 0 + 1) cs ++ rest = ' ' :: (cs ++ '\n' :: rest) := by
      simp [Yaml.write, hstyle]
    rw [hstyle] at h
    rw [hwrite]
    exact Reads.space (h.plain hplain stale_none (by omega) hmargin')
  · have hwrite : Yaml.write (margins.headD 0 + 1) cs ++ rest =
        ' ' :: '\'' :: (singleBody (margins.headD 0 + 1) false cs ++ ['\''] ++ '\n' :: rest) := by
      simp [Yaml.write, hstyle]
    rw [hstyle] at h
    rw [hwrite]
    exact Reads.space (h.singleQuoted hmargin' (Nat.succ_ne_zero _) hfeed hprintable hbreak hspace)
  · have hwrite : Yaml.write (margins.headD 0 + 1) cs ++ rest =
        ' ' :: '"' :: (cs.flatMap doubleChar ++ ['"'] ++ '\n' :: rest) := by
      simp [Yaml.write, hstyle]
    rw [hstyle] at h
    rw [hwrite]
    exact Reads.space (h.doubleQuoted hmargin')
  · obtain ⟨chomp, -, hheader⟩ := literalHeader_eq hne'
    have hwrite : Yaml.write (margins.headD 0 + 1) cs ++ rest =
        ' ' :: '|' :: ((literalHeader cs).tail ++ '\n' ::
          (literalBody (margins.headD 0 + 1) true cs ++
            (if cs.getLast?.any isBreak then [] else ['\n'])) ++ rest) := by
      rw [Yaml.write, hstyle, hheader]
      simp
    rw [hstyle] at h
    rw [hwrite]
    refine Reads.space (h.literal stale_none hmargin' ?_)
    rintro k more rfl hk hopening
    obtain ⟨q, -, hcolumn, hscan⟩ := scanBlock_literal hne hprintable hne' hk hopening
      ((p.after ' ').after '|')
    refine ⟨q, hcolumn, ?_⟩
    simpa using hscan

end CidrCover.Yaml
