import CidrCover.Proofs.Except
import CidrCover.Proofs.Yaml.Plain
import CidrCover.Yaml.Token.Scan

/-!
# Reading tokens outside of brackets

A reader that stands outside of brackets (`Scan.outside`) is followed token by token, from the end
of a text on: `Reads s p cs all` says that a reader in the state `s` makes the tokens `all` out of
what it has read and the rest `cs` of the text, and each rule adds something in front of the rest:
spaces, line ends, comments (`Reads.remark`), or a token (`Reads.token`).
-/

namespace CidrCover.Yaml

variable {c d : Char} {cs rest : List Char} {p q : Position} {s s' : Scan} {ts all : List Token}
  {margins : List Nat} {margin n k : Nat} {b : Bool} {mark : Option KeyMark}

/-! ### Readers -/

namespace Scan

/-- A reader outside of brackets after some tokens, the last one first. -/
def outside (margins : List Nat) (keyAllowed : Bool) (mark : Option KeyMark) (ts : List Token) :
    Scan :=
  ⟨margins, keyAllowed, mark, [], ts, ts.length⟩

/-- Outside of brackets there is no flow. -/
@[simp] theorem inFlow_outside : (outside margins b mark ts).inFlow = false := rfl

/-- Outside of brackets the innermost margin counts. -/
@[simp] theorem margin_outside : (outside margins b mark ts).margin = margins.headD 0 := rfl

/-- A collection that is indented farther ends. -/
theorem unroll_cons_of_lt (h : n < margin) :
    (outside (margin :: margins) b mark ts).unroll n =
      (outside margins b mark (.blockEnd :: ts)).unroll n := by
  have hended : ∀ ended : List Nat,
      Token.blockEnd :: (ended.map fun _ => Token.blockEnd) ++ ts =
        (ended.map fun _ => Token.blockEnd) ++ .blockEnd :: ts := by
    intro ended
    rw [List.map_const', ← List.replicate_succ, List.replicate_succ', List.append_assoc]
    rfl
  simp only [unroll, inFlow, outside, List.isEmpty_nil, Bool.not_true, Bool.false_eq_true, if_false,
    List.takeWhile_cons, List.dropWhile_cons, h, decide_true, if_true, List.map_cons]
  rw [hended]
  simp [Nat.add_assoc, Nat.add_comm]

/-- Without a collection that is indented farther nothing ends. -/
theorem unroll_of_le (h : margins.headD 0 ≤ n) :
    (outside margins b mark ts).unroll n = outside margins b mark ts := by
  cases margins with
  | nil => simp [unroll, outside, inFlow]
  | cons margin margins =>
    have hle : ¬ n < margin := Nat.not_lt.mpr h
    simp [unroll, outside, inFlow, hle]

end Scan

/-- The mark is out of reach from a line on, and need not become a key. -/
def Stale (line : Nat) (mark : Option KeyMark) : Prop :=
  ∀ m ∈ mark, m.required = false ∧ m.line < line

/-- Where no key was expected, none is out of date. -/
@[simp] theorem stale_none {line : Nat} : Stale line none := nofun

/-- A key that is out of date is given up, as if it had not been expected. -/
theorem Scan.expireMarks_of_stale (g : Glyph) (h : Stale g.line mark) :
    (Scan.outside margins b mark ts).expireMarks g = .ok (.outside margins b none ts) := by
  cases mark with
  | none => rfl
  | some m =>
    obtain ⟨hrequired, hline⟩ := h m rfl
    simp [expireMarks, outside, expire, hrequired, hline]

/-! ### The rest of a text -/

/-- A reader in a state, at a place in a text, makes the tokens out of the text and its rest. -/
def Reads (s : Scan) (p : Position) (cs : List Char) (all : List Token) : Prop :=
  ∀ fuel, cs.length < fuel → scanTokens fuel s (glyphs p cs) = .ok all

/-- What is passed in front of a token makes no difference but for where keys may begin. -/
theorem Reads.of_skip (allowed : Bool) (before : List Char)
    (hskip : skipToToken s.inFlow s.keyAllowed false (glyphs p (before ++ cs)) =
      skipToToken s.inFlow allowed false (glyphs q cs))
    (h : Reads { s with keyAllowed := allowed } q cs all) : Reads s p (before ++ cs) all := by
  intro fuel hfuel
  rw [List.length_append] at hfuel
  have hrest := h fuel (by omega)
  cases fuel with
  | zero => exact absurd hfuel (Nat.not_lt_zero _)
  | succ fuel =>
    rw [scanTokens] at hrest ⊢
    rw [hskip]
    exact hrest

/-- A space in front of a token. -/
theorem Reads.space (h : Reads s (p.after ' ') cs all) : Reads s p (' ' :: cs) all := by
  refine Reads.of_skip s.keyAllowed [' '] ?_ h
  rw [List.singleton_append, glyphs_cons (by decide), skipToToken]
  simp [isBreak]

/-- The spaces in front of a token. -/
theorem Reads.spaces (h : Reads s (p.pass (spaces n)) cs all) :
    Reads s p (Yaml.spaces n ++ cs) all := by
  induction n generalizing p with
  | zero => exact h
  | succ n ih => exact Reads.space (ih h)

/-- After a line end a key may begin. -/
theorem Reads.lineEnd (h : Reads (.outside margins true mark ts) (p.after '\n') cs all) :
    Reads (.outside margins b mark ts) p ('\n' :: cs) all := by
  refine Reads.of_skip true ['\n'] ?_ h
  rw [List.singleton_append, glyphs_cons (by decide), skipToToken]
  simp [isBreak]

/-! ### Comments -/

/-- The text consists of comment lines; `inside` says that one of them has begun. -/
def isRemark (inside : Bool) : List Char → Bool
  | [] => !inside
  | c :: cs =>
    isPrintable c &&
      if isBreak c then isRemark false cs else (inside || c == '#') && isRemark true cs

section Remark

variable {inside : Bool} {before : List Char}

/-- A line break in a remark ends the comment. -/
theorem isRemark_cons_of_isBreak (h : isBreak c = true) :
    isRemark inside (c :: cs) = true ↔ isPrintable c = true ∧ isRemark false cs = true := by
  simp [isRemark, h]

/-- Any other character of a remark is part of a comment or begins one. -/
theorem isRemark_cons_of_not_isBreak (h : isBreak c = false) :
    isRemark inside (c :: cs) = true ↔
      isPrintable c = true ∧ (inside = true ∨ c = '#') ∧ isRemark true cs = true := by
  simp [isRemark, h]

/-- A remark is skipped, and what comes after it is looked at as if at the beginning of a line. -/
theorem skipToToken_remark (p : Position) (h : isRemark inside before = true) :
    skipToToken false true inside (glyphs p (before ++ cs)) =
      skipToToken false true false (glyphs (p.pass before) cs) := by
  induction before generalizing p inside with
  | nil =>
    obtain rfl : inside = false := by simpa [isRemark] using h
    rfl
  | cons c before ih =>
    cases hbreak : isBreak c with
    | true =>
      obtain ⟨hc, hbefore⟩ := (isRemark_cons_of_isBreak hbreak).mp h
      rw [List.cons_append, glyphs_cons hc, skipToToken, Position.pass_cons,
        ← ih (p.after c) hbefore]
      simp [hbreak]
    | false =>
      obtain ⟨hc, hinside, hbefore⟩ := (isRemark_cons_of_not_isBreak hbreak).mp h
      have hend := isEnd_of_isPrintable hc
      rw [List.cons_append, glyphs_cons hc, skipToToken, Position.pass_cons,
        ← ih (p.after c) hbefore]
      rcases hinside with rfl | rfl
      · simp only [Position.char_glyph, hbreak, hend, Bool.not_false, Bool.and_true, if_true,
          Bool.false_eq_true, if_false]
      · cases inside <;> simp [hbreak, isEnd]

/-- Two remarks, one after the other, are a remark. -/
theorem isRemark_append {more : List Char} (hbefore : isRemark inside before = true)
    (hmore : isRemark false more = true) : isRemark inside (before ++ more) = true := by
  induction before generalizing inside with
  | nil =>
    obtain rfl : inside = false := by simpa [isRemark] using hbefore
    exact hmore
  | cons c before ih =>
    rw [List.cons_append]
    cases hbreak : isBreak c with
    | true =>
      rw [isRemark_cons_of_isBreak hbreak] at hbefore ⊢
      exact ⟨hbefore.1, ih hbefore.2⟩
    | false =>
      rw [isRemark_cons_of_not_isBreak hbreak] at hbefore ⊢
      exact ⟨hbefore.1, hbefore.2.1, ih hbefore.2.2⟩

/-- A remark is printable. -/
theorem printable_of_isRemark (h : isRemark inside before = true) : Printable before := by
  induction before generalizing inside with
  | nil => exact printable_nil
  | cons c before ih =>
    cases hbreak : isBreak c with
    | true =>
      rw [isRemark_cons_of_isBreak hbreak] at h
      exact printable_cons.mpr ⟨h.1, ih h.2⟩
    | false =>
      rw [isRemark_cons_of_not_isBreak hbreak] at h
      exact printable_cons.mpr ⟨h.1, ih h.2.2⟩

/-- Comments end with their line. -/
theorem column_pass_remark (h : isRemark inside before = true)
    (hp : inside = false → p.column = 0) : (p.pass before).column = 0 := by
  induction before generalizing p inside with
  | nil => exact hp (by simpa [isRemark] using h)
  | cons c before ih =>
    rw [Position.pass_cons]
    cases hbreak : isBreak c with
    | true =>
      rw [isRemark_cons_of_isBreak hbreak] at h
      exact ih h.2 fun _ => by rw [Position.after_of_isBreak hbreak]
    | false =>
      rw [isRemark_cons_of_not_isBreak hbreak] at h
      exact ih h.2.2 nofun

/-- Comments in front of a token. -/
theorem Reads.remark (h : Reads (.outside margins true mark ts) (p.pass before) cs all)
    (hbefore : isRemark false before = true) :
    Reads (.outside margins true mark ts) p (before ++ cs) all :=
  Reads.of_skip true before (skipToToken_remark p hbefore) h

end Remark

/-! ### Tokens -/

/-- A character that begins a token is not skipped. -/
theorem Starts.skipToToken_eq {flow : Bool} (h : Starts c) :
    skipToToken flow b false (glyphs p (c :: cs)) = (b, glyphs p (c :: cs)) := by
  have htab : c ≠ '\t' := ne_of_isPrintable h.printable (by decide)
  have hmark : c ≠ '\ufeff' := ne_of_isPrintable h.printable (by decide)
  rw [glyphs_cons h.printable, skipToToken]
  simp [h.unbroken, h.space, h.sign, htab, hmark]

/-- The end of the text is not skipped. -/
theorem skipToToken_end {flow : Bool} :
    skipToToken flow b false (glyphs p []) = (b, [p.glyph '\x00']) := by
  rw [glyphs_nil, skipToToken]
  simp [isBreak]

/-- What is read from a token on. -/
theorem scanTokens_cons {fuel : Nat} (hstarts : Starts c)
    (hmarks : s.expireMarks (p.glyph c) = .ok s') :
    scanTokens (fuel + 1) s (glyphs p (c :: cs)) =
      (scanToken (s'.unroll (p.column + 1)) (p.glyph c) (glyphs (p.after c) cs) >>= fun r =>
        scanTokens fuel r.1 r.2) := by
  rw [scanTokens, hstarts.skipToToken_eq]
  simp only [glyphs_cons hstarts.printable, hmarks, Except.ok_bind, Position.char_glyph,
    Position.column_glyph, isEnd_of_isPrintable hstarts.printable, Bool.false_eq_true, if_false]

/-- What is read at the end of a text. -/
theorem scanTokens_nil {fuel : Nat} (hmarks : s.expireMarks (p.glyph '\x00') = .ok s') :
    scanTokens (fuel + 1) s (glyphs p []) =
      ((s'.unroll 0).dropMark >>= fun r => .ok r.tokens.reverse) := by
  rw [scanTokens, skipToToken_end]
  simp only [hmarks, Except.ok_bind, Position.char_glyph]
  rfl

/-- A token in front of a rest. -/
theorem Reads.token {s₁ s₂ : Scan} (hstarts : Starts c)
    (hmarks : s.expireMarks (p.glyph c) = .ok s₁)
    (htoken : scanToken (s₁.unroll (p.column + 1)) (p.glyph c) (glyphs (p.after c) cs) =
      .ok (s₂, glyphs q rest))
    (hlength : rest.length ≤ cs.length) (h : Reads s₂ q rest all) : Reads s p (c :: cs) all := by
  intro fuel hfuel
  rw [List.length_cons] at hfuel
  obtain ⟨fuel, rfl⟩ : ∃ n, fuel = n + 1 := ⟨fuel - 1, by omega⟩
  rw [scanTokens_cons hstarts hmarks, htoken, Except.ok_bind]
  exact h fuel (by omega)

/-! ### Single tokens -/

/-- A line that begins with another character is no mark of a document. -/
theorem isDocumentMark_glyph {gs : List Glyph} (h : c ≠ d) :
    isDocumentMark d (p.glyph c :: gs) = false :=
  isDocumentMark_cons (Or.inr h)

/-- A line whose second character is another one is no mark of a document. -/
theorem isDocumentMark_second {g h : Glyph} {gs : List Glyph} (hne : h.char ≠ c) :
    isDocumentMark c (g :: h :: gs) = false := by
  unfold isDocumentMark
  split
  · next heq =>
    cases heq
    simp [hne]
  · rfl

/-- A plain text does not begin with an indicator. -/
theorem PlainText.leading (h : PlainText (c :: cs)) :
    c ≠ '#' ∧ c ≠ ',' ∧ c ≠ '[' ∧ c ≠ ']' ∧ c ≠ '\x7b' ∧ c ≠ '\x7d' ∧ c ≠ '&' ∧ c ≠ '*' ∧ c ≠ '!' ∧
      c ≠ '|' ∧ c ≠ '>' ∧ c ≠ '\'' ∧ c ≠ '"' ∧ c ≠ '%' ∧ c ≠ '@' ∧ c ≠ '`' := by
  have hindicator := h.indicator
  simp only [hasIndicator, isLeadingIndicator, Bool.or_eq_false_iff] at hindicator
  simpa using hindicator.1.1.2

/-- The first character of a plain text begins a token. -/
theorem PlainText.starts (h : PlainText (c :: cs)) : Starts c where
  printable := (printable_cons.mp h.printable).1
  unbroken := h.unbroken c List.mem_cons_self
  space := by simpa using h.head
  sign := h.leading.1

/-- A mark that is an indicator before a gap only does not stand before one. -/
theorem PlainText.isGap_next (p : Position) (rest : List Char) (h : PlainText (c :: cs))
    (hc : c = '?' ∨ c = ':' ∨ c = '-') :
    isGap (peek (glyphs p (cs ++ rest))) = false := by
  have hindicator := h.indicator
  simp only [hasIndicator, Bool.or_eq_false_iff] at hindicator
  have hall : cs.head?.all isRawGap = false := by
    rcases hc with rfl | rfl | rfl <;> simpa using hindicator.1.2
  cases cs with
  | nil => simp at hall
  | cons d cs =>
    obtain ⟨hd, -⟩ := printable_cons.mp (printable_cons.mp h.printable).2
    rw [List.cons_append, peek_glyphs_cons hd]
    exact Bool.eq_false_iff.mpr fun hgap => absurd (isRawGap_of_isGap hgap) (by simpa using hall)

/-- A plain text is taken for one at its first character. -/
theorem PlainText.startsPlain_eq (h : PlainText (c :: cs)) :
    startsPlain false c (peek (glyphs p (cs ++ rest))) = true := by
  by_cases hmarks : c = '?' ∨ c = ':' ∨ c = '-'
  · have hnext := h.isGap_next p rest hmarks
    have hblank : isBlank (peek (glyphs p (cs ++ rest))) = false := by
      simp only [isGap, Bool.or_eq_false_iff] at hnext
      exact hnext.1
    rcases hmarks with rfl | rfl | rfl <;> simp [startsPlain, hnext, hblank]
  · have hgap : isGap c = false := by
      obtain ⟨hc, hbreak, hspace, -⟩ := h.starts
      simp [isGap, isBreakOrEnd, isBlank_of_isPrintable hc, isEnd_of_isPrintable hc, hspace, hbreak]
    rw [not_or, not_or] at hmarks
    simp [startsPlain, hgap, h.leading, hmarks]

/-- A plain text is taken for one. -/
theorem scanToken_plain (hplain : PlainText (c :: cs)) (hflow : s.inFlow = false)
    (hfirst : p.column = 0 → c ≠ '-' ∧ c ≠ '.') :
    scanToken s (p.glyph c) (glyphs (p.after c) (cs ++ rest)) =
      s.plain (p.glyph c) (p.glyph c :: glyphs (p.after c) (cs ++ rest)) := by
  have hmark : ∀ d, c ≠ d ∨ p.column ≠ 0 →
      isDocumentMark d (p.glyph c :: glyphs (p.after c) (cs ++ rest)) = false := fun d hd =>
    isDocumentMark_cons hd.symm
  have hdash : c ≠ '-' ∨ p.column ≠ 0 := Decidable.or_iff_not_imp_right.mpr fun h =>
    (hfirst (Decidable.not_not.mp h)).1
  have hdot : c ≠ '.' ∨ p.column ≠ 0 := Decidable.or_iff_not_imp_right.mpr fun h =>
    (hfirst (Decidable.not_not.mp h)).2
  have hgap : ∀ d, d = '?' ∨ d = ':' ∨ d = '-' →
      ¬ (c = d ∧ isGap (peek (glyphs (p.after c) (cs ++ rest))) = true) := by
    rintro d hd ⟨rfl, hgap⟩
    exact absurd (hgap.symm.trans (hplain.isGap_next _ _ hd)) nofun
  simp [scanToken, hflow, hmark _ hdash, hmark _ hdot, hplain.leading, hplain.startsPlain_eq, hgap]

/-! ### Plain texts -/

/-- The mark of a key that may begin at a place. -/
def keyMark (margins : List Nat) (p : Position) (ts : List Token) : KeyMark :=
  ⟨margins.headD 0 == p.column + 1, ts.length, p.line, p.column, p.index⟩

/-- Before a token that may be a key the place is remembered, if a key may stand there. -/
theorem saveMark_outside (p : Position) :
    (Scan.outside margins b none ts).saveMark (p.glyph c) =
      .ok (.outside margins b (if b then some (keyMark margins p ts) else none) ts) := by
  cases b <;> rfl

/-- A plain text on one line. -/
theorem Reads.plain {text rest' : List Char} {broken : Bool} (htext : PlainText text)
    (hmark : Stale p.line mark) (hmargin : margins.headD 0 ≤ p.column + 1)
    (hfirst : p.column = 0 → ∀ c ∈ text.head?, c ≠ '-' ∧ c ≠ '.')
    (hend : scanPlain false (margins.headD 0) .none text.reverse (glyphs (p.pass text) rest) =
      .ok (text, broken, glyphs q rest'))
    (hlength : rest'.length ≤ rest.length)
    (h : Reads (.outside margins broken (if b then some (keyMark margins p ts) else none)
      (.text .plain text :: ts)) q rest' all) :
    Reads (.outside margins b mark ts) p (text ++ rest) all := by
  obtain ⟨c, cs, rfl⟩ := List.exists_cons_of_ne_nil htext.ne_nil
  rw [List.cons_append]
  refine Reads.token htext.starts (Scan.expireMarks_of_stale _ hmark) ?_ ?_ h
  · have hscan := (htext.scanPlain_eq hmargin).trans hend
    rw [List.cons_append, glyphs_cons htext.starts.printable] at hscan
    rw [Scan.unroll_of_le hmargin, scanToken_plain htext rfl fun hcolumn => hfirst hcolumn c rfl,
      Scan.plain, saveMark_outside, Except.ok_bind, Scan.inFlow_outside, Scan.margin_outside, hscan]
    rfl
  · rw [List.length_append]
    omega

end CidrCover.Yaml
