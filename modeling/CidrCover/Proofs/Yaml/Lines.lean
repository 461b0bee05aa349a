import CidrCover.Proofs.Yaml.Scan

/-!
# Reading block collections line by line

The structure of block collections shows at the beginnings of lines. `Resumes` is a reader at the
first token of a line, and `GoesOn` one before the indentation of a line that belongs to an open
collection. Texts end with such a line (`GoesOn.plain`, `GoesOn.quoted`, `GoesOn.literal`), keys and
hyphens begin with one (`Resumes.key`, `Resumes.hyphen`), and less indentation ends a collection
(`Resumes.dedent`). **A text is read into its tokens from the first line after its comments on**
(`tokens?_of_resumes`).
-/

namespace CidrCover.Yaml

variable {c : Char} {cs rest : List Char} {p q : Position} {ts all : List Token}
  {margins : List Nat} {margin n k : Nat} {b : Bool} {mark : Option KeyMark}

/-! ### Lines -/

/-- A reader at the first token of a line, at a column. -/
def Resumes (margins : List Nat) (ts : List Token) (k : Nat) (cs : List Char) (all : List Token) :
    Prop :=
  ∀ (mark : Option KeyMark) (p : Position), p.column = k → Stale p.line mark →
    Reads (.outside margins true mark ts) p cs all

/-- A reader at the beginning of a line that belongs to an open block collection. -/
def GoesOn (margins : List Nat) (ts : List Token) (cs : List Char) (all : List Token) : Prop :=
  ∃ k rest, cs = spaces k ++ rest ∧ k < margins.headD 0 ∧ Opening rest ∧
    Resumes margins ts k rest all

/-- The place after the indentation of the next line. -/
theorem Position.nextLine (p : Position) (k : Nat) :
    ((p.after '\n').pass (spaces k)).column = k ∧
      ((p.after '\n').pass (spaces k)).line = p.line + 1 := by
  rw [column_pass_spaces, line_pass_spaces, after_of_isBreak rfl]
  exact ⟨Nat.zero_add k, rfl⟩

/-- A reader at the end of a line goes on with the next one, where a mark can no longer become a
key. -/
theorem GoesOn.lineEnd (h : GoesOn margins ts cs all) (hmark : Stale (p.line + 1) mark) :
    Reads (.outside margins b mark ts) p ('\n' :: cs) all := by
  obtain ⟨k, rest, rfl, -, -, hresumes⟩ := h
  obtain ⟨hcolumn, hline⟩ := p.nextLine k
  exact Reads.lineEnd (Reads.spaces (hresumes mark _ hcolumn (by rwa [hline])))

/-- A mark within the surrounding collection does not have to become a key. -/
theorem stale_keyMark (b : Bool) (ts : List Token) (hmargin : margins.headD 0 ≤ p.column)
    (hline : p.line ≤ q.line) :
    Stale (q.line + 1) (if b then some (keyMark margins p ts) else none) := by
  intro m hm
  cases b with
  | false => exact absurd hm nofun
  | true =>
    obtain rfl : keyMark margins p ts = m := Option.some.inj hm
    refine ⟨?_, Nat.lt_succ_of_le hline⟩
    rw [keyMark, beq_eq_false_iff_ne]
    omega

/-- A plain text at the end of a line. -/
theorem GoesOn.plain {text : List Char} (h : GoesOn margins (.text .plain text :: ts) cs all)
    (htext : PlainText text) (hmark : Stale p.line mark) (hcolumn : p.column ≠ 0)
    (hmargin : margins.headD 0 ≤ p.column) :
    Reads (.outside margins b mark ts) p (text ++ '\n' :: cs) all := by
  obtain ⟨k, rest, rfl, hk, hopening, hresumes⟩ := h
  have hend : scanPlain false (margins.headD 0) .none text.reverse
      (glyphs (p.pass text) ('\n' :: (spaces k ++ rest))) = _ := scanPlain_lineEnd hk hopening
  rw [List.reverse_reverse] at hend
  obtain ⟨hk', hline⟩ := (p.pass text).nextLine k
  refine Reads.plain htext hmark (Nat.le_succ_of_le hmargin) (fun h => absurd h hcolumn) hend ?_
    (hresumes _ _ hk' ?_)
  · rw [List.length_cons, List.length_append]
    omega
  · rw [hline]
    exact stale_keyMark b ts hmargin Position.line_le_pass

/-- A quoted text at the end of a line. -/
theorem GoesOn.quoted {t : Token} {before : List Char} (h : GoesOn margins (t :: ts) cs all)
    (hstarts : Starts c) (hmark : Stale p.line mark) (hmargin : margins.headD 0 ≤ p.column)
    (htoken : ∀ s : Scan, s.inFlow = false →
      scanToken s (p.glyph c) (glyphs (p.after c) (before ++ '\n' :: cs)) =
        s.nodePart (p.glyph c) (.ok (t, glyphs q ('\n' :: cs))))
    (hline : p.line ≤ q.line) :
    Reads (.outside margins b mark ts) p (c :: (before ++ '\n' :: cs)) all := by
  refine Reads.token hstarts (Scan.expireMarks_of_stale _ hmark) ?_ ?_
    (h.lineEnd (stale_keyMark b ts hmargin hline) : Reads (.outside margins false _ _) q _ all)
  · rw [Scan.unroll_of_le (Nat.le_succ_of_le hmargin), htoken _ rfl, Scan.nodePart,
      saveMark_outside]
    rfl
  · simp

/-- A literal block. -/
theorem GoesOn.literal {text before : List Char}
    (h : GoesOn margins (.text .literal text :: ts) cs all) (hmark : Stale p.line mark)
    (hmargin : margins.headD 0 ≤ p.column)
    (hblock : ∀ k rest, cs = spaces k ++ rest → k < margins.headD 0 → Opening rest →
      ∃ q : Position, q.column = 0 ∧
      scanBlock true (margins.headD 0) (glyphs (p.after '|') (before ++ cs)) =
        .ok (text, glyphs (q.pass (spaces k)) rest)) :
    Reads (.outside margins b mark ts) p ('|' :: (before ++ cs)) all := by
  obtain ⟨k, rest, rfl, hk, hopening, hresumes⟩ := h
  obtain ⟨q, hcolumn, hscan⟩ := hblock k rest rfl hk hopening
  have hk' : (q.pass (spaces k)).column = k := by
    rw [Position.column_pass_spaces, hcolumn, Nat.zero_add]
  refine Reads.token (by decide) (Scan.expireMarks_of_stale _ hmark) ?_ ?_
    (hresumes none _ hk' stale_none)
  · rw [Scan.unroll_of_le (Nat.le_succ_of_le hmargin)]
    have htoken : scanToken (.outside margins b none ts) (p.glyph '|')
        (glyphs (p.after '|') (before ++ (spaces k ++ rest))) =
          (Scan.outside margins b none ts).block true
            (glyphs (p.after '|') (before ++ (spaces k ++ rest))) := by
      simp [scanToken, isDocumentMark_glyph]
    have hdrop : (Scan.outside margins b none ts).dropMark = .ok (.outside margins b none ts) := rfl
    rw [htoken, Scan.block, hdrop, Except.ok_bind, Scan.margin_outside, hscan]
    rfl
  · rw [List.length_append, List.length_append]
    omega

/-! ### Collections -/

/-- A line that is not indented as far ends a collection. -/
theorem Resumes.dedent (h : Resumes margins (.blockEnd :: ts) k cs all) (hk : k + 1 < margin)
    (hopening : Opening cs) : Resumes (margin :: margins) ts k cs all := by
  rintro mark p rfl hmark fuel hfuel
  have hrest := h none p rfl stale_none fuel hfuel
  obtain ⟨fuel, rfl⟩ : ∃ n, fuel = n + 1 := ⟨fuel - 1, by omega⟩
  cases cs with
  | nil =>
    rw [scanTokens_nil (Scan.expireMarks_of_stale _ stale_none)] at hrest
    rwa [scanTokens_nil (Scan.expireMarks_of_stale _ hmark), Scan.unroll_cons_of_lt (by omega)]
  | cons c cs =>
    have hstarts := hopening c rfl
    rw [scanTokens_cons hstarts (Scan.expireMarks_of_stale _ stale_none)] at hrest
    rwa [scanTokens_cons hstarts (Scan.expireMarks_of_stale _ hmark), Scan.unroll_cons_of_lt hk]

/-- A line that is left of an inner collection closes it and goes on in the outer one. -/
theorem GoesOn.dedent {inner : Nat} (h : GoesOn (margin :: margins) (.blockEnd :: ts) cs all)
    (hinner : margin < inner) : GoesOn (inner :: margin :: margins) ts cs all := by
  obtain ⟨k, rest, rfl, hk, hopening, hresumes⟩ := h
  have hk' : k + 1 < inner := Nat.lt_of_le_of_lt hk hinner
  exact ⟨k, rest, rfl, Nat.lt_of_succ_lt hk', hopening, hresumes.dedent hk' hopening⟩

/-- The end of the text ends all collections. -/
theorem resumes_nil (h : ∀ m ∈ margins, 0 < m) :
    Resumes margins ts k [] (ts.reverse ++ margins.map fun _ => .blockEnd) := by
  rintro mark p - hmark fuel hfuel
  obtain ⟨fuel, rfl⟩ : ∃ n, fuel = n + 1 := ⟨fuel - 1, by omega⟩
  rw [scanTokens_nil (Scan.expireMarks_of_stale _ hmark)]
  induction margins generalizing ts with
  | nil =>
    rw [Scan.unroll_of_le (Nat.le_refl 0), List.map_nil, List.append_nil]
    rfl
  | cons margin margins ih =>
    obtain ⟨hmargin, hmargins⟩ := List.forall_mem_cons.mp h
    rw [Scan.unroll_cons_of_lt hmargin, ih hmargins, List.map_cons, List.reverse_cons,
      List.append_assoc]
    rfl

/-- The reader after the colon of a key at a column: a mapping begins there unless there is one. -/
def Scan.afterKey (margins : List Nat) (column : Nat) (key : List Char) (ts : List Token) : Scan :=
  if margins.headD 0 ≤ column then
    .outside ((column + 1) :: margins) false none
      (.value :: .text .plain key :: .key :: .blockMappingStart :: ts)
  else .outside margins false none (.value :: .text .plain key :: .key :: ts)

/-- A colon after a plain key turns the key's mark into a key, and opens a mapping where none is
open. -/
theorem Scan.value_keyMark {key : List Char} {g : Glyph} {gs : List Glyph} :
    (outside margins false (some (keyMark margins p ts)) (.text .plain key :: ts)).value g gs =
      .ok (afterKey margins p.column key ts, gs) := by
  unfold afterKey
  by_cases hopens : margins.headD 0 ≤ p.column
  · simp [value, inFlow, margin, outside, keyMark, insertAt, emit, hopens,
      -List.headD_eq_head?_getD]
  · simp [value, inFlow, margin, outside, keyMark, insertAt, emit, hopens,
      -List.headD_eq_head?_getD]

/-- A text that can be a key everywhere: it is short enough and no mark of a document. -/
structure KeyText (key : List Char) : Prop where
  plain : PlainText key
  first : ∀ c ∈ key.head?, c ≠ '-' ∧ c ≠ '.'
  size : (key.map Char.utf8Size).sum ≤ 1024

/-- A key and its colon. -/
theorem Resumes.key {key : List Char} (hkey : KeyText key) (hmargin : margins.headD 0 ≤ k + 1)
    (hcs : cs.head? = some ' ' ∨ cs.head? = some '\n')
    (h : ∀ q : Position, q.column = k + key.length + 1 →
      Reads (.afterKey margins k key ts) q cs all) :
    Resumes margins ts k (key ++ ':' :: cs) all := by
  rintro mark p rfl hmark
  obtain ⟨hkey, hfirst, hlength⟩ := hkey
  obtain ⟨c, cs, rfl, hc, hgap⟩ : ∃ c more, cs = c :: more ∧ isPrintable c = true ∧
      isGap c = true := by
    rcases hcs with hcs | hcs
    all_goals
      obtain ⟨more, rfl⟩ := List.head?_eq_some_iff.mp hcs
      exact ⟨_, more, rfl, by decide, by decide⟩
  obtain ⟨hline, hcolumn, hindex⟩ := Position.pass_of_unbroken (p := p) hkey.unbroken
  have hend : scanPlain false (margins.headD 0) .none key.reverse
      (glyphs (p.pass key) (':' :: c :: cs)) = _ := scanPlain_colon hc hgap
  rw [List.reverse_reverse] at hend
  refine Reads.plain hkey hmark hmargin (fun _ => hfirst) hend (Nat.le_refl _) ?_
  have hmarks : (Scan.outside margins false (some (keyMark margins p ts))
      (.text .plain key :: ts)).expireMarks ((p.pass key).glyph ':') =
        .ok (.outside margins false (some (keyMark margins p ts)) (.text .plain key :: ts)) := by
    have hreach : ¬ p.index + 1024 < p.index + (key.map Char.utf8Size).sum := by omega
    simp [Scan.expireMarks, Scan.outside, Scan.expire, keyMark, hline, hindex, hreach]
  refine Reads.token (by decide) hmarks ?_ (Nat.le_refl _) (h ((p.pass key).after ':') ?_)
  · rw [Scan.unroll_of_le (by omega)]
    simpa [scanToken, isDocumentMark_glyph, peek_glyphs_cons hc, hgap] using Scan.value_keyMark
  · rw [Position.column_after rfl, hcolumn]

/-- A further key of a mapping. -/
theorem GoesOn.key {key : List Char} (hkey : KeyText key) (hmargin : margins.headD 0 = k + 1)
    (hcs : cs.head? = some ' ' ∨ cs.head? = some '\n')
    (h : ∀ q : Position, margins.headD 0 ≤ q.column →
      Reads (.outside margins false none (.value :: .text .plain key :: .key :: ts)) q cs all) :
    GoesOn margins ts (spaces k ++ (key ++ ':' :: cs)) all := by
  refine ⟨k, _, rfl, by omega, ?_, Resumes.key hkey (Nat.le_of_eq hmargin) hcs fun q hq => ?_⟩
  · obtain ⟨c, more, rfl⟩ := List.exists_cons_of_ne_nil hkey.plain.ne_nil
    rintro d hd
    obtain rfl : c = d := Option.some.inj hd
    exact hkey.plain.starts
  · rw [Scan.afterKey, if_neg (by omega)]
    exact h q (by omega)

/-- The hyphen of an entry at the column of the surrounding mapping. -/
theorem Resumes.hyphen (hmargin : margins.headD 0 = k + 1) (hcs : cs.head? = some ' ')
    (h : ∀ q : Position, q.column = k + 1 →
      Reads (.outside margins true none (.blockEntry :: ts)) q cs all) :
    Resumes margins ts k ('-' :: cs) all := by
  rintro mark p rfl hmark
  obtain ⟨cs, rfl⟩ := List.head?_eq_some_iff.mp hcs
  refine Reads.token (by decide) (Scan.expireMarks_of_stale _ hmark) ?_ (Nat.le_refl _)
    (h (p.after '-') ?_)
  · have hroll : (Scan.outside margins true none ts).roll p.column .blockSequenceStart =
        .outside margins true none ts := by
      have hle : ¬ margins.headD 0 ≤ p.column := by omega
      simp [Scan.roll, hle, -List.headD_eq_head?_getD]
    have hentry : (Scan.outside margins true none ts).blockEntry (p.glyph '-')
        (glyphs (p.after '-') (' ' :: cs)) =
          .ok (.outside margins true none (.blockEntry :: ts),
            glyphs (p.after '-') (' ' :: cs)) := by
      rw [Scan.blockEntry, Position.column_glyph, hroll]
      rfl
    have hdash : isDocumentMark '-' (p.glyph '-' :: glyphs (p.after '-') (' ' :: cs)) = false := by
      rw [glyphs_cons (by decide)]
      exact isDocumentMark_second (by simp)
    have hpeek : peek (glyphs (p.after '-') (' ' :: cs)) = ' ' := peek_glyphs_cons (by decide)
    rw [Scan.unroll_of_le (by omega)]
    simp [scanToken, isDocumentMark_glyph, hpeek, hdash, isGap, isBlank, hentry]
  · exact Position.column_after rfl

/-- A sequence without items. -/
theorem GoesOn.emptySequence
    (h : GoesOn margins (.flowSequenceEnd :: .flowSequenceStart :: ts) cs all)
    (hmargin : margins.headD 0 ≤ p.column) :
    Reads (.outside margins false none ts) p ('[' :: ']' :: '\n' :: cs) all := by
  -- the reader between the brackets
  let inside : Scan := ⟨margins, true, none, [none], .flowSequenceStart :: ts, ts.length + 1⟩
  have hclosing : Reads inside (p.after '[') (']' :: '\n' :: cs) all := by
    have hmarks : inside.expireMarks ((p.after '[').glyph ']') = .ok inside := rfl
    refine Reads.token (by decide) hmarks ?_ (Nat.le_refl _)
      (h.lineEnd stale_none : Reads (.outside margins false none _) (p.pass ['[', ']']) _ all)
    have hunroll : inside.unroll ((p.after '[').column + 1) = inside := rfl
    rw [hunroll]
    simp [scanToken, isDocumentMark_glyph]
    rfl
  refine Reads.token (by decide)
    (Scan.expireMarks_of_stale _ stale_none) ?_ (Nat.le_refl _) hclosing
  rw [Scan.unroll_of_le (by omega)]
  simp [scanToken, isDocumentMark_glyph]
  rfl

/-! ### Whole texts -/

/-- **A text of comments and then tokens is read from its first token on.** -/
theorem tokens?_of_resumes {before : List Char} (hbefore : isRemark false before = true)
    (hcs : Printable cs) (h : Resumes [] [] 0 cs all) : tokens? (before ++ cs) = .ok all := by
  have hprintable : Printable (before ++ cs) :=
    printable_append.mpr ⟨printable_of_isRemark hbefore, hcs⟩
  have hreads : Reads .start ⟨0, 0, 0⟩ (before ++ cs) all :=
    Reads.remark (h none _ (column_pass_remark hbefore fun _ => rfl) stale_none) hbefore
  rw [tokens?, layout_of_printable hprintable]
  simp only
  exact hreads _ (by rw [length_glyphs hprintable]; omega)

end CidrCover.Yaml
