import CidrCover.Proofs.Except
import CidrCover.Proofs.Yaml.Plain
import CidrCover.Yaml.Token.Block
import Mathlib.Data.List.Basic

/-!
# Reading block texts

A literal block is read back as the text that it was written for (`scanBlock_literal`): the header
says how far its lines are indented where that cannot be seen from the first one, and how many line
ends there are at its end.
-/

namespace CidrCover.Yaml

variable {c : Char} {cs rest tail : List Char} {p : Position} {margin indent k : Nat} {b : Bool}
  {t : BlockText} {chomp : Chomp}

namespace BlockText

/-- What has been read. -/
def content (t : BlockText) : List Char :=
  (t.blankLines ++ t.lineEnd ++ t.taken).reverse

/-- The state of a reader in a line, or after a line end, of a block with the given indentation. -/
structure Ready (indent : Nat) (afterBreak : Bool) (t : BlockText) : Prop where
  indent : t.indent = some indent
  inLine : afterBreak = false → t.blankLines = [] ∧ t.lineEnd = []
  lineEnd : afterBreak = true → t.lineEnd = [] → t.taken = []
  breaks : ∀ c ∈ t.blankLines ++ t.lineEnd, isBreak c = true

end BlockText

/-! ### Lines -/

/-- The text ends with a line end; `b` says so of what is before an empty text. -/
def endsLine (b : Bool) (cs : List Char) : Bool :=
  (cs.getLast?.map isBreak).getD b

/-- Whether a text ends a line is up to its last character. -/
theorem endsLine_cons (b : Bool) (c : Char) (cs : List Char) :
    endsLine b (c :: cs) = endsLine (isBreak c) cs := by
  rw [endsLine, endsLine, List.getLast?_cons]
  cases cs.getLast? <;> rfl

/-- A text ends a line if its last character is a break. -/
theorem any_getLast? (hne : cs ≠ []) : cs.getLast?.any isBreak = endsLine true cs := by
  rw [endsLine]
  cases hlast : cs.getLast? with
  | none => exact absurd (List.getLast?_eq_none_iff.mp hlast) hne
  | some c => rfl

/-- A break within a line of a block ends the line. -/
theorem scanBlockLines_inLine_break (chomp : Chomp) (margin : Nat) (p : Position)
    (tail : List Char) (h : t.Ready indent false) (hc : isPrintable c = true)
    (hbreak : isBreak c = true) :
    ∃ t' : BlockText, t'.Ready indent true ∧ t'.content = t.content ++ [c] ∧ t'.taken = t.taken ∧
      scanBlockLines true chomp margin true t (glyphs p (c :: tail)) =
        scanBlockLines true chomp margin false t' (glyphs (p.after c) tail) := by
  obtain ⟨hblank, hend⟩ := h.inLine rfl
  refine ⟨{ t with lineEnd := [c] }, ⟨h.indent, nofun, fun _ hend => absurd hend nofun, ?_⟩, ?_,
    rfl, ?_⟩
  · simp [hblank, hbreak]
  · simp [BlockText.content, hblank, hend]
  · rw [glyphs_cons hc, scanBlockLines]
    simp [hbreak]

/-- Any other character of a line is taken up. -/
theorem scanBlockLines_inLine_char (h : t.Ready indent false) (hc : isPrintable c = true)
    (hbreak : isBreak c = false) :
    ∃ t' : BlockText, t'.Ready indent false ∧ t'.content = t.content ++ [c] ∧
      scanBlockLines true chomp margin true t (glyphs p (c :: tail)) =
        scanBlockLines true chomp margin true t' (glyphs (p.after c) tail) := by
  obtain ⟨hblank, hend⟩ := h.inLine rfl
  refine ⟨{ t with taken := c :: t.taken }, ⟨h.indent, h.inLine, nofun, h.breaks⟩, ?_, ?_⟩
  · simp [BlockText.content, hblank, hend]
  · rw [glyphs_cons hc, scanBlockLines]
    simp [hbreak, isEnd_of_isPrintable hc]

/-- A line without characters. -/
theorem scanBlockLines_blankLine (h : t.Ready indent true) (hc : isPrintable c = true)
    (hbreak : isBreak c = true) :
    ∃ t' : BlockText, t'.Ready indent true ∧ t'.content = t.content ++ [c] ∧
      scanBlockLines true chomp margin false t (glyphs p (c :: tail)) =
        scanBlockLines true chomp margin false t' (glyphs (p.after c) tail) := by
  refine ⟨{ t with farthest := max t.farthest p.column, blankLines := c :: t.blankLines },
    ⟨h.indent, nofun, h.lineEnd, ?_⟩, ?_, ?_⟩
  · intro d hd
    rcases List.mem_cons.mp hd with rfl | hd
    · exact hbreak
    · exact h.breaks d hd
  · simp [BlockText.content]
  · have hspace : (c == ' ') = false := by
      rw [beq_eq_false_iff_ne]
      rintro rfl
      exact absurd hbreak (by decide)
    have htab : (c == '\t') = false := by
      simpa using ne_of_isPrintable hc (by decide : isPrintable '\t' = false)
    rw [glyphs_cons hc, scanBlockLines]
    simp [hbreak, hspace, htab]

/-- Spaces in front of a line are passed, as far as it is indented. -/
theorem scanBlockLines_spaces (n : Nat) (p : Position)
    (h : ∀ indent, t.indent = some indent → p.column + n ≤ indent) :
    scanBlockLines true chomp margin false t (glyphs p (spaces n ++ tail)) =
      scanBlockLines true chomp margin false t (glyphs (p.pass (spaces n)) tail) := by
  induction n generalizing p with
  | zero => rfl
  | succ n ih =>
    have hafter : (p.after ' ').column = p.column + 1 := Position.column_after rfl
    have hstep : scanBlockLines true chomp margin false t (glyphs p (' ' :: (spaces n ++ tail))) =
        scanBlockLines true chomp margin false t (glyphs (p.after ' ') (spaces n ++ tail)) := by
      rw [glyphs_cons (by decide), scanBlockLines]
      cases hindent : t.indent with
      | none => simp
      | some indent =>
        have hlt : p.column < indent := Nat.lt_of_lt_of_le (by omega) (h indent hindent)
        simp [hlt]
    refine hstep.trans (ih _ fun indent hindent => ?_)
    have hle := h indent hindent
    omega

/-- The first character of a line. -/
theorem scanBlockLines_lineStart (h : t.Ready indent true) (hc : isPrintable c = true)
    (hbreak : isBreak c = false) (hcolumn : p.column = indent) :
    ∃ t' : BlockText, t'.Ready indent false ∧ t'.content = t.content ++ [c] ∧
      scanBlockLines true chomp margin false t (glyphs p (c :: tail)) =
        scanBlockLines true chomp margin true t' (glyphs (p.after c) tail) := by
  refine ⟨⟨some indent, max t.farthest p.column, c :: (t.blankLines ++ t.lineEnd ++ t.taken), [],
    [], isBlank c⟩, ⟨rfl, fun _ => ⟨rfl, rfl⟩, nofun, nofun⟩, ?_, ?_⟩
  · simp [BlockText.content]
  · rw [glyphs_cons hc, scanBlockLines]
    simp [hbreak, h.indent, hcolumn, isEnd_of_isPrintable hc, BlockText.join]

/-- **The lines of a literal block are read as the text that they were written for.** -/
theorem scanBlockLines_literalBody (chomp : Chomp) (margin : Nat) (tail : List Char)
    (p : Position) (h : t.Ready indent b) (hprintable : Printable cs)
    (hcolumn : b = true → p.column = 0) :
    ∃ (t' : BlockText) (q : Position),
      t'.Ready indent (endsLine b cs) ∧ t'.content = t.content ++ cs ∧
      (endsLine b cs = true → q.column = 0) ∧ p.line ≤ q.line ∧
      scanBlockLines true chomp margin (!b) t (glyphs p (literalBody indent b cs ++ tail)) =
        scanBlockLines true chomp margin (!endsLine b cs) t' (glyphs q tail) := by
  induction cs generalizing b t p with
  | nil => exact ⟨t, p, h, (List.append_nil _).symm, hcolumn, Nat.le_refl _, rfl⟩
  | cons c rest ih =>
    obtain ⟨hc, hrest⟩ := printable_cons.mp hprintable
    rw [endsLine_cons]
    have hafter : isBreak c = true → (p.after c).column = 0 := fun hbreak => by
      rw [Position.after_of_isBreak hbreak]
    -- it is enough to read the first character
    suffices hfirst : ∃ (t' : BlockText) (q : Position), t'.Ready indent (isBreak c) ∧
        t'.content = t.content ++ [c] ∧ (isBreak c = true → q.column = 0) ∧ p.line ≤ q.line ∧
        scanBlockLines true chomp margin (!b) t
            (glyphs p (literalBody indent b (c :: rest) ++ tail)) =
          scanBlockLines true chomp margin (!isBreak c) t'
            (glyphs q (literalBody indent (isBreak c) rest ++ tail)) by
      obtain ⟨t₁, q₁, hready₁, hcontent₁, hcolumn₁, hline₁, hscan₁⟩ := hfirst
      obtain ⟨t₂, q₂, hready₂, hcontent₂, hcolumn₂, hline₂, hscan₂⟩ := ih q₁ hready₁ hrest hcolumn₁
      refine ⟨t₂, q₂, hready₂, ?_, hcolumn₂, Nat.le_trans hline₁ hline₂, hscan₁.trans hscan₂⟩
      rw [hcontent₂, hcontent₁, List.append_assoc]
      rfl
    cases hbreak : isBreak c with
    | true =>
      have hbody : literalBody indent b (c :: rest) = c :: literalBody indent true rest := by
        simp [literalBody, hbreak]
      rw [hbody]
      cases b with
      | true =>
        obtain ⟨t', hready, hcontent, hscan⟩ := scanBlockLines_blankLine h hc hbreak
        exact ⟨t', _, hready, hcontent, fun _ => hafter hbreak, Position.line_le_after, hscan⟩
      | false =>
        obtain ⟨t', hready, hcontent, -, hscan⟩ :=
          scanBlockLines_inLine_break chomp margin p _ h hc hbreak
        exact ⟨t', _, hready, hcontent, fun _ => hafter hbreak, Position.line_le_after, hscan⟩
    | false =>
      cases b with
      | true =>
        have hbody : literalBody indent true (c :: rest) ++ tail =
            spaces indent ++ c :: (literalBody indent false rest ++ tail) := by
          simp [literalBody, hbreak]
        have hindentation : (p.pass (spaces indent)).column = indent := by
          rw [Position.column_pass_spaces, hcolumn rfl, Nat.zero_add]
        obtain ⟨t', hready, hcontent, hscan⟩ := scanBlockLines_lineStart h hc hbreak hindentation
        refine ⟨t', (p.pass (spaces indent)).after c, hready, hcontent, nofun,
          Nat.le_trans Position.line_le_pass Position.line_le_after, ?_⟩
        rw [hbody]
        refine Eq.trans (scanBlockLines_spaces indent p fun n hn => ?_) hscan
        rw [h.indent, Option.some.injEq] at hn
        exact Nat.le_of_eq (by rw [hcolumn rfl, hn, Nat.zero_add])
      | false =>
        have hbody : literalBody indent false (c :: rest) ++ tail =
            c :: (literalBody indent false rest ++ tail) := by
          simp [literalBody, hbreak]
        obtain ⟨t', hready, hcontent, hscan⟩ := scanBlockLines_inLine_char h hc hbreak
        rw [hbody]
        exact ⟨t', _, hready, hcontent, nofun, Position.line_le_after, hscan⟩

/-! ### The end of a block -/

/-- A line that is not indented as far ends the block. -/
theorem scanBlockLines_end (h : t.Ready indent true) (hcolumn : p.column = 0) (hk : k < indent)
    (hrest : Opening rest) :
    scanBlockLines true chomp margin false t (glyphs p (spaces k ++ rest)) =
      .ok (t.finish chomp, glyphs (p.pass (spaces k)) rest) := by
  have hspaces : ∀ n, t.indent = some n → p.column + k ≤ n := by
    intro n hn
    rw [h.indent, Option.some.injEq] at hn
    omega
  have hk' : (p.pass (spaces k)).column = k := by
    rw [Position.column_pass_spaces, hcolumn, Nat.zero_add]
  rw [scanBlockLines_spaces k p hspaces]
  cases rest with
  | nil =>
    rw [glyphs_nil, scanBlockLines]
    simp only [Position.char_glyph]
    cases chomp <;> simp [isBreak, isEnd, BlockText.finish]
  | cons c rest =>
    obtain ⟨hc, hbreak, hspace, -⟩ := hrest c rfl
    have htab : c ≠ '\t' := ne_of_isPrintable hc (by decide)
    rw [glyphs_cons hc, scanBlockLines]
    cases chomp <;>
      simp [h.indent, hbreak, hspace, htab, hk', Nat.ne_of_lt hk, BlockText.finish]

/-- With one line end at the end, as much as that is all there is to keep. -/
theorem BlockText.Ready.finish_clip (h : t.Ready indent true) {before : List Char} {d : Char}
    (hcontent : t.content = before ++ [d, c]) (hd : isBreak d = false) :
    t.finish .clip = t.content := by
  have hreverse : t.blankLines ++ t.lineEnd ++ t.taken = c :: d :: before.reverse := by
    rw [← List.reverse_reverse (t.blankLines ++ t.lineEnd ++ t.taken)]
    show t.content.reverse = _
    simp [hcontent]
  suffices hblank : t.blankLines = [] by simp [BlockText.finish, BlockText.content, hblank]
  have hnot : d ∉ t.blankLines ++ t.lineEnd := fun hmem =>
    absurd ((h.breaks d hmem).symm.trans hd) nofun
  cases hblank : t.blankLines with
  | nil => rfl
  | cons x more =>
    rw [hblank, List.cons_append, List.cons_append, List.cons.injEq] at hreverse
    cases hmore : more ++ t.lineEnd with
    | nil =>
      have htaken := h.lineEnd rfl (List.append_eq_nil_iff.mp hmore).2
      rw [hmore, htaken] at hreverse
      exact absurd hreverse.2 nofun
    | cons y others =>
      rw [hmore, List.cons_append, List.cons.injEq] at hreverse
      refine absurd ?_ hnot
      rw [hblank, List.cons_append, hmore, hreverse.2.1]
      simp

/-- A line end that was added is dropped. -/
theorem BlockText.finish_strip {t' : BlockText} (h : t.Ready indent false)
    (ht : t'.taken = t.taken) : t'.finish .strip = t.content := by
  obtain ⟨hblank, hend⟩ := h.inLine rfl
  simp [BlockText.finish, BlockText.content, hblank, hend, ht]

/-! ### Whole blocks -/

/-- The chomping leaves the line ends that the text has at its end. -/
def Chomp.Fits (cs : List Char) : Chomp → Prop
  | .strip => endsLine true cs = false
  | .clip => endsLine true cs = true ∧
      ∃ before d c, cs = before ++ [d, c] ∧ isBreak d = false
  | .keep => endsLine true cs = true

/-- A block before its first line, if its indentation is given or not. -/
def BlockText.start (indent : Option Nat) : BlockText := ⟨indent, 0, [], [], [], false⟩

/-- The first line shows the indentation unless the header gives it. -/
theorem scanBlockLines_start {hint : Option Nat} (chomp : Chomp) (tail : List Char)
    (hcolumn : p.column = 0) (hprintable : Printable cs) (hne : cs ≠ [])
    (hhint : hint = some (margin + 1) ∨
      hint = none ∧ ∀ c ∈ cs.head?, isBreak c = false ∧ c ≠ ' ') :
    ∃ (t' : BlockText) (q : Position),
      t'.Ready (margin + 1) (endsLine true cs) ∧ t'.content = cs ∧
      (endsLine true cs = true → q.column = 0) ∧ p.line ≤ q.line ∧
      scanBlockLines true chomp margin false (.start hint)
          (glyphs p (literalBody (margin + 1) true cs ++ tail)) =
        scanBlockLines true chomp margin (!endsLine true cs) t'
          (glyphs q tail) := by
  rcases hhint with rfl | ⟨rfl, hhead⟩
  · have hstart : (BlockText.start (some (margin + 1))).Ready (margin + 1) true :=
      ⟨rfl, nofun, fun _ _ => rfl, nofun⟩
    exact scanBlockLines_literalBody chomp margin tail p hstart hprintable fun _ => hcolumn
  · obtain ⟨c, rest, rfl⟩ := List.exists_cons_of_ne_nil hne
    obtain ⟨hc, hrest⟩ := printable_cons.mp hprintable
    obtain ⟨hbreak, hspace⟩ := hhead c rfl
    have htab : c ≠ '\t' := ne_of_isPrintable hc (by decide)
    have hbody : literalBody (margin + 1) true (c :: rest) ++ tail =
        spaces (margin + 1) ++ c :: (literalBody (margin + 1) false rest ++ tail) := by
      simp [literalBody, hbreak]
    have hindentation : (p.pass (spaces (margin + 1))).column = margin + 1 := by
      rw [Position.column_pass_spaces, hcolumn, Nat.zero_add]
    let first : BlockText := ⟨some (margin + 1), margin + 1, [c], [], [], isBlank c⟩
    have hready : first.Ready (margin + 1) false := ⟨rfl, fun _ => ⟨rfl, rfl⟩, nofun, nofun⟩
    have hfirst : scanBlockLines true chomp margin false (.start none)
        (glyphs (p.pass (spaces (margin + 1)))
          (c :: (literalBody (margin + 1) false rest ++ tail))) =
          scanBlockLines true chomp margin true first
            (glyphs ((p.pass (spaces (margin + 1))).after c)
              (literalBody (margin + 1) false rest ++ tail)) := by
      rw [glyphs_cons hc, scanBlockLines]
      simp [first, BlockText.start, hbreak, hspace, htab, hindentation, isEnd_of_isPrintable hc,
        BlockText.join]
    obtain ⟨t', q, hready', hcontent, hcolumn', hline, hscan⟩ :=
      scanBlockLines_literalBody chomp margin tail ((p.pass (spaces (margin + 1))).after c) hready
        hrest nofun
    rw [endsLine_cons, hbreak, hbody, scanBlockLines_spaces (margin + 1) p
      fun n (hnone : none = some n) => absurd hnone nofun]
    exact ⟨t', q, hready', hcontent, hcolumn',
      Nat.le_trans (Nat.le_trans Position.line_le_pass Position.line_le_after) hline,
      hfirst.trans hscan⟩

/-- **The lines of a block and the line after it.** -/
theorem scanBlockLines_literal {hint : Option Nat} (hcolumn : p.column = 0)
    (hprintable : Printable cs) (hne : cs ≠ [])
    (hhint : hint = some (margin + 1) ∨
      hint = none ∧ ∀ c ∈ cs.head?, isBreak c = false ∧ c ≠ ' ')
    (hchomp : chomp.Fits cs) (hk : k < margin) (hrest : Opening rest) :
    ∃ q : Position, p.line ≤ q.line ∧ q.column = 0 ∧
      scanBlockLines true chomp margin false (.start hint)
          (glyphs p (literalBody (margin + 1) true cs ++
            ((if cs.getLast?.any isBreak then [] else ['\n']) ++ (spaces k ++ rest)))) =
        .ok (cs, glyphs (q.pass (spaces k)) rest) := by
  obtain ⟨t, q, hready, hcontent, hcolumn', hline, hscan⟩ :=
    scanBlockLines_start chomp ((if cs.getLast?.any isBreak then [] else ['\n']) ++
      (spaces k ++ rest)) hcolumn hprintable hne hhint
  rw [hscan]
  have hk' : k < margin + 1 := Nat.lt_succ_of_lt hk
  rw [any_getLast? hne]
  cases hbreak : endsLine true cs with
  | true =>
    rw [hbreak] at hready hcolumn'
    refine ⟨q, hline, hcolumn' rfl, ?_⟩
    refine (scanBlockLines_end hready (hcolumn' rfl) hk' hrest).trans ?_
    have hfinish : t.finish chomp = cs := by
      cases chomp with
      | strip => exact absurd (hbreak.symm.trans hchomp) nofun
      | keep => exact hcontent
      | clip =>
        obtain ⟨-, before, d, c, hcs, hd⟩ := hchomp
        exact (hready.finish_clip (hcontent.trans hcs) hd).trans hcontent
    rw [hfinish]
  | false =>
    rw [hbreak] at hready
    obtain ⟨t', hready', -, htaken, hclosing⟩ := scanBlockLines_inLine_break chomp margin q
      (spaces k ++ rest) hready (by decide : isPrintable '\n' = true) (by decide)
    have hcolumn'' : (q.after '\n').column = 0 := by rw [Position.after_of_isBreak rfl]
    refine ⟨q.after '\n', Nat.le_trans hline Position.line_le_after, hcolumn'', ?_⟩
    refine hclosing.trans ((scanBlockLines_end hready' hcolumn'' hk' hrest).trans ?_)
    have hfinish : t'.finish chomp = cs := by
      cases chomp with
      | strip => exact (BlockText.finish_strip hready htaken).trans hcontent
      | keep => exact absurd (hbreak.symm.trans hchomp) nofun
      | clip => exact absurd (hbreak.symm.trans hchomp.1) nofun
    rw [hfinish]

/-! ### Headers -/

/-- The mark of a chomping that fits. -/
def Chomp.mark : Chomp → List Char
  | .strip => ['-']
  | .clip => []
  | .keep => ['+']

/-- The header is a bar, an indentation if the text begins with a space or a break, and the mark of
its end. -/
theorem literalHeader_eq (hne : cs ≠ []) :
    ∃ chomp : Chomp, chomp.Fits cs ∧ literalHeader cs = '|' ::
      ((if cs.head?.any fun c => c == ' ' || isBreak c then ['2'] else []) ++ chomp.mark) := by
  unfold literalHeader
  obtain ⟨before, c, rfl⟩ := (List.eq_nil_or_concat' cs).resolve_left hne
  rw [List.reverse_concat]
  rcases List.eq_nil_or_concat' before with rfl | ⟨before, d, rfl⟩
  · cases hc : isBreak c with
    | true => exact ⟨.keep, by simp [Chomp.Fits, endsLine, hc], by simp [hc, Chomp.mark]⟩
    | false => exact ⟨.strip, by simp [Chomp.Fits, endsLine, hc], by simp [hc, Chomp.mark]⟩
  · rw [List.reverse_concat]
    cases hc : isBreak c with
    | false => exact ⟨.strip, by simp [Chomp.Fits, endsLine, hc], by simp [hc, Chomp.mark]⟩
    | true =>
      cases hd : isBreak d with
      | true => exact ⟨.keep, by simp [Chomp.Fits, endsLine, hc], by simp [hc, hd, Chomp.mark]⟩
      | false =>
        refine ⟨.clip, ⟨?_, before, d, c, by simp, hd⟩, by simp [hc, hd, Chomp.mark]⟩
        simp [endsLine, hc]

/-- The indicators of a header and the line end after them. -/
theorem scanIndicators_mark (chomp : Chomp) (hint : Option Nat)
    (hhint : hint = none ∨ hint = some 2) (p : Position) (tail : List Char) :
    let header := (if hint.isSome then ['2'] else []) ++ chomp.mark
    scanIndicators (glyphs p (header ++ '\n' :: tail)) =
      .ok (⟨chomp, hint⟩, glyphs (p.pass header) ('\n' :: tail)) := by
  have hprint : isPrintable '2' = true ∧ isPrintable '-' = true ∧ isPrintable '+' = true ∧
      isPrintable '\n' = true := by decide
  obtain ⟨htwo, hstrip, hkeep, hfeed⟩ := hprint
  rcases hhint with rfl | rfl <;> cases chomp <;>
    simp [Chomp.mark, scanIndicators, glyphs_cons, htwo, hstrip, hkeep, hfeed, peek, chomp?]

/-- **A literal block is read back as its text.** -/
theorem scanBlock_literal (hmargin : margin ≠ 0) (hprintable : Printable cs) (hne : cs ≠ [])
    (hk : k < margin) (hrest : Opening rest) (p : Position) :
    ∃ q : Position, p.line ≤ q.line ∧ q.column = 0 ∧
      scanBlock true margin (glyphs p ((literalHeader cs).tail ++ '\n' ::
          (literalBody (margin + 1) true cs ++
            ((if cs.getLast?.any isBreak then [] else ['\n']) ++ (spaces k ++ rest))))) =
        .ok (cs, glyphs (q.pass (spaces k)) rest) := by
  obtain ⟨chomp, hchomp, hheader⟩ := literalHeader_eq hne
  have hint : ∃ hint : Option Nat, (hint = none ∨ hint = some 2) ∧
      (literalHeader cs).tail = (if hint.isSome then ['2'] else []) ++ chomp.mark ∧
      (hint.map (fun n => if margin = 0 then n else margin - 1 + n) = some (margin + 1) ∨
        hint.map (fun n => if margin = 0 then n else margin - 1 + n) = none ∧
          ∀ c ∈ cs.head?, isBreak c = false ∧ c ≠ ' ') := by
    rw [hheader, List.tail_cons]
    cases hlead : cs.head?.any fun c => c == ' ' || isBreak c with
    | true =>
      refine ⟨some 2, Or.inr rfl, rfl, Or.inl ?_⟩
      rw [Option.map_some, if_neg hmargin, Option.some.injEq]
      omega
    | false =>
      refine ⟨none, Or.inl rfl, rfl, Or.inr ⟨rfl, fun c hc => ?_⟩⟩
      rw [hc, Option.any_some, Bool.or_eq_false_iff, beq_eq_false_iff_ne] at hlead
      exact hlead.symm
  obtain ⟨hint, hcases, htail, hindent⟩ := hint
  rw [htail]
  generalize hlines : literalBody (margin + 1) true cs ++
    ((if cs.getLast?.any isBreak then [] else ['\n']) ++ (spaces k ++ rest)) = lines
  let header := (if hint.isSome then ['2'] else []) ++ chomp.mark
  obtain ⟨q, hline, hcolumn, hscan⟩ := scanBlockLines_literal
    (p := (p.pass header).after '\n') (by rw [Position.after_of_isBreak rfl]) hprintable hne hindent
    hchomp hk hrest
  have hline' : p.line ≤ q.line :=
    Nat.le_trans (Nat.le_trans Position.line_le_pass Position.line_le_after) hline
  refine ⟨q, hline', hcolumn, ?_⟩
  have hlineEnd : scanLineEnd .blockHeader (glyphs (p.pass header) ('\n' :: lines)) =
      .ok (glyphs ((p.pass header).after '\n') lines) := by
    rw [glyphs_cons (by decide)]
    rfl
  rw [scanBlock, scanIndicators_mark chomp hint hcases p lines, Except.ok_bind]
  simp only
  rw [hlineEnd, Except.ok_bind, ← hlines]
  exact hscan

end CidrCover.Yaml
