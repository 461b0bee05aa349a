import CidrCover.Proofs.Text.Basic
import CidrCover.Proofs.Yaml.Plain
import CidrCover.Text.Basic
import CidrCover.Yaml.Plain

/-!
# Words and numerals without quotes

Words are plain texts (`plainText_of_word`), and so are numerals, which stand for their numbers
(`unsigned?_numeral`).
-/

namespace CidrCover.Yaml

open Text (numeral IsDigit)

variable {c : Char} {cs : List Char} {n : Nat}

/-! ### Words -/

/-- A character of a word: an ASCII letter or digit, or an underscore. -/
def isWordChar (c : Char) : Bool :=
  c.isAlphanum || c == '_'

/-- The characters of a word are ASCII. -/
theorem toNat_lt_of_isWordChar (h : isWordChar c = true) : c.toNat < 128 := by
  simp only [isWordChar, Char.isAlphanum, Bool.or_eq_true, beq_iff_eq, Text.isAlpha_iff,
    Text.isDigit_iff, Text.IsLetter, Text.IsDigit] at h
  rcases h with ((⟨-, h⟩ | ⟨-, h⟩) | ⟨-, h⟩) | rfl
  · exact Nat.lt_of_le_of_lt h (by decide)
  · exact Nat.lt_of_le_of_lt h (by decide)
  · exact Nat.lt_of_le_of_lt h (by decide)
  · decide

/-- A word has no character that could make it something else than a plain text. -/
theorem of_isWordChar (h : isWordChar c = true) :
    isPrintable c = true ∧ isRawGap c = false ∧ isLeadingIndicator c = false ∧ c ≠ '-' ∧ c ≠ '.' ∧
      c ≠ ':' ∧ c ≠ '?' ∧ c ≠ '#' := by
  have hcodes : ∀ n < 128, isWordChar (Char.ofNat n) = true →
      isPrintable (Char.ofNat n) = true ∧ isRawGap (Char.ofNat n) = false ∧
        isLeadingIndicator (Char.ofNat n) = false ∧ Char.ofNat n ≠ '-' ∧ Char.ofNat n ≠ '.' ∧
        Char.ofNat n ≠ ':' ∧ Char.ofNat n ≠ '?' ∧ Char.ofNat n ≠ '#' := by
    decide +kernel
  have hc := hcodes c.toNat (toNat_lt_of_isWordChar h)
  rw [Char.ofNat_toNat] at hc
  exact hc h

/-- A word has no indicator in it. -/
theorem hasInnerIndicator_of_word (h : cs.all isWordChar = true) (before : Char) :
    hasInnerIndicator before cs = false := by
  induction cs generalizing before with
  | nil => rfl
  | cons c cs ih =>
    rw [List.all_cons, Bool.and_eq_true] at h
    obtain ⟨-, -, -, -, -, hcolon, -, hsign⟩ := of_isWordChar h.1
    exact hasInnerIndicator_cons.mpr
      ⟨fun hc => hcolon hc.1, fun hc => hsign hc.1, ih h.2 c⟩

/-- A word is a plain text. -/
theorem plainText_of_word (hne : cs ≠ []) (h : cs.all isWordChar = true) : PlainText cs := by
  have hchars : ∀ c ∈ cs, isWordChar c = true := List.all_eq_true.mp h
  have hgap : ∀ c ∈ cs, c ≠ ' ' := by
    rintro c hc rfl
    exact absurd (hchars ' ' hc) (by decide)
  refine ⟨hne, fun c hc => (of_isWordChar (hchars c hc)).1, ?_, ?_, ?_, ?_⟩
  · intro c hc
    have hraw := (of_isWordChar (hchars c hc)).2.1
    simp only [isRawGap, isRawBreak, Bool.or_eq_false_iff] at hraw
    exact hraw.1.2.2
  · obtain ⟨c, rest, rfl⟩ := List.exists_cons_of_ne_nil hne
    rw [List.all_cons, Bool.and_eq_true] at h
    obtain ⟨-, -, hleading, hdash, hdot, hcolon, hquestion, -⟩ := of_isWordChar h.1
    simp [hasIndicator, hleading, hasInnerIndicator_of_word h.2, List.isPrefixOf, hdash.symm,
      hdot.symm, hdash, hcolon, hquestion]
  · intro hhead
    exact hgap ' ' (List.mem_of_mem_head? hhead) rfl
  · intro hlast
    exact hgap ' ' (List.mem_of_mem_getLast? hlast) rfl

/-! ### Numerals -/

/-- A digit can stand in a word. -/
theorem isWordChar_of_isDigit (h : c.isDigit = true) : isWordChar c = true := by
  simp [isWordChar, Char.isAlphanum, h]

/-- A numeral is a plain text. -/
theorem plainText_numeral (n : Nat) : PlainText (numeral n) :=
  plainText_of_word (Text.numeral_ne_nil n)
    (List.all_eq_true.mpr fun _ hc => isWordChar_of_isDigit (Text.isDigit_of_mem_numeral hc))

/-- A digit has its value as a hexadecimal digit as well, and that is less than ten. -/
theorem hexValue?_of_isDigit (h : c.isDigit = true) :
    hexValue? c = some (c.toNat - 48) ∧ c.toNat - 48 < 10 := by
  have hdigit : '0' ≤ c ∧ c ≤ '9' := Text.isDigit_iff.mp h
  have hle : c.toNat ≤ 57 := hdigit.2
  refine ⟨?_, by omega⟩
  simp [hexValue?, hdigit]

/-- Digits are added up to the number that they stand for. -/
theorem addDigits_of_digits (h : ∀ c ∈ cs, c.isDigit = true) (n : Nat) :
    addDigits 10 n cs = some (Nat.ofDigitChars 10 cs n) := by
  induction cs generalizing n with
  | nil => rfl
  | cons c cs ih =>
    obtain ⟨hc, hcs⟩ := List.forall_mem_cons.mp h
    obtain ⟨hvalue, hlt⟩ := hexValue?_of_isDigit hc
    rw [addDigits, hvalue]
    simp only [Option.bind_eq_bind, Option.bind_some, hlt, if_true]
    rw [ih hcs, Nat.ofDigitChars_cons, Nat.mul_comm n 10]
    rfl

/-- **A numeral stands for its number.** -/
theorem unsigned?_numeral {width : Nat} (h : n < 2 ^ width) :
    unsigned? width (numeral n) = some n := by
  have hdigits : digits? 10 (numeral n) = some n := by
    rw [digits?, if_neg (by simpa using Text.numeral_ne_nil n),
      addDigits_of_digits fun c => Text.isDigit_of_mem_numeral]
    exact congrArg some (Text.value_numeral n)
  have hparts : dropPlus (numeral n) = numeral n ∧ splitBase (numeral n) = (10, numeral n) ∧
      hasLeadingZero (numeral n) = false := by
    rcases Text.numeral_cases n with hn | ⟨c, rest, hn, hc, hzero⟩
    · rw [hn]
      decide
    · have hne : ∀ d, d.isDigit = false → c ≠ d := by
        rintro d hd rfl
        exact absurd (hc.symm.trans hd) nofun
      rw [hn]
      simp [dropPlus, splitBase, hasLeadingZero, dropSign, hzero, hne '+' rfl, hne '-' rfl]
  rw [unsigned?, magnitude?, hparts.1, hparts.2.1]
  simp only [hparts.2.2, hdigits]
  simpa using h

end CidrCover.Yaml
