import CidrCover.Text.Basic
import Mathlib.Data.List.DropRight
import Mathlib.Data.List.TakeDrop

/-!
# Characters and texts

The ASCII classes as ranges of characters (`isDigit_iff`, `isAlpha_iff`), and numerals as runs of
digits (`isNumeral_iff`), of which only that of zero begins with a zero (`numeral_cases`). Trimming
drops the blanks around a text (`trim_append_append`), and a text that was trimmed is left as it is
(`trim_trim`), so it makes no difference how often an entry is trimmed on its way. A text is parted
where a class of characters ends in one way only (`span_eq_cons_iff`), and a character more at its
end belongs to its last part (`exists_splitOn_append_singleton`). What is in a text that was joined
is in one of its parts or in the mark between them (`mem_or_exists_of_mem_intercalate`), and `n`
lines without line feeds have `n - 1` line feeds between them (`count_intercalate`).
-/

namespace CidrCover.Text

/-! ### ASCII classes -/

/-- An ASCII digit. -/
def IsDigit (c : Char) : Prop :=
  '0' ≤ c ∧ c ≤ '9'

/-- An ASCII letter. -/
def IsLetter (c : Char) : Prop :=
  'A' ≤ c ∧ c ≤ 'Z' ∨ 'a' ≤ c ∧ c ≤ 'z'

/-- The digits are the ten digits of ASCII. -/
theorem isDigit_iff {c : Char} : c.isDigit = true ↔ IsDigit c := by
  simp [Char.isDigit, IsDigit, Char.le_def]

/-- The letters are the 52 letters of ASCII. -/
theorem isAlpha_iff {c : Char} : c.isAlpha = true ↔ IsLetter c := by
  have hupper : c.isUpper = true ↔ 'A' ≤ c ∧ c ≤ 'Z' := decide_eq_true_iff
  have hlower : c.isLower = true ↔ 'a' ≤ c ∧ c ≤ 'z' := by
    show (decide ('a' ≤ c) && decide (c ≤ 'z')) = true ↔ _
    simp
  show (c.isUpper || c.isLower) = true ↔ _
  rw [Bool.or_eq_true, hupper, hlower]
  rfl

/-- One or more ASCII digits, and nothing else. -/
def Digits (cs : List Char) : Prop :=
  cs ≠ [] ∧ ∀ c ∈ cs, IsDigit c

/-- A numeral is a run of digits with one digit at least. -/
theorem isNumeral_iff {cs : List Char} : isNumeral cs = true ↔ Digits cs := by
  simp [isNumeral, Digits, isDigit_iff]

/-- What was written for a number is a numeral. -/
theorem digits_numeral (n : Nat) : Digits (numeral n) :=
  isNumeral_iff.mp (isNumeral_numeral n)

instance : DecidablePred Digits := fun _ => decidable_of_iff _ isNumeral_iff

/-! ### Numerals -/

/-- Only the numeral of zero begins with a zero. -/
theorem eq_zero_of_head?_numeral {n : Nat} (h : (numeral n).head? = some '0') : n = 0 := by
  induction n using Nat.strongRecOn with
  | ind n ih =>
    have hcases : numeral n = if n < 10 then [n.digitChar] else
        numeral (n / 10) ++ [(n % 10).digitChar] := Nat.toDigits_eq_if (by decide)
    rw [hcases] at h
    by_cases hn : n < 10
    · have hdigits : ∀ m < 10, m.digitChar = '0' → m = 0 := by decide
      rw [if_pos hn] at h
      exact hdigits n hn (Option.some.inj h)
    · rw [if_neg hn, List.head?_append_of_ne_nil _ (numeral_ne_nil _)] at h
      have hzero := ih (n / 10) (by omega) h
      omega

/-- Only the numeral of zero begins with a zero. -/
theorem numeral_eq_of_head? {n : Nat} (h : (numeral n).head? = some '0') : numeral n = ['0'] := by
  rw [eq_zero_of_head?_numeral h]
  rfl

/-- A numeral has no sign, no mark of a base and no superfluous zero. -/
theorem numeral_cases (n : Nat) :
    numeral n = ['0'] ∨ ∃ c rest, numeral n = c :: rest ∧ c.isDigit = true ∧ c ≠ '0' := by
  obtain ⟨c, rest, hn⟩ := List.exists_cons_of_ne_nil (numeral_ne_nil n)
  have hc : c.isDigit = true := isDigit_of_mem_numeral (by rw [hn]; exact List.mem_cons_self)
  by_cases hzero : c = '0'
  · exact Or.inl (numeral_eq_of_head? (by rw [hn, hzero]; rfl))
  · exact Or.inr ⟨c, rest, hn, hc, hzero⟩

/-! ### Trimming -/

/-- Trimming is to drop blanks from the left and then from the right. -/
theorem trim_eq_rdropWhile (cs : List Char) : trim cs = (cs.dropWhile isBlank).rdropWhile isBlank :=
  rfl

/-- A text that begins with no blank still does so when it has been cut at its end. -/
theorem dropWhile_rdropWhile_dropWhile (cs : List Char) :
    ((cs.dropWhile isBlank).rdropWhile isBlank).dropWhile isBlank =
      (cs.dropWhile isBlank).rdropWhile isBlank := by
  rw [List.dropWhile_eq_self_iff]
  intro hpos
  have hhead := List.rdropWhile_prefix isBlank (cs.dropWhile isBlank)
  rw [hhead.getElem hpos]
  apply List.dropWhile_get_zero_not

/-- What has been trimmed has no blanks to trim. -/
@[simp] theorem trim_trim (cs : List Char) : trim (trim cs) = trim cs := by
  rw [trim_eq_rdropWhile, trim_eq_rdropWhile, dropWhile_rdropWhile_dropWhile,
    List.rdropWhile_idempotent]

/-- Blanks around a text are dropped. -/
theorem trim_append_append {before after : List Char} (hbefore : ∀ c ∈ before, isBlank c = true)
    (hafter : ∀ c ∈ after, isBlank c = true) (cs : List Char) :
    trim (before ++ cs ++ after) = trim cs := by
  have hreverse : ∀ c ∈ after.reverse, isBlank c = true := by
    intro c hc
    exact hafter c (List.mem_reverse.mp hc)
  have hend : ∀ part, trimEnd (part ++ after) = trimEnd part := by
    intro part
    rw [trimEnd, trimEnd, List.reverse_append, List.dropWhile_append_of_pos hreverse]
  rw [trim, trim, List.append_assoc, List.dropWhile_append_of_pos hbefore, List.dropWhile_append]
  split
  · next h =>
    -- nothing is left of a text of blanks
    rw [List.isEmpty_iff.mp h, List.dropWhile_eq_nil_iff.mpr hafter]
  · exact hend _

/-- A blank at the end makes no difference. -/
theorem trim_append_singleton {c : Char} (hc : isBlank c = true) (cs : List Char) :
    trim (cs ++ [c]) = trim cs :=
  trim_append_append (List.forall_mem_nil _) (List.forall_mem_singleton.mpr hc) cs

/-- Nothing is left of blanks. -/
theorem trim_of_blank {cs : List Char} (h : ∀ c ∈ cs, isBlank c = true) : trim cs = [] := by
  rw [trim, List.dropWhile_eq_nil_iff.mpr h]
  rfl

/-- What begins with another character than a blank begins with that when it has been trimmed at its
end. -/
theorem trimEnd_cons {c : Char} (hc : isBlank c = false) (cs : List Char) :
    trimEnd (c :: cs) = c :: trimEnd cs := by
  rw [trimEnd, trimEnd, List.reverse_cons, List.dropWhile_append]
  split
  · next h =>
    rw [List.isEmpty_iff.mp h]
    simp [hc]
  · simp

/-- A text begins with the first character that is no blank. -/
theorem trim_append_cons {before : List Char} {c : Char} (hbefore : ∀ d ∈ before, isBlank d = true)
    (hc : isBlank c = false) (cs : List Char) : trim (before ++ c :: cs) = c :: trimEnd cs := by
  rw [trim, List.dropWhile_append_of_pos hbefore, List.dropWhile_cons_of_neg (by simp [hc]),
    trimEnd_cons hc]

/-- A digit is no blank. -/
theorem isBlank_of_isDigit {c : Char} (h : c.isDigit = true) : isBlank c = false := by
  obtain ⟨hlow, hhigh⟩ := isDigit_iff.mp h
  have hlow : 48 ≤ c.toNat := hlow
  have hhigh : c.toNat ≤ 57 := hhigh
  simp only [isBlank, Bool.or_eq_false_iff, Bool.and_eq_false_iff, beq_eq_false_iff_ne,
    decide_eq_false_iff_not]
  omega

/-- A text without blanks is left as it is. -/
theorem trim_eq_self {cs : List Char} (h : ∀ c ∈ cs, isBlank c = false) : trim cs = cs := by
  have hkeep : ∀ part : List Char, (∀ c ∈ part, isBlank c = false) →
      part.dropWhile isBlank = part := by
    intro part hpart
    rw [List.dropWhile_eq_self_iff]
    intro hpos
    rw [hpart _ (List.getElem_mem hpos)]
    exact Bool.false_ne_true
  have hreverse : ∀ c ∈ cs.reverse, isBlank c = false := by
    intro c hc
    exact h c (List.mem_reverse.mp hc)
  rw [trim, hkeep cs h, trimEnd, hkeep _ hreverse, List.reverse_reverse]

/-- To trim a string is to trim its characters. -/
@[simp] theorem toList_trimmed (s : String) : (trimmed s).toList = trim s.toList := by
  rw [trimmed, String.toList_ofList]

/-! ### Parting and joining -/

/-- The characters before the first one outside of a class. -/
theorem span_eq_cons_iff {f : Char → Bool} {cs part rest : List Char} {mark : Char} :
    cs.span f = (part, mark :: rest) ↔
      cs = part ++ mark :: rest ∧ (∀ c ∈ part, f c = true) ∧ f mark = false := by
  rw [List.span_eq_takeWhile_dropWhile, Prod.mk.injEq]
  constructor
  · rintro ⟨rfl, hrest⟩
    have hmark := List.head?_dropWhile_not f cs
    rw [hrest] at hmark
    refine ⟨?_, fun c => List.mem_takeWhile_imp, hmark⟩
    rw [← hrest, List.takeWhile_append_dropWhile]
  · rintro ⟨rfl, hpart, hmark⟩
    simp [List.takeWhile_append_of_pos hpart, List.dropWhile_append_of_pos hpart, hmark]

/-- A character at the end belongs to the last part, unless it is the mark between the parts. -/
theorem exists_splitOn_append_singleton {α : Type} [BEq α] [LawfulBEq α] {mark x : α}
    (hx : x ≠ mark) (xs : List α) :
    ∃ parts part, xs.splitOn mark = parts ++ [part] ∧
      (xs ++ [x]).splitOn mark = parts ++ [part ++ [x]] := by
  induction xs with
  | nil => exact ⟨[], [], rfl, List.splitOn_eq_singleton (by simpa using hx.symm)⟩
  | cons y ys ih =>
    obtain ⟨parts, part, hys, hmore⟩ := ih
    rw [List.cons_append, List.splitOn_cons_eq_if_modifyHead, List.splitOn_cons_eq_if_modifyHead,
      hys, hmore]
    by_cases hy : (y == mark) = true
    · rw [if_pos hy, if_pos hy]
      exact ⟨[] :: parts, part, rfl, rfl⟩
    · rw [if_neg hy, if_neg hy]
      cases parts with
      | nil => exact ⟨[], y :: part, rfl, rfl⟩
      | cons first parts => exact ⟨(y :: first) :: parts, part, rfl, rfl⟩

/-- Parts with a mark after each of them are parted again, and nothing comes after the last one. -/
theorem splitOn_flatMap_append {mark : Char} {parts : List (List Char)}
    (h : ∀ part ∈ parts, mark ∉ part) :
    (parts.flatMap (· ++ [mark])).splitOn mark = parts ++ [[]] := by
  induction parts with
  | nil => rfl
  | cons part parts ih =>
    obtain ⟨hpart, hparts⟩ := List.forall_mem_cons.mp h
    rw [List.flatMap_cons, List.append_assoc, List.singleton_append,
      List.splitOn_append_cons_self_of_not_mem hpart, ih hparts, List.cons_append]

/-- A character of joined parts is one of the separator or of a part. -/
theorem mem_or_exists_of_mem_intercalate {d : Char} {sep : List Char} {parts : List (List Char)}
    (h : d ∈ sep.intercalate parts) : d ∈ sep ∨ ∃ part ∈ parts, d ∈ part := by
  induction parts with
  | nil => exact absurd h List.not_mem_nil
  | cons part parts ih =>
    cases parts with
    | nil =>
      rw [List.intercalate_singleton] at h
      exact Or.inr ⟨part, List.mem_cons_self, h⟩
    | cons next parts =>
      rw [List.intercalate_cons_cons, List.mem_append, List.mem_append] at h
      rcases h with (h | h) | h
      · exact Or.inr ⟨part, List.mem_cons_self, h⟩
      · exact Or.inl h
      · refine (ih h).imp_right ?_
        rintro ⟨found, hfound, hd⟩
        exact ⟨found, List.mem_cons_of_mem part hfound, hd⟩

/-- Joined parts that have no separator in them have one separator less than parts. -/
theorem count_intercalate {c : Char} {parts : List (List Char)} (h : ∀ part ∈ parts, c ∉ part) :
    ([c].intercalate parts).count c = parts.length - 1 := by
  induction parts with
  | nil => rfl
  | cons part parts ih =>
    have hpart := List.count_eq_zero.mpr (h part List.mem_cons_self)
    have hparts := ih fun next hnext => h next (List.mem_cons_of_mem part hnext)
    cases parts with
    | nil => simpa using hpart
    | cons next parts =>
      rw [List.intercalate_cons_cons, List.count_append, List.count_append, hpart, hparts]
      simp [Nat.add_comm]

end CidrCover.Text
