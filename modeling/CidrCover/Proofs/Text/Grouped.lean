import CidrCover.Proofs.Text.Basic

/-!
# Grouped numerals can be read back

Commas are put into a numeral from its end. A text falls into groups there: groups of three
characters, each with a comma after it, and a last one of one to three (`exists_commas_eq`). From
its beginning, a grouped numeral is a first group of one to three digits and further ones of a comma
and three digits (`exists_groups_grouped`). Without its commas it is the numeral that it was made
from (`Groups.filter_eq`), so it stands for one number only. The places of the commas can be told
from the end one by one as well: there is one before each digit whose place is a multiple of three
(`commas_eq`).

* **Grouped numerals** (`groupedText_faithful`): what is left without the commas, where the commas
  are, and that the number comes back.
-/

namespace CidrCover.Text

variable {cs first : List Char} {rest : List (List Char)}

/-- A first group of one to three digits, and further ones of three with a comma before each. -/
structure Groups (cs first : List Char) (rest : List (List Char)) : Prop where
  text : cs = first ++ rest.flatMap (',' :: ·)
  first_length : 1 ≤ first.length ∧ first.length ≤ 3
  rest_length : ∀ group ∈ rest, group.length = 3
  digits : ∀ c ∈ first ++ rest.flatten, IsDigit c

/-! ### Commas by their places -/

/-- A character at a place, counted from zero: a comma comes before it at every third place, the
first one apart. -/
def placed (c : Char) (i : Nat) : List Char :=
  if 0 < i ∧ i % 3 = 0 then [',', c] else [c]

/-- Within a group no comma comes before a character. -/
theorem placed_of_mod_ne {i : Nat} (h : i % 3 ≠ 0) (c : Char) : placed c i = [c] :=
  if_neg fun hcomma => h hcomma.2

/-- Where a group begins a comma comes before the character, unless it is the first group. -/
theorem placed_of_mod {i : Nat} (h : i % 3 = 0) (c : Char) :
    placed c i = (if 0 < i then [','] else []) ++ [c] := by
  unfold placed
  split_ifs with hcomma hpos hpos
  · rfl
  · exact absurd hcomma.1 hpos
  · exact absurd ⟨hpos, h⟩ hcomma
  · rfl

/-- From a place on at which a group begins, the commas of the places are those of the groups. -/
theorem flatMap_placed {k : Nat} (hk : k % 3 = 0) (hne : cs ≠ []) :
    (cs.zipIdx k).flatMap (fun d => placed d.1 d.2) =
      (if 0 < k then [','] else []) ++ commas cs := by
  have hone (c : Char) : placed c (k + 1) = [c] := placed_of_mod_ne (by omega) c
  have htwo (c : Char) : placed c (k + 1 + 1) = [c] := placed_of_mod_ne (by omega) c
  induction cs using commas.induct generalizing k with
  | case1 a b c d rest ih =>
    have hnext := ih (k := k + 3) (by omega) (List.cons_ne_nil d rest)
      (placed_of_mod_ne (by omega)) (placed_of_mod_ne (by omega))
    rw [if_pos (Nat.succ_pos _)] at hnext
    simp only [List.zipIdx_cons, List.flatMap_cons, placed_of_mod hk, hone, htwo] at hnext ⊢
    rw [hnext, commas]
    simp only [List.append_assoc, List.cons_append, List.nil_append]
  | case2 short hshort =>
    rw [commas.eq_2 short hshort]
    match short with
    | [] => exact absurd rfl hne
    | [a] => simp [placed_of_mod hk]
    | [a, b] => simp [placed_of_mod hk, hone]
    | [a, b, c] => simp [placed_of_mod hk, hone, htwo]
    | a :: b :: c :: d :: rest => exact (hshort a b c d rest rfl).elim

/-- **Groups and places agree**: a comma after every third character, as long as another one
follows, is a comma before every character at a place that is a multiple of three, but for the first.
-/
theorem commas_eq (cs : List Char) : commas cs = cs.zipIdx.flatMap fun d => placed d.1 d.2 := by
  cases cs with
  | nil => rfl
  | cons c cs => exact (flatMap_placed (k := 0) rfl (List.cons_ne_nil c cs)).symm

/-! ### Commas from the end -/

/-- Commas are put between groups of three characters, and nothing else is changed. -/
theorem exists_commas_eq (hne : cs ≠ []) :
    ∃ (groups : List (List Char)) (last : List Char), cs = groups.flatten ++ last ∧
      commas cs = groups.flatMap (· ++ [',']) ++ last ∧ (∀ group ∈ groups, group.length = 3) ∧
      1 ≤ last.length ∧ last.length ≤ 3 := by
  induction cs using commas.induct with
  | case1 a b c d rest ih =>
    obtain ⟨groups, last, htext, hcommas, hgroups, hlast⟩ := ih (List.cons_ne_nil d rest)
    refine ⟨[a, b, c] :: groups, last, ?_, ?_, List.forall_mem_cons.mpr ⟨rfl, hgroups⟩, hlast⟩
    · rw [htext]
      rfl
    · rw [commas, hcommas]
      rfl
  | case2 short hshort =>
    have hlength : short.length ≤ 3 := by
      match short with
      | [] | [_] | [_, _] | [_, _, _] => simp
      | a :: b :: c :: d :: rest => exact (hshort a b c d rest rfl).elim
    exact ⟨[], short, rfl, commas.eq_2 short hshort, List.forall_mem_nil _,
      List.length_pos_iff.mpr hne, hlength⟩

/-! ### Groups from the beginning -/

/-- **The form of a grouped numeral.** -/
theorem exists_groups_grouped (n : Nat) :
    ∃ first rest, Groups (grouped n) first rest ∧ first ++ rest.flatten = numeral n := by
  have hne : (numeral n).reverse ≠ [] := mt List.reverse_eq_nil_iff.mp (numeral_ne_nil n)
  obtain ⟨groups, last, htext, hcommas, hgroups, hlast⟩ := exists_commas_eq hne
  have hnumeral : last.reverse ++ (groups.map List.reverse).reverse.flatten = numeral n := by
    rw [← List.reverse_flatten, ← List.reverse_append, ← htext, List.reverse_reverse]
  refine ⟨last.reverse, (groups.map List.reverse).reverse, ⟨?_, ?_, ?_, ?_⟩, hnumeral⟩
  · rw [grouped, hcommas, List.reverse_append, List.reverse_flatMap, ← List.map_reverse,
      List.flatMap_map]
    simp [Function.comp_def]
  · rwa [List.length_reverse]
  · intro group hgroup
    rw [List.mem_reverse, List.mem_map] at hgroup
    obtain ⟨part, hpart, rfl⟩ := hgroup
    rw [List.length_reverse, hgroups part hpart]
  · intro c hc
    rw [hnumeral] at hc
    exact isDigit_iff.mp (isDigit_of_mem_numeral hc)

/-- A digit is no comma. -/
theorem ne_comma_of_isDigit {c : Char} (h : IsDigit c) : c ≠ ',' := by
  rintro rfl
  exact absurd h (by unfold IsDigit; decide)

/-- What is left without the commas. -/
theorem Groups.filter_eq (h : Groups cs first rest) :
    cs.filter (· ≠ ',') = first ++ rest.flatten := by
  have hdigits : ∀ c ∈ first ++ rest.flatten, decide (c ≠ ',') = true := by
    intro c hc
    exact decide_eq_true (ne_comma_of_isDigit (h.digits c hc))
  have hcommas : (rest.flatMap (',' :: ·)).filter (· ≠ ',') = rest.flatten.filter (· ≠ ',') := by
    rw [List.filter_flatMap, List.filter_flatten, List.flatMap_def]
    simp
  rw [h.text, List.filter_append, hcommas, ← List.filter_append, List.filter_eq_self.mpr hdigits]

/-- Without its commas a grouped numeral is the numeral. -/
theorem filter_grouped (n : Nat) : (grouped n).filter (· ≠ ',') = numeral n := by
  obtain ⟨first, rest, hgroups, hnumeral⟩ := exists_groups_grouped n
  rw [hgroups.filter_eq, hnumeral]

/-- **Grouped numerals can be read back.** Without its commas a grouped numeral is a numeral without
superfluous zeros, that of the number. It is a group of one to three digits, followed by groups of a
comma and three digits. So no two numbers are written alike, and reading the digits gives the number
back. Counted from the end, a comma stands at every place that is a multiple of three, but for the
first. -/
theorem groupedText_faithful :
    (∀ n : Nat, (groupedText n).toList.filter (· ≠ ',') = numeral n ∧ Digits (numeral n) ∧
      (numeral n = ['0'] ∨ (numeral n).head? ≠ some '0')) ∧
    (∀ n : Nat, ∃ first rest, Groups (groupedText n).toList first rest) ∧
    Function.Injective groupedText ∧
    (∀ n : Nat, value ((groupedText n).toList.filter (· ≠ ',')) = n) ∧
    ∀ n : Nat, (groupedText n).toList =
      ((numeral n).reverse.zipIdx.flatMap fun d => placed d.1 d.2).reverse := by
  have htext : ∀ n, (groupedText n).toList = grouped n := fun n => String.toList_ofList
  have hvalue : ∀ n, value ((groupedText n).toList.filter (· ≠ ',')) = n := by
    intro n
    rw [htext, filter_grouped, value_numeral]
  refine ⟨fun n => ⟨?_, digits_numeral n, ?_⟩, fun n => ?_, ?_, hvalue, fun n => ?_⟩
  · rw [htext, filter_grouped]
  · exact or_iff_not_imp_right.mpr fun hzero => numeral_eq_of_head? (not_ne_iff.mp hzero)
  · obtain ⟨first, rest, hgroups, -⟩ := exists_groups_grouped n
    rw [htext]
    exact ⟨first, rest, hgroups⟩
  · intro m n h
    rw [← hvalue m, h, hvalue]
  · rw [htext, grouped, commas_eq]

-- the commas stand before every third digit from the right
example : groupedText 4294967296 = "4,294,967,296" := by decide

end CidrCover.Text
