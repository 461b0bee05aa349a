import CidrCover.Entry.Basic
import CidrCover.Proofs.Entry.Basic
import CidrCover.Proofs.Entry.Grammar

/-!
# The shape of what can be read

`Shaped` says of a text what the filter checks: four numerals with dots between them, a slash and
one more numeral (`isShaped_iff`). The reader of prefixes goes about it the other way round, from
the slash to the dots, but the texts of its grammar are shaped (`shaped_of_parse`), and of a shaped
text it can refuse the numbers alone (`Shaped.flaw_of_checks`). So the filter keeps every entry that
can be read (`mem_accepted_of_parse`).

* **The filter and the reader agree on shape** (`sift_agreement`).
-/

namespace CidrCover

namespace Entry

variable {mark : Char} {marks cs : List Char}

/-! ### Shapes -/

/-- Four numerals with dots between them, a slash and one more numeral. -/
def Shaped (cs : List Char) : Prop :=
  ∃ a b c d len, Text.Digits a ∧ Text.Digits b ∧ Text.Digits c ∧ Text.Digits d ∧ Text.Digits len ∧
    cs = a ++ '.' :: (b ++ '.' :: (c ++ '.' :: (d ++ '/' :: len)))

/-- Where no mark is left, a shape is a numeral. -/
theorem isShaped_nil_iff : isShaped [] cs = true ↔ Text.Digits cs :=
  Text.isNumeral_iff

/-- A mark that is no digit ends the first numeral. -/
theorem isShaped_cons_iff (h : mark.isDigit = false) :
    isShaped (mark :: marks) cs = true ↔
      ∃ part rest, Text.Digits part ∧ isShaped marks rest = true ∧ cs = part ++ mark :: rest := by
  rw [isShaped]
  constructor
  · intro hshaped
    split at hshaped
    · next d part c rest hspan =>
      rw [Bool.and_eq_true, beq_iff_eq] at hshaped
      obtain ⟨rfl, hrest⟩ := hshaped
      obtain ⟨rfl, hpart, -⟩ := Text.span_eq_cons_iff.mp hspan
      refine ⟨d :: part, rest, ⟨List.cons_ne_nil _ _, ?_⟩, hrest, rfl⟩
      intro e he
      exact Text.isDigit_iff.mp (hpart e he)
    · exact absurd hshaped Bool.false_ne_true
  · rintro ⟨part, rest, ⟨hne, hpart⟩, hrest, rfl⟩
    have hspan : (part ++ mark :: rest).span Char.isDigit = (part, mark :: rest) :=
      Text.span_eq_cons_iff.mpr ⟨rfl, fun c hc => Text.isDigit_iff.mpr (hpart c hc), h⟩
    obtain ⟨d, part, rfl⟩ := List.exists_cons_of_ne_nil hne
    rw [hspan]
    simp [hrest]

/-- The test accepts the texts of the shape of an IPv4 block. -/
theorem isShaped_iff : isShaped ['.', '.', '.', '/'] cs = true ↔ Shaped cs := by
  have hdot : Char.isDigit '.' = false := rfl
  have hslash : Char.isDigit '/' = false := rfl
  simp only [isShaped_cons_iff hdot, isShaped_cons_iff hslash, isShaped_nil_iff]
  constructor
  · rintro ⟨a, _, ha, ⟨b, _, hb, ⟨c, _, hc, ⟨d, len, hd, hlen, rfl⟩, rfl⟩, rfl⟩, rfl⟩
    exact ⟨a, b, c, d, len, ha, hb, hc, hd, hlen, rfl⟩
  · rintro ⟨a, b, c, d, len, ha, hb, hc, hd, hlen, rfl⟩
    exact ⟨a, _, ha, ⟨b, _, hb, ⟨c, _, hc, ⟨d, len, hd, hlen, rfl⟩, rfl⟩, rfl⟩, rfl⟩

instance : DecidablePred Shaped := fun _ => decidable_of_iff _ isShaped_iff

/-- An entry has the shape if it has it without the blanks around it. -/
theorem hasShape_iff {s : String} : hasShape s = true ↔ Shaped (Text.trim s.toList) :=
  isShaped_iff

/-! ### What can be read is shaped -/

/-- Texts of the grammar have the shape. -/
theorem Grammatical.shaped {a b c d len : List Char} (h : Grammatical cs a b c d len) :
    Shaped cs := by
  have hdigits := h.digits
  simp only [List.forall_mem_cons] at hdigits
  obtain ⟨ha, hb, hc, hd, hlen, -⟩ := hdigits
  exact ⟨a, b, c, d, len, ha, hb, hc, hd, hlen, h.text⟩

/-- What can be read has the shape. -/
theorem shaped_of_parse {s : String} {p : Prefix} (h : Prefix.parse s = .ok p) :
    Shaped (Text.trim s.toList) := by
  obtain ⟨a, b, c, d, len, hgrammar⟩ := exists_grammatical_of_parse h
  exact hgrammar.shaped

/-! ### What is shaped fails in its numbers only -/

/-- The parts of a shaped text, as the reader takes it apart. -/
theorem Shaped.parts (h : Shaped cs) :
    '/' ∈ cs ∧ ((addressPart cs).splitOn '.').length = 4 ∧
      (∀ field ∈ (addressPart cs).splitOn '.', Text.Digits field) ∧
      Text.Digits (lengthPart cs) := by
  obtain ⟨a, b, c, d, len, ha, hb, hc, hd, hlen, htext⟩ := h
  have hdigits : ∀ field ∈ [a, b, c, d], Text.Digits field := by
    simp only [List.forall_mem_cons]
    exact ⟨ha, hb, hc, hd, List.forall_mem_nil _⟩
  have hjoin : cs = ['.'].intercalate [a, b, c, d] ++ '/' :: len := by
    rw [htext, Prefix.intercalate_append_slash]
  have hmem : '/' ∈ cs := by
    rw [hjoin]
    exact List.mem_append_right _ List.mem_cons_self
  have hspan := span_of_mem hmem
  rw [hjoin, Prefix.span_of_digits hdigits, ← hjoin, Prod.mk.injEq, List.cons.injEq] at hspan
  obtain ⟨haddress, -, hlength⟩ := hspan
  rw [← haddress, ← hlength, Prefix.splitOn_of_digits hdigits (List.cons_ne_nil _ _)]
  exact ⟨hmem, rfl, hdigits, hlen⟩

/-- Of the checks of an address made of numerals, only those of the range can fail. -/
theorem flaw_of_addressChecks {n : Nat} {fields : List (List Char)} {check : Check}
    (hlength : fields.length = n) (hdigits : ∀ field ∈ fields, Text.Digits field)
    (hcheck : check ∈ addressChecks n fields) (hfails : check.passes = false) :
    check.flaw = .octetRange := by
  rw [addressChecks, List.mem_append, List.mem_flatMap, List.mem_singleton] at hcheck
  rcases hcheck with ⟨i, hi, hcheck⟩ | rfl
  · rw [List.mem_range, ← hlength] at hi
    have hfield : Text.Digits (fields.getD i []) := by
      rw [List.getD_eq_getElem?_getD, List.getElem?_eq_getElem hi, Option.getD_some]
      exact hdigits _ (List.getElem_mem hi)
    simp only [octetChecks, List.mem_cons, List.not_mem_nil, or_false] at hcheck
    rcases hcheck with rfl | rfl | rfl
    · exact absurd hi (of_decide_eq_false hfails)
    · exact absurd hfield (of_decide_eq_false hfails)
    · rfl
  · exact absurd (Nat.le_of_eq hlength) (of_decide_eq_false hfails)

/-- **A shaped text fails in its numbers only.** -/
theorem Shaped.flaw_of_checks {check : Check} (h : Shaped cs) (hcheck : check ∈ checks cs)
    (hfails : check.passes = false) : check.flaw = .octetRange ∨ check.flaw = .lengthRange := by
  obtain ⟨hslash, hfour, hdigits, hlength⟩ := h.parts
  rw [checks, List.mem_cons, List.mem_append, lengthChecks, List.mem_cons,
    List.mem_singleton] at hcheck
  rcases hcheck with rfl | haddress | rfl | rfl
  · exact absurd hslash (of_decide_eq_false hfails)
  · exact Or.inl (flaw_of_addressChecks hfour hdigits haddress hfails)
  · exact absurd hlength (of_decide_eq_false hfails)
  · exact Or.inr rfl

/-- A text of the shape that cannot be read has too large a number in it. -/
theorem Shaped.flaw_of_parse {s : String} {flaw : Malformation}
    (h : Shaped (Text.trim s.toList)) (hflaw : Prefix.parse s = .error flaw) :
    flaw = .octetRange ∨ flaw = .lengthRange := by
  rw [refused_iff, firstFlaw?, Option.map_eq_some_iff] at hflaw
  obtain ⟨check, hfind, rfl⟩ := hflaw
  have hfails : check.passes = false := by simpa using List.find?_some hfind
  exact h.flaw_of_checks (List.mem_of_find?_eq_some hfind) hfails

end Entry

/-! ### The filter -/

/-- White space around an entry makes no difference. -/
@[simp] theorem Prefix.parse_trimmed (s : String) : parse (Text.trimmed s) = parse s := by
  unfold parse
  rw [Text.toList_trimmed, Text.trim_trim]

namespace Entry

variable {entries : List String} {s : String} {p : Prefix} {ps : List Prefix}

/-- The entries with the shape are kept and the others are not, both in their order. -/
theorem sift_eq (entries : List String) :
    sift entries = ⟨(entries.map Text.trimmed).filter hasShape,
      (entries.map Text.trimmed).filter (not ∘ hasShape)⟩ := by
  unfold sift
  rw [List.partition_eq_filter_filter]

/-- Blanks around an entry do not change its shape. -/
theorem hasShape_trimmed : hasShape (Text.trimmed s) = hasShape s := by
  rw [hasShape, Text.toList_trimmed, Text.trim_trim, hasShape]

/-- The filter drops the blanks around entries, and keeps those that are shaped then. -/
theorem accepted_sift (entries : List String) :
    (sift entries).accepted = (entries.map Text.trimmed).filter fun e => Shaped e.toList := by
  rw [sift_eq]
  apply List.filter_congr
  intro e he
  obtain ⟨s, -, rfl⟩ := List.mem_map.mp he
  rw [Bool.eq_iff_iff, decide_eq_true_eq, hasShape_iff, Text.toList_trimmed, Text.trim_trim]

/-- **What can be read is kept.** -/
theorem mem_accepted_of_parse (hs : s ∈ entries) (h : Prefix.parse s = .ok p) :
    Text.trimmed s ∈ (sift entries).accepted := by
  rw [accepted_sift, List.mem_filter, decide_eq_true_eq, Text.toList_trimmed]
  exact ⟨List.mem_map_of_mem hs, shaped_of_parse h⟩

/-- No entry that can be read is passed over. -/
theorem not_mem_rejected_of_parse (h : Prefix.parse s = .ok p) :
    Text.trimmed s ∉ (sift entries).rejected := by
  intro hmem
  rw [sift_eq, List.mem_filter, Function.comp_apply, hasShape_trimmed,
    hasShape_iff.mpr (shaped_of_parse h)] at hmem
  exact absurd hmem.2 nofun

/-- An entry without the shape cannot be read. -/
theorem toOption_parse_of_not_hasShape (h : hasShape s = false) :
    (Prefix.parse s).toOption = none := by
  cases hs : Prefix.parse s with
  | error flaw => rfl
  | ok p => exact absurd (h.symm.trans (hasShape_iff.mpr (shaped_of_parse hs))) nofun

/-- What the filter passes over denotes no prefix, so it makes no difference to what is read. -/
theorem filterMap_accepted (entries : List String) :
    (sift entries).accepted.filterMap (fun e => (Prefix.parse e).toOption) =
      entries.filterMap fun e => (Prefix.parse e).toOption := by
  rw [sift_eq, List.filterMap_filter, List.filterMap_map]
  apply List.filterMap_congr
  intro e _
  rw [Function.comp_apply, hasShape_trimmed, Prefix.parse_trimmed]
  cases hshape : hasShape e with
  | true => rfl
  | false => exact (toOption_parse_of_not_hasShape hshape).symm

/-- What was kept is kept again, as it is. -/
theorem sift_accepted (entries : List String) :
    sift (sift entries).accepted = ⟨(sift entries).accepted, []⟩ := by
  have haccepted : ∀ e ∈ (sift entries).accepted, Text.trimmed e = e ∧ hasShape e = true := by
    intro e he
    rw [sift_eq, List.mem_filter, List.mem_map] at he
    obtain ⟨⟨s, -, rfl⟩, hshape⟩ := he
    exact ⟨by rw [Text.trimmed, Text.toList_trimmed, Text.trim_trim, Text.trimmed], hshape⟩
  have htrimmed : (sift entries).accepted.map Text.trimmed = (sift entries).accepted :=
    (List.map_congr_left fun e he => (haccepted e he).1).trans (List.map_id _)
  rw [sift_eq, htrimmed, List.filter_eq_self.mpr fun e he => (haccepted e he).2]
  congr 1
  rw [List.filter_eq_nil_iff]
  intro e he
  rw [Function.comp_apply, (haccepted e he).2]
  exact Bool.false_ne_true

/-- **The filter and the reader agree on shape.** What is read is shaped, and what is shaped is read
or has a number out of range. So the filter keeps all that can be read, what is read of the kept
entries is what can be read of all entries, and filtering once is enough. -/
theorem sift_agreement :
    (∀ s p, parse s = .ok p → hasShape s = true) ∧
    (∀ s, hasShape s = true → (∃ p, parse s = .ok p) ∨
      ∃ flaw, parse s = .error (.malformed s flaw) ∧
        (flaw = .octetRange ∧ flaw.message = "octet out of range 0-255" ∨
          flaw = .lengthRange ∧ flaw.message = "prefix length out of range 0-32")) ∧
    ∀ entries : List String,
      (∀ e ∈ entries, ∀ p, parse e = .ok p →
        Text.trimmed e ∈ (sift entries).accepted ∧ Text.trimmed e ∉ (sift entries).rejected) ∧
      (∀ ps, parseAll (sift entries).accepted = .ok ps →
        ps = entries.filterMap fun e => (parse e).toOption) ∧
      sift (sift entries).accepted = ⟨(sift entries).accepted, []⟩ := by
  refine ⟨?_, ?_, fun entries => ⟨?_, ?_, sift_accepted entries⟩⟩
  · intro s p hs
    exact hasShape_iff.mpr (shaped_of_parse (parse_eq_ok_iff.mp hs))
  · intro s hshape
    cases hs : Prefix.parse s with
    | ok p => exact Or.inl ⟨p, parse_eq_ok_iff.mpr hs⟩
    | error flaw =>
      have hparse : parse s = .error (.malformed s flaw) := by
        rw [parse, hs]
        rfl
      refine Or.inr ⟨flaw, hparse, ?_⟩
      rcases (hasShape_iff.mp hshape).flaw_of_parse hs with rfl | rfl
      · exact Or.inl ⟨rfl, rfl⟩
      · exact Or.inr ⟨rfl, rfl⟩
  · intro e he p hp
    rw [parse_eq_ok_iff] at hp
    exact ⟨mem_accepted_of_parse he hp, not_mem_rejected_of_parse hp⟩
  · intro ps hps
    simp only [toOption_parse]
    rw [← filterMap_accepted, filterMap_of_parseAll hps]

/-- Of an entry with blanks and a leading zero, one of the other address family, one without a
length and one with a line feed in it, the first is read and kept. An entry with two numbers out of
range is shaped, but refused. -/
theorem sift_agreement_of_entries :
    parse " 010.0.0.9/8\n" = .ok ((Prefix.host 0x0A000000).take 8) ∧
      hasShape " 010.0.0.9/8\n" = true ∧
      hasShape "10.0.256.0/33" = true ∧
      ((∃ p, parse "10.0.256.0/33" = .ok p) ∨
        ∃ flaw, parse "10.0.256.0/33" = .error (.malformed "10.0.256.0/33" flaw) ∧
          (flaw = .octetRange ∧ flaw.message = "octet out of range 0-255" ∨
            flaw = .lengthRange ∧ flaw.message = "prefix length out of range 0-32")) ∧
      " 010.0.0.9/8\n" ∈ [" 010.0.0.9/8\n", "::1/128", "10.0.0.0", "1.2.3.4/5\n6"] ∧
      Text.trimmed " 010.0.0.9/8\n" ∈
        (sift [" 010.0.0.9/8\n", "::1/128", "10.0.0.0", "1.2.3.4/5\n6"]).accepted ∧
      parseAll (sift [" 010.0.0.9/8\n", "::1/128", "10.0.0.0", "1.2.3.4/5\n6"]).accepted =
        .ok [(Prefix.host 0x0A000000).take 8] ∧
      [(Prefix.host 0x0A000000).take 8] =
        [" 010.0.0.9/8\n", "::1/128", "10.0.0.0", "1.2.3.4/5\n6"].filterMap
          fun e => (parse e).toOption := by
  obtain ⟨hread, hshaped, hentries⟩ := sift_agreement
  have hp : parse " 010.0.0.9/8\n" = .ok ((Prefix.host 0x0A000000).take 8) := rfl
  have hrange : hasShape "10.0.256.0/33" = true := by decide +kernel
  have hmem : " 010.0.0.9/8\n" ∈ [" 010.0.0.9/8\n", "::1/128", "10.0.0.0", "1.2.3.4/5\n6"] :=
    List.mem_cons_self
  have hall : parseAll (sift [" 010.0.0.9/8\n", "::1/128", "10.0.0.0", "1.2.3.4/5\n6"]).accepted =
      .ok [(Prefix.host 0x0A000000).take 8] := rfl
  obtain ⟨hkeep, hsame, -⟩ := hentries [" 010.0.0.9/8\n", "::1/128", "10.0.0.0", "1.2.3.4/5\n6"]
  exact ⟨hp, hread _ _ hp, hrange, hshaped _ hrange, hmem, (hkeep _ hmem _ hp).1, hall,
    hsame _ hall⟩

end Entry

end CidrCover
