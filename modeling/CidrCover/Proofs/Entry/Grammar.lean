import CidrCover.Entry.Basic
import CidrCover.Proofs.Except
import CidrCover.Proofs.Prefix.Dotted
import CidrCover.Proofs.Prefix.Order

/-!
# What an entry has to be

An entry denotes a prefix if what stands between the blanks around it is four numerals up to 255
with dots between them, a slash, and a numeral up to 32 (`Grammatical`). Any other entry is refused
for the first of a list of checks that it fails (`checks`). The reader goes through the same checks,
octet by octet and then the length, so it accepts an entry if all of them pass, and reports the
first one that does not (`parseChars_eq`).

* **The grammar of entries** (`parse_grammar`): what is accepted, what it denotes, and what is
  reported otherwise.
-/

namespace CidrCover.Entry

open Text (Digits value)

/-! ### Checks -/

/-- A check of a text, and the flaw of the texts that fail it. -/
structure Check where
  passes : Bool
  flaw : Malformation

/-- The flaw of the first check that fails. -/
def firstFlaw? (checks : List Check) : Option Malformation :=
  (checks.find? fun c => !c.passes).map Check.flaw

/-- The checks of a field between the dots: it is there, it is a numeral, it is in range. -/
def octetChecks (fields : List (List Char)) (i : Nat) : List Check :=
  [⟨i < fields.length, .octetCount⟩, ⟨Digits (fields.getD i []), .octetNotDecimal⟩,
    ⟨value (fields.getD i []) ≤ 255, .octetRange⟩]

/-- The checks of the first `n` fields, from the left, and that there are no more. -/
def addressChecks (n : Nat) (fields : List (List Char)) : List Check :=
  (List.range n).flatMap (octetChecks fields) ++ [⟨fields.length ≤ n, .octetCount⟩]

/-- The checks of what stands after the slash. -/
def lengthChecks (l : List Char) : List Check :=
  [⟨Digits l, .lengthNotDecimal⟩, ⟨value l ≤ 32, .lengthRange⟩]

/-- What stands before the first slash. -/
def addressPart (cs : List Char) : List Char :=
  cs.takeWhile (· != '/')

/-- What stands after the first slash. -/
def lengthPart (cs : List Char) : List Char :=
  (cs.dropWhile (· != '/')).tail

/-- All checks of a text, in their order. -/
def checks (cs : List Char) : List Check :=
  ⟨'/' ∈ cs, .lengthMissing⟩ ::
    (addressChecks 4 ((addressPart cs).splitOn '.') ++ lengthChecks (lengthPart cs))

/-! ### The first flaw -/

section flaws

variable {c : Check} {cs ds : List Check} {α β : Type}

/-- The first flaw is that of the first check if this does not pass. -/
theorem firstFlaw?_cons (c : Check) (cs : List Check) :
    firstFlaw? (c :: cs) = if c.passes then firstFlaw? cs else some c.flaw := by
  unfold firstFlaw?
  cases h : c.passes <;> simp [h]

/-- The flaws of the first checks come before those of the others. -/
theorem firstFlaw?_append (cs ds : List Check) :
    firstFlaw? (cs ++ ds) = (firstFlaw? cs).or (firstFlaw? ds) := by
  unfold firstFlaw?
  rw [List.find?_append, Option.map_or]

/-- There is no flaw if all checks pass. -/
theorem firstFlaw?_eq_none_iff : firstFlaw? cs = none ↔ ∀ c ∈ cs, c.passes = true := by
  simp [firstFlaw?]

/-- A result that is given if all checks pass, and the first flaw otherwise. -/
def unlessFlawed (checks : List Check) (x : α) : Except Malformation α :=
  match firstFlaw? checks with
  | none => .ok x
  | some flaw => .error flaw

/-- The first check that does not pass decides. -/
theorem unlessFlawed_cons (c : Check) (cs : List Check) (x : α) :
    unlessFlawed (c :: cs) x = if c.passes then unlessFlawed cs x else .error c.flaw := by
  unfold unlessFlawed
  rw [firstFlaw?_cons]
  split_ifs <;> rfl

/-- Checks do not concern what is done with the result. -/
theorem unlessFlawed_map (cs : List Check) (g : α → β) (x : α) :
    (unlessFlawed cs x).map g = unlessFlawed cs (g x) := by
  unfold unlessFlawed
  cases firstFlaw? cs <;> rfl

end flaws

/-! ### The reader -/

/-- The checks of the field after the first one are those of the rest. -/
theorem octetChecks_cons_succ (field : List Char) (fields : List (List Char)) (i : Nat) :
    octetChecks (field :: fields) (i + 1) = octetChecks fields i := by
  simp [octetChecks]

/-- The checks of an address are those of its first field and then those of the rest. -/
theorem addressChecks_cons (n : Nat) (field : List Char) (fields : List (List Char)) :
    addressChecks (n + 1) (field :: fields) =
      octetChecks (field :: fields) 0 ++ addressChecks n fields := by
  unfold addressChecks
  rw [List.range_succ_eq_map, List.flatMap_cons, List.flatMap_map]
  simp [octetChecks_cons_succ]

/-- Fields pass if there are as many as there have to be, all of them numerals up to 255. -/
theorem passes_addressChecks_iff {n : Nat} {fields : List (List Char)} :
    (∀ c ∈ addressChecks n fields, c.passes = true) ↔
      fields.length = n ∧ ∀ field ∈ fields, Digits field ∧ value field ≤ 255 := by
  induction n generalizing fields with
  | zero => cases fields <;> simp [addressChecks]
  | succ n ih =>
    cases fields with
    | nil => simp [addressChecks, List.range_succ_eq_map, octetChecks]
    | cons field fields =>
      rw [addressChecks_cons, List.forall_mem_append, ih]
      simp [octetChecks, and_left_comm, and_assoc]

/-- The checks of a field that is there, and of those after it. -/
theorem unlessFlawed_addressChecks_cons {α : Type} (n : Nat) (field : List Char)
    (fields : List (List Char)) (x : α) :
    unlessFlawed (addressChecks (n + 1) (field :: fields)) x =
      if Text.isNumeral field then
        if value field ≤ 255 then unlessFlawed (addressChecks n fields) x
        else .error .octetRange
      else .error .octetNotDecimal := by
  simp [addressChecks_cons, octetChecks, unlessFlawed_cons, ← Text.isNumeral_iff]

/-- **The octets are read by their checks**, from the left. -/
theorem readOctets_eq (n : Nat) (fields : List (List Char)) :
    Prefix.readOctets n fields = unlessFlawed (addressChecks n fields) (fields.map value) := by
  induction n, fields using Prefix.readOctets.induct with
  | case1 => rfl
  | case2 field rest => rfl
  | case3 n => simp [Prefix.readOctets, addressChecks, List.range_succ_eq_map, octetChecks,
      unlessFlawed_cons]
  | case4 n field rest hnumeral =>
    rw [Bool.not_eq_true'] at hnumeral
    simp [Prefix.readOctets, unlessFlawed_addressChecks_cons, hnumeral]
  | case5 n field rest hnumeral hrange =>
    rw [Bool.not_eq_true', Bool.not_eq_false] at hnumeral
    simp [Prefix.readOctets, unlessFlawed_addressChecks_cons, hnumeral, hrange,
      Nat.not_le.mpr hrange]
  | case6 n field rest hnumeral hrange ih =>
    rw [Bool.not_eq_true', Bool.not_eq_false] at hnumeral
    simp [Prefix.readOctets, unlessFlawed_addressChecks_cons, hnumeral, hrange,
      Nat.not_lt.mp hrange, ih, unlessFlawed_map]

/-- The length is read by its checks. -/
theorem readLength_eq (l : List Char) :
    Prefix.readLength l = unlessFlawed (lengthChecks l) (value l) := by
  have hend : unlessFlawed [] (value l) = .ok (value l) := rfl
  unfold Prefix.readLength
  simp only [lengthChecks, unlessFlawed_cons, hend, ← Text.isNumeral_iff]
  by_cases hnumeral : Text.isNumeral l = true <;> by_cases hrange : value l ≤ 32 <;>
    simp [hnumeral, hrange]

variable {cs a b c d l : List Char}

/-- The first slash parts a text. -/
theorem span_of_mem (h : '/' ∈ cs) :
    cs.span (· != '/') = (addressPart cs, '/' :: lengthPart cs) := by
  have hne : cs.dropWhile (· != '/') ≠ [] := by
    intro hnil
    have hall := List.dropWhile_eq_nil_iff.mp hnil '/' h
    simp at hall
  obtain ⟨mark, rest, hrest⟩ := List.exists_cons_of_ne_nil hne
  have hmark := List.head?_dropWhile_not (· != '/') cs
  rw [hrest] at hmark
  obtain rfl : mark = '/' := by simpa using hmark
  rw [List.span_eq_takeWhile_dropWhile, hrest, addressPart, lengthPart, hrest, List.tail_cons]

/-- Without a slash the whole text comes before it. -/
theorem span_of_not_mem (h : '/' ∉ cs) : cs.span (· != '/') = (cs, []) := by
  have hall : ∀ c ∈ cs, (c != '/') = true := by
    intro c hc
    rw [bne_iff_ne]
    rintro rfl
    exact h hc
  rw [List.span_eq_takeWhile_dropWhile, List.takeWhile_eq_self_iff.mpr hall,
    List.dropWhile_eq_nil_iff.mpr hall]

/-- **A text is read by its checks.** -/
theorem parseChars_eq (cs : List Char) :
    Prefix.parseChars cs =
      (unlessFlawed (checks cs)
        (((addressPart cs).splitOn '.').map value, value (lengthPart cs))).bind
          fun r => Prefix.ofAddress? (addressOfOctets r.1) r.2 := by
  unfold Prefix.parseChars checks
  rw [unlessFlawed_cons]
  by_cases h : '/' ∈ cs
  · rw [span_of_mem h, if_pos (decide_eq_true h)]
    simp only [readOctets_eq, readLength_eq, unlessFlawed, firstFlaw?_append]
    -- a flaw of the address hides those of the length
    cases firstFlaw? (addressChecks 4 ((addressPart cs).splitOn '.')) with
    | some flaw => rfl
    | none => cases firstFlaw? (lengthChecks (lengthPart cs)) <;> rfl
  · rw [span_of_not_mem h, if_neg (by simpa using h)]
    rfl

/-! ### The grammar -/

/-- Four numerals up to 255 with dots between them, a slash, and a numeral up to 32. -/
structure Grammatical (cs a b c d l : List Char) : Prop where
  text : cs = a ++ '.' :: (b ++ '.' :: (c ++ '.' :: (d ++ '/' :: l)))
  digits : ∀ field ∈ [a, b, c, d, l], Digits field
  octets : ∀ field ∈ [a, b, c, d], value field ≤ 255
  length : value l ≤ 32

/-- The number of an address with the given octets, its bits below a length cleared. -/
def blockNumber (a b c d l : List Char) : Nat :=
  (value a * 2 ^ 24 + value b * 2 ^ 16 + value c * 2 ^ 8 + value d) / 2 ^ (32 - value l) *
    2 ^ (32 - value l)

/-- A text that passes all checks is in the grammar. -/
theorem grammatical_of_passes (h : firstFlaw? (checks cs) = none) :
    ∃ a b c d l, Grammatical cs a b c d l := by
  rw [firstFlaw?_eq_none_iff] at h
  simp only [checks, lengthChecks, List.forall_mem_cons, List.forall_mem_append,
    decide_eq_true_eq, passes_addressChecks_iff] at h
  obtain ⟨hslash, ⟨hfour, hfields⟩, hnumeral, hrange, -⟩ := h
  obtain ⟨a, b, c, d, hparts⟩ := List.length_eq_four.mp hfour
  have hjoin : ['.'].intercalate ((addressPart cs).splitOn '.') = addressPart cs :=
    List.intercalate_splitOn '.'
  obtain ⟨htext, -, -⟩ := Text.span_eq_cons_iff.mp (span_of_mem hslash)
  rw [hparts] at hfields hjoin
  refine ⟨a, b, c, d, lengthPart cs, ?_, ?_, fun field hfield => (hfields field hfield).2, hrange⟩
  · rwa [← hjoin, Prefix.intercalate_append_slash] at htext
  · simp only [List.forall_mem_cons] at hfields ⊢
    simp [hfields, hnumeral]

/-- The numerals of a text of the grammar are the numbers that it spells. -/
theorem Grammatical.spells {s : String} (h : Grammatical (Text.trim s.toList) a b c d l) :
    Prefix.Spells s [value a, value b, value c, value d] (value l) where
  four := rfl
  octets := by simpa using h.octets
  length := h.length
  text := by
    have hdigits := h.digits
    simp only [List.forall_mem_cons] at hdigits
    refine ⟨[a, b, c, d], l, ?_, ?_, rfl, rfl, ?_⟩
    · simp [hdigits]
    · simp [hdigits]
    · rw [h.text, Prefix.intercalate_append_slash]

/-- The bits of what a text of the grammar denotes. -/
theorem Grammatical.toNat_bits (h : Grammatical cs a b c d l) :
    (Prefix.ofAddress (addressOfOctets [value a, value b, value c, value d]) (value l)
      h.length).bits.toNat = blockNumber a b c d l := by
  have hoctets := h.octets
  simp only [List.forall_mem_cons] at hoctets
  obtain ⟨ha, hb, hc, hd, -⟩ := hoctets
  -- four octets fit into the word
  have haddress : (addressOfOctets [value a, value b, value c, value d]).toNat =
      value a * 2 ^ 24 + value b * 2 ^ 16 + value c * 2 ^ 8 + value d := by
    simp only [addressOfOctets, List.foldl_cons, List.foldl_nil, BitVec.toNat_ofNat]
    omega
  rw [Prefix.bits_ofAddress, Prefix.toNat_and_mask, haddress, blockNumber]

/-- A text of the grammar is read. -/
theorem parse_of_grammatical {s : String} (h : Grammatical (Text.trim s.toList) a b c d l) :
    ∃ p, Prefix.parse s = .ok p ∧ p.len = value l ∧ p.bits.toNat = blockNumber a b c d l :=
  ⟨_, Prefix.parse_of_spells h.spells, rfl, h.toNat_bits⟩

/-- What is refused is refused for the first flaw. -/
theorem refused_iff {s : String} {flaw : Malformation} :
    Prefix.parse s = .error flaw ↔ firstFlaw? (checks (Text.trim s.toList)) = some flaw := by
  cases hflaw : firstFlaw? (checks (Text.trim s.toList)) with
  | some first => simp [Prefix.parse, parseChars_eq, unlessFlawed, hflaw, Except.bind]
  | none =>
    -- a text without a flaw is read, so it is not refused
    obtain ⟨a, b, c, d, l, h⟩ := grammatical_of_passes hflaw
    obtain ⟨p, hp, -, -⟩ := parse_of_grammatical h
    simp [hp]

/-- What is read is in the grammar. -/
theorem exists_grammatical_of_parse {s : String} {p : Prefix} (h : Prefix.parse s = .ok p) :
    ∃ a b c d l, Grammatical (Text.trim s.toList) a b c d l := by
  apply grammatical_of_passes
  cases hflaw : firstFlaw? (checks (Text.trim s.toList)) with
  | none => rfl
  | some flaw =>
    rw [refused_iff.mpr hflaw] at h
    exact absurd h nofun

/-- **What is read**: the texts of the grammar, as the prefix of their length and their address
without the bits below it. -/
theorem read_iff {s : String} {p : Prefix} :
    Prefix.parse s = .ok p ↔ ∃ a b c d l, Grammatical (Text.trim s.toList) a b c d l ∧
      p.len = value l ∧ p.bits.toNat = blockNumber a b c d l := by
  constructor
  · intro hp
    obtain ⟨a, b, c, d, l, h⟩ := exists_grammatical_of_parse hp
    obtain ⟨q, hq, hlen, hbits⟩ := parse_of_grammatical h
    obtain rfl : q = p := Except.ok.inj (hq.symm.trans hp)
    exact ⟨a, b, c, d, l, h, hlen, hbits⟩
  · rintro ⟨a, b, c, d, l, h, hlen, hbits⟩
    obtain ⟨q, hq, hlen', hbits'⟩ := parse_of_grammatical h
    have hpq : q = p := Prefix.ext_bits (hlen'.trans hlen.symm)
      (BitVec.eq_of_toNat_eq (hbits'.trans hbits.symm))
    rw [hq, hpq]

/-- **The grammar of entries.** An entry is read if, without the blanks around it, it is in the
grammar, and denotes the block of its octets and its length. Any other entry is refused for the
first check that it fails, and quoted as it was given. -/
theorem parse_grammar (s : String) :
    (∀ p, parse s = .ok p ↔ ∃ a b c d l, Grammatical (Text.trim s.toList) a b c d l ∧
        p.len = value l ∧ p.bits.toNat = blockNumber a b c d l) ∧
      ((∃ p, parse s = .ok p) ↔ ∃ a b c d l, Grammatical (Text.trim s.toList) a b c d l) ∧
      ∀ fault, parse s = .error fault ↔
        ∃ flaw, firstFlaw? (checks (Text.trim s.toList)) = some flaw ∧
          fault = .malformed s flaw ∧
          fault.messages = ["Malformed CIDR: " ++ s ++ ": " ++ flaw.message] := by
  refine ⟨?_, ⟨?_, ?_⟩, ?_⟩
  · intro p
    rw [parse, Except.mapError_eq_ok_iff, read_iff]
  · rintro ⟨p, hp⟩
    exact exists_grammatical_of_parse (Except.mapError_eq_ok_iff.mp hp)
  · rintro ⟨a, b, c, d, l, h⟩
    obtain ⟨p, hp, -, -⟩ := parse_of_grammatical h
    exact ⟨p, Except.mapError_eq_ok_iff.mpr hp⟩
  · intro fault
    rw [parse, Except.mapError_eq_error_iff]
    constructor
    · rintro ⟨flaw, hflaw, rfl⟩
      exact ⟨flaw, refused_iff.mp hflaw, rfl, rfl⟩
    · rintro ⟨flaw, hflaw, rfl, -⟩
      exact ⟨flaw, refused_iff.mpr hflaw, rfl⟩

/-- Of several flaws, the one of the third octet is met first. -/
example : firstFlaw? (checks "1.2.300.x.5/33".toList) = some .octetRange := by decide

end CidrCover.Entry
