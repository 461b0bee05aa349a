import CidrCover.Prefix.Dotted
import CidrCover.Proofs.Text.Basic

/-!
# Spellings of a prefix

A prefix can be spelled in many ways: with blanks around it, with leading zeros in every number, and
with bits set below the length. The reader sees the numbers alone (`parse_of_spells`), and of the
address no more than the bits that the length leaves.
-/

namespace CidrCover.Prefix

open Text (Digits)

variable {fields : List (List Char)} {l : List Char} {n len : Nat} {os : List Nat} {s : String}

/-- A text with these octets and this length, of which there may be a prefix. -/
structure Spells (s : String) (os : List Nat) (len : Nat) : Prop where
  four : os.length = 4
  octets : ∀ o ∈ os, o ≤ 255
  length : len ≤ 32
  text : ∃ fields l, (∀ field ∈ fields, Digits field) ∧ Digits l ∧ fields.map Text.value = os ∧
    Text.value l = len ∧ Text.trim s.toList = ['.'].intercalate fields ++ '/' :: l

/-- Four fields of digits that are not too great are read as their numbers. -/
theorem readOctets_of_digits (hlength : fields.length = n)
    (hdigits : ∀ field ∈ fields, Digits field) (hrange : ∀ o ∈ fields.map Text.value, o ≤ 255) :
    readOctets n fields = .ok (fields.map Text.value) := by
  induction fields generalizing n with
  | nil =>
    subst hlength
    rfl
  | cons field fields ih =>
    subst hlength
    rw [List.forall_mem_cons] at hdigits
    rw [List.map_cons, List.forall_mem_cons] at hrange
    simp [readOctets, Text.isNumeral_iff.mpr hdigits.1, Nat.not_lt.mpr hrange.1,
      ih rfl hdigits.2 hrange.2, Except.map]

/-- Digits of a length that there is are read as that length. -/
theorem readLength_of_digits (hdigits : Digits l) (hrange : Text.value l ≤ 32) :
    readLength l = .ok (Text.value l) := by
  simp [readLength, Text.isNumeral_iff.mpr hdigits, Nat.not_lt.mpr hrange]

/-- A character that is no digit is not among digits. -/
theorem not_mem_of_digits {c : Char} (hc : c.isDigit = false) (h : Digits l) : c ∉ l := by
  intro hmem
  have hdigit := Text.isDigit_iff.mpr (h.2 c hmem)
  exact absurd (hc.symm.trans hdigit) nofun

/-- Four parts with dots between them and one after a slash, as they are joined. -/
theorem intercalate_append_slash (a b c d l : List Char) :
    ['.'].intercalate [a, b, c, d] ++ '/' :: l =
      a ++ '.' :: (b ++ '.' :: (c ++ '.' :: (d ++ '/' :: l))) := by
  simp [List.intercalate_cons_cons]

/-- Between the numerals of an address there are dots alone, so the slash after it is the first. -/
theorem span_of_digits (hdigits : ∀ field ∈ fields, Digits field) :
    (['.'].intercalate fields ++ '/' :: l).span (· != '/') =
      (['.'].intercalate fields, '/' :: l) := by
  refine Text.span_eq_cons_iff.mpr ⟨rfl, ?_, by decide⟩
  intro c hc
  rw [bne_iff_ne]
  rintro rfl
  rcases Text.mem_or_exists_of_mem_intercalate hc with hdot | ⟨field, hfield, hslash⟩
  · exact absurd hdot (by decide)
  · exact not_mem_of_digits rfl (hdigits field hfield) hslash

/-- Numerals with dots between them are parted at the dots. -/
theorem splitOn_of_digits (hdigits : ∀ field ∈ fields, Digits field) (hne : fields ≠ []) :
    (['.'].intercalate fields).splitOn '.' = fields :=
  List.splitOn_intercalate '.' (fun field hfield => not_mem_of_digits rfl (hdigits field hfield))
    hne

/-- **The reader sees the numbers alone.** -/
theorem parse_of_spells (h : Spells s os len) :
    parse s = .ok (ofAddress (addressOfOctets os) len h.length) := by
  obtain ⟨hfour, hoctets, hlen, fields, l, hfields, hl, rfl, rfl, htext⟩ := h
  rw [List.length_map] at hfour
  have hsplit := splitOn_of_digits hfields (List.ne_nil_of_length_eq_add_one hfour)
  have hchars : parseChars (['.'].intercalate fields ++ '/' :: l) =
      .ok (ofAddress (addressOfOctets (fields.map Text.value)) (Text.value l) hlen) := by
    unfold parseChars
    rw [span_of_digits hfields]
    simp [hsplit, readOctets_of_digits hfour hfields hoctets, readLength_of_digits hl hlen,
      ofAddress?, hlen, bind, Except.bind]
  exact (congrArg parseChars htext).trans hchars

/-- Addresses that agree in the bits of a length are in one block of that length. -/
theorem ofAddress_congr {a b : Address} (h : a &&& mask len = b &&& mask len) (hlen : len ≤ 32) :
    ofAddress a len hlen = ofAddress b len hlen :=
  ext_bits rfl h

/-- Two spellings that agree in the length, and in the bits that it leaves, denote one prefix. -/
theorem parse_congr {s' : String} {os' : List Nat} (h : Spells s os len) (h' : Spells s' os' len)
    (hbits : addressOfOctets os &&& mask len = addressOfOctets os' &&& mask len) :
    parse s = parse s' := by
  rw [parse_of_spells h, parse_of_spells h', ofAddress_congr hbits]

end CidrCover.Prefix
