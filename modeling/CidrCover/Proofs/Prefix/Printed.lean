import CidrCover.Prefix.Network
import CidrCover.Proofs.Entry.Basic
import CidrCover.Proofs.Entry.Grammar

/-!
# The printed form of a prefix

A prefix has many spellings, and the printed one is the shortest of them: there are no blanks, no
number has a leading zero, and no bit is set below the length (`Printed`, `printed_chars`). It is a
text of the grammar, so it is read back (`parse_padded`), and prefixes are told apart by it
(`text_injective`).

* **Printing and reading** (`text_roundtrip`): the printed form, and the way through a network.
-/

namespace CidrCover

open Text (Digits numeral value)

namespace Prefix

variable {before after cs a b c d l : List Char} {p q : Prefix}

/-! ### The printed form -/

/-- A text of the grammar without leading zeros and without bits below the length. -/
structure Printed (cs a b c d l : List Char) : Prop extends Entry.Grammatical cs a b c d l where
  leading : ∀ field ∈ [a, b, c, d, l], field.head? = some '0' → field = ['0']
  host : 2 ^ (32 - value l) ∣ value a * 2 ^ 24 + value b * 2 ^ 16 + value c * 2 ^ 8 + value d

/-- The word of a prefix is a multiple of the size of its block. -/
theorem dvd_toNat_bits (p : Prefix) : 2 ^ (32 - p.len) ∣ p.bits.toNat := by
  have hbits := toNat_and_mask p.bits p.len
  rw [p.bits_mask] at hbits
  rw [hbits]
  exact Nat.dvd_mul_left _ _

/-- **The printed form** has the octets of the address and the length of the prefix. -/
theorem printed_chars (p : Prefix) :
    ∃ a b c d l, Printed p.chars a b c d l ∧ value l = p.len ∧
      value a * 2 ^ 24 + value b * 2 ^ 16 + value c * 2 ^ 8 + value d = p.bits.toNat := by
  have hlt := p.bits.isLt
  have hnumber : value (numeral (p.bits.toNat / 16777216)) * 2 ^ 24 +
      value (numeral (p.bits.toNat / 65536 % 256)) * 2 ^ 16 +
      value (numeral (p.bits.toNat / 256 % 256)) * 2 ^ 8 +
      value (numeral (p.bits.toNat % 256)) = p.bits.toNat := by
    simp only [Text.value_numeral]
    omega
  refine ⟨numeral (p.bits.toNat / 16777216), numeral (p.bits.toNat / 65536 % 256),
    numeral (p.bits.toNat / 256 % 256), numeral (p.bits.toNat % 256), numeral p.len,
    ⟨⟨?_, ?_, ?_, ?_⟩, ?_, ?_⟩, Text.value_numeral _, ?_⟩
  · exact intercalate_append_slash _ _ _ _ _
  · simp [Text.digits_numeral]
  · simp only [List.forall_mem_cons, Text.value_numeral]
    exact ⟨by omega, by omega, by omega, by omega, List.forall_mem_nil _⟩
  · rw [Text.value_numeral]
    exact p.len_le
  · simp only [List.forall_mem_cons]
    exact ⟨Text.numeral_eq_of_head?, Text.numeral_eq_of_head?, Text.numeral_eq_of_head?,
      Text.numeral_eq_of_head?, Text.numeral_eq_of_head?, List.forall_mem_nil _⟩
  · rw [Text.value_numeral, hnumber]
    exact p.dvd_toNat_bits
  · exact hnumber

/-! ### The printed form is read back -/

/-- A printed prefix consists of digits, dots and a slash. -/
theorem digit_or_mark_of_mem_chars {x : Char} (h : x ∈ p.chars) :
    x.isDigit = true ∨ x = '.' ∨ x = '/' := by
  rw [chars, List.mem_append, List.mem_cons] at h
  rcases h with h | rfl | h
  · rcases Text.mem_or_exists_of_mem_intercalate h with hdot | ⟨field, hfield, hx⟩
    · exact Or.inr (Or.inl (List.mem_singleton.mp hdot))
    · obtain ⟨o, -, rfl⟩ := List.mem_map.mp hfield
      exact Or.inl (Text.isDigit_of_mem_numeral hx)
  · exact Or.inr (Or.inr rfl)
  · exact Or.inl (Text.isDigit_of_mem_numeral h)

/-- No character of a printed prefix is a blank. -/
theorem isBlank_of_mem_chars {x : Char} (h : x ∈ p.chars) : Text.isBlank x = false := by
  rcases digit_or_mark_of_mem_chars h with hdigit | rfl | rfl
  · exact Text.isBlank_of_isDigit hdigit
  · rfl
  · rfl

/-- A printed prefix is no empty text. -/
theorem chars_ne_nil (p : Prefix) : p.chars ≠ [] :=
  List.append_ne_nil_of_right_ne_nil _ (List.cons_ne_nil _ _)

/-- **The printed form is read back**, with any blanks around it. -/
theorem parse_padded (p : Prefix) (hbefore : ∀ c ∈ before, Text.isBlank c = true)
    (hafter : ∀ c ∈ after, Text.isBlank c = true) :
    parse (String.ofList (before ++ p.chars ++ after)) = .ok p := by
  obtain ⟨a, b, c, d, l, hprinted, hlen, hbits⟩ := p.printed_chars
  rw [Entry.read_iff, String.toList_ofList, Text.trim_append_append hbefore hafter,
    Text.trim_eq_self fun _ => isBlank_of_mem_chars]
  refine ⟨a, b, c, d, l, hprinted.toGrammatical, hlen.symm, ?_⟩
  -- there are no bits below the length to be cleared
  rw [Entry.blockNumber, Nat.div_mul_cancel hprinted.host, hbits]

/-- A printed prefix is read back as itself. -/
theorem parse_text (p : Prefix) : parse p.text = .ok p := by
  have hpadded := p.parse_padded (List.forall_mem_nil _) (List.forall_mem_nil _)
  rwa [List.nil_append, List.append_nil] at hpadded

/-- The printed forms of prefixes are read back in their order. -/
theorem parseAll_text (ps : List Prefix) : Entry.parseAll (ps.map text) = .ok ps := by
  rw [Entry.parseAll_eq_ok_iff, List.forall₂_map_left_iff, List.forall₂_same]
  intro p _
  exact p.parse_text

/-- Two prefixes with the same printed form are equal. -/
theorem text_injective : Function.Injective text := by
  intro p q h
  have hp := p.parse_text
  rw [h, q.parse_text] at hp
  exact (Except.ok.inj hp).symm

end Prefix

/-! ### Networks -/

/-- The network of a prefix has the length that it needs. -/
theorem Prefix.ofAddress?_network (p : Prefix) :
    Network.ofAddress? p.network p.len = some p.toNetwork :=
  dif_pos p.len_le

/-- The block of a network is that of its address, with bits below the length or without. -/
theorem Network.toPrefix_eq (n : Network) :
    n.toPrefix = Prefix.ofAddress n.address n.len n.len_le := by
  apply Prefix.ofAddress_congr
  rw [first, BitVec.and_assoc, BitVec.and_self]

/-- The network of a prefix is turned back into the prefix. -/
theorem Prefix.toPrefix_toNetwork (p : Prefix) : p.toNetwork.toPrefix = p := by
  rw [Network.toPrefix_eq]
  exact p.ofAddress_bits

/-! ### There and back -/

/-- **Printing and reading.** The printed form of a prefix is read back, with any blanks around it.
It has four octets and a length without leading zeros and no bits below the length, and texts that
are read have the same printed form if they are read alike. A prefix always has a network, and is
the block of that. The block of any network is that of its address, bits below the length or not. -/
theorem Prefix.text_roundtrip :
    (∀ p : Prefix, Entry.parse p.text = .ok p) ∧
    (∀ (p : Prefix) (before after : List Char), (∀ c ∈ before, Text.isBlank c = true) →
      (∀ c ∈ after, Text.isBlank c = true) →
        Entry.parse (String.ofList before ++ p.text ++ String.ofList after) = .ok p) ∧
    (∀ p : Prefix, ∃ a b c d l, Printed p.text.toList a b c d l) ∧
    (∀ (s t : String) (p q : Prefix), Entry.parse s = .ok p → Entry.parse t = .ok q →
      (p.text = q.text ↔ Entry.parse s = Entry.parse t)) ∧
    (∀ p : Prefix, Network.ofAddress? p.network p.len = some p.toNetwork ∧
      p.toNetwork.toPrefix = p) ∧
    ∀ n : Network, Entry.ofAddress n.address n.len = .ok n.toPrefix := by
  refine ⟨fun p => Entry.parse_eq_ok_iff.mpr p.parse_text, ?_, ?_, ?_,
    fun p => ⟨p.ofAddress?_network, p.toPrefix_toNetwork⟩, ?_⟩
  · intro p before after hbefore hafter
    have hpadded := p.parse_padded hbefore hafter
    rw [String.ofList_append, String.ofList_append] at hpadded
    exact Entry.parse_eq_ok_iff.mpr hpadded
  · intro p
    obtain ⟨a, b, c, d, l, hprinted, -⟩ := p.printed_chars
    refine ⟨a, b, c, d, l, ?_⟩
    rwa [text, String.toList_ofList]
  · intro s t p q hs ht
    rw [hs, ht, text_injective.eq_iff, Except.ok.injEq]
  · intro n
    rw [Entry.ofAddress_of_le n.address n.len_le, n.toPrefix_eq]

/-- A tabulator, a no-break space and a line feed do not matter. Leading zeros and bits below the
length do not come back in the printed form, but another length does. -/
theorem Prefix.text_roundtrip_of_spellings :
    (∀ c ∈ ['\t', '\u00a0'], Text.isBlank c = true) ∧ (∀ c ∈ ['\n'], Text.isBlank c = true) ∧
      Entry.parse (String.ofList ['\t', '\u00a0'] ++ ((host 0x0A000000).take 8).text ++
        String.ofList ['\n']) = .ok ((host 0x0A000000).take 8) ∧
      Entry.parse "010.1.2.3/08" = .ok ((host 0x0A000000).take 8) ∧
      Entry.parse "10.0.0.0/9" = .ok ((host 0x0A000000).take 9) ∧
      ((host 0x0A000000).take 8).text ≠ ((host 0x0A000000).take 9).text := by
  obtain ⟨-, hpadded, -, hsame, -⟩ := text_roundtrip
  have hbefore : ∀ c ∈ ['\t', '\u00a0'], Text.isBlank c = true :=
    List.forall_mem_cons.mpr ⟨rfl, List.forall_mem_singleton.mpr rfl⟩
  have hafter : ∀ c ∈ ['\n'], Text.isBlank c = true := List.forall_mem_singleton.mpr rfl
  have hs : Entry.parse "010.1.2.3/08" = .ok ((host 0x0A000000).take 8) := rfl
  have ht : Entry.parse "10.0.0.0/9" = .ok ((host 0x0A000000).take 9) := rfl
  refine ⟨hbefore, hafter, hpadded _ _ _ hbefore hafter, hs, ht, ?_⟩
  rw [Ne, hsame _ _ _ _ hs ht, hs, ht, Except.ok.injEq]
  decide

end CidrCover
