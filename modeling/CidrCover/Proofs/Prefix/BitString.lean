import CidrCover.Proofs.Entry.Basic
import CidrCover.Proofs.Prefix.AddressSet
import CidrCover.Proofs.Prefix.Order
import Mathlib.Data.Nat.Bitwise
import Mathlib.Data.String.Basic

/-!
# Prefixes as strings of zeros and ones

The bits of a prefix determine it, and every list of at most 32 bits is that of a prefix
(`toBits_injective`, `exists_toBits_eq`). So the operations on words can be read as operations on
lists of bits: taking leading bits is taking leading elements (`toBits_take`), containment is being
an initial segment (`contains_iff_toBits`), and the order of prefixes is that of their strings, by
length and then from the left (`lt_iff_bitString`).

A shift by the width of a word or more has no meaning. `mask?`, `bit?` and `childBits?` compute as
`mask`, `bit` and `childAlong` do, but give up at a shift or a difference that is out of range. On
prefixes they never give up.

* **The algebra of bit strings** (`bitString_algebra`).
-/

namespace CidrCover

/-- The digit of a bit. -/
def digit (b : Bool) : Char :=
  if b then '1' else '0'

/-- The digits of the two bits differ. -/
theorem digit_injective : Function.Injective digit := by decide

/-- The digit of zero comes before that of one. -/
theorem digit_lt_digit_iff {b c : Bool} : digit b < digit c ↔ b = false ∧ c = true := by
  revert b c
  decide

/-- The 32 digits of an address, from the top. -/
def binary (a : Address) : String :=
  String.ofList ((List.range 32).map fun i => digit (a.getMsbD i))

/-- A string of zeros and ones that is no longer than an address. -/
def BinaryString (s : String) : Prop :=
  s.length ≤ 32 ∧ ∀ c ∈ s.toList, c = '0' ∨ c = '1'

namespace Prefix

variable {p q : Prefix} {i : Nat}

/-! ### Lists of bits -/

/-- A prefix has as many bits as it is long. -/
@[simp] theorem length_toBits (p : Prefix) : p.toBits.length = p.len := by
  rw [toBits, List.length_map, List.length_range]

/-- The bits are listed in their order. -/
theorem getElem_toBits (p : Prefix) (hi : i < p.toBits.length) : p.toBits[i] = p.bit i := by
  simp only [toBits, List.getElem_map, List.getElem_range]

/-- The bits tell prefixes apart, since they tell the length as well. -/
theorem toBits_injective : Function.Injective toBits := by
  intro p q h
  have hlen : p.len = q.len := by rw [← length_toBits p, h, length_toBits]
  apply ext_bit hlen
  intro i hi
  have hp : i < p.toBits.length := by rwa [length_toBits]
  have hq : i < q.toBits.length := by rwa [← h]
  rw [← getElem_toBits p hp, ← getElem_toBits q hq]
  simp only [h]

/-- Leading bits are leading elements. -/
theorem toBits_take (p : Prefix) (n : Nat) : (p.take n).toBits = p.toBits.take n := by
  apply List.ext_getElem
  · rw [length_toBits, len_take, List.length_take, length_toBits]
  · intro i hi hi'
    rw [length_toBits, len_take, Nat.lt_min] at hi
    rw [getElem_toBits, List.getElem_take, getElem_toBits, bit_take p hi.1 hi.2]

/-- One bit longer is one more bit at the end. -/
theorem toBits_child (p : Prefix) (b : Bool) (h : p.len < 32) :
    (p.child b h).toBits = p.toBits ++ [b] := by
  have hinit : ∀ i ∈ List.range p.len, (p.child b h).bit i = p.bit i := by
    intro i hi
    exact bit_child_of_lt p b h (List.mem_range.mp hi)
  rw [toBits, len_child, List.range_succ, List.map_append, List.map_singleton, bit_child_len,
    List.map_congr_left hinit]
  rfl

/-- The parent is without the last bit. -/
theorem toBits_parent (p : Prefix) : p.parent.toBits = p.toBits.dropLast := by
  rw [parent, toBits_take, List.dropLast_eq_take, length_toBits]

/-- **Containment is being an initial segment.** -/
theorem contains_iff_toBits : p.contains q ↔ p.toBits <+: q.toBits := by
  rw [contains_iff_take, List.prefix_iff_eq_take, length_toBits, ← toBits_take,
    toBits_injective.eq_iff, eq_comm]

/-- Every list of at most 32 bits is that of a prefix, made bit by bit. -/
theorem exists_toBits_eq {bs : List Bool} (h : bs.length ≤ 32) : ∃ p : Prefix, p.toBits = bs := by
  induction bs using List.reverseRecOn with
  | nil => exact ⟨root, rfl⟩
  | append_singleton bs b ih =>
    rw [List.length_append, List.length_singleton] at h
    obtain ⟨p, rfl⟩ := ih (by omega)
    rw [length_toBits] at h
    exact ⟨p.child b h, toBits_child p b h⟩

/-! ### Strings -/

/-- The string has a digit for each bit. -/
theorem toList_bitString (p : Prefix) : p.bitString.toList = p.toBits.map digit :=
  String.toList_ofList

/-- The string is as long as the prefix. -/
@[simp] theorem length_bitString (p : Prefix) : p.bitString.length = p.len := by
  rw [← String.length_toList, toList_bitString, List.length_map, length_toBits]

/-- The digits stand in the order of the bits. -/
theorem getElem_toList_bitString (p : Prefix) (hi : i < p.bitString.toList.length) :
    p.bitString.toList[i] = digit (p.bit i) := by
  simp only [toList_bitString, List.getElem_map, getElem_toBits]

/-- The string of a single address is its binary numeral in full. -/
theorem toList_bitString_host (a : Address) : (host a).bitString.toList = (binary a).toList := by
  rw [toList_bitString, toBits, List.map_map, binary, String.toList_ofList]
  apply List.map_congr_left
  intro i hi
  rw [Function.comp_apply, bit_eq_getMsbD _ (List.mem_range.mp hi), bits_host]

/-- **The strings of prefixes are the binary strings**, each of one prefix. -/
theorem bijOn_bitString : Set.BijOn bitString Set.univ {s | BinaryString s} := by
  refine ⟨?_, ?_, ?_⟩
  · intro p _
    refine ⟨(length_bitString p).trans_le p.len_le, ?_⟩
    rw [toList_bitString, List.forall_mem_map]
    intro b _
    cases b with
    | false => exact Or.inl rfl
    | true => exact Or.inr rfl
  · intro p _ q _ h
    have hlist := congrArg String.toList h
    rw [toList_bitString, toList_bitString] at hlist
    exact toBits_injective (digit_injective.list_map hlist)
  · rintro s ⟨hlen, hdigits⟩
    -- the bits are read off the digits
    have hdigit : ∀ c ∈ s.toList, digit (c == '1') = c := by
      intro c hc
      rcases hdigits c hc with rfl | rfl <;> rfl
    have hbits : (s.toList.map (· == '1')).length ≤ 32 := by
      rwa [List.length_map, String.length_toList]
    obtain ⟨p, hp⟩ := exists_toBits_eq hbits
    refine ⟨p, Set.mem_univ p, ?_⟩
    rw [← String.toList_inj, toList_bitString, hp, List.map_map]
    exact (List.map_congr_left hdigit).trans (List.map_id _)

/-- A prefix contains another one if its string is the beginning of the other one's. -/
theorem contains_iff_bitString : p.contains q ↔ p.bitString.toList <+: q.bitString.toList := by
  rw [contains_iff_toBits, toList_bitString, toList_bitString,
    List.prefix_map_iff_of_injective digit_injective]

/-! ### Order -/

/-- A bit of a prefix as a digit of its number. -/
theorem bit_eq_testBit (p : Prefix) (hi : i < 32) : p.bit i = p.bits.toNat.testBit (31 - i) := by
  rw [bit_eq_getMsbD p hi, BitVec.getMsbD_eq_getLsbD, decide_eq_true hi, Bool.true_and,
    BitVec.testBit_toNat]

/-- The first bit in which equally long prefixes differ decides between them. -/
theorem lt_of_bit (hlen : p.len = q.len) (hi : i < p.len) (hsame : ∀ j < i, p.bit j = q.bit j)
    (hp : p.bit i = false) (hq : q.bit i = true) : p < q := by
  have hi32 : i < 32 := Nat.lt_of_lt_of_le hi p.len_le
  rw [bit_eq_testBit _ hi32] at hp hq
  refine lt_iff.mpr (Or.inr ⟨hlen, Nat.lt_of_testBit (31 - i) hp hq ?_⟩)
  intro k hk
  by_cases hk32 : k < 32
  · have hbit := hsame (31 - k) (by omega)
    rwa [bit_eq_testBit _ (by omega), bit_eq_testBit _ (by omega),
      show 31 - (31 - k) = k by omega] at hbit
  -- there are no bits above the word
  · have hpow : 2 ^ 32 ≤ 2 ^ k := Nat.pow_le_pow_right Nat.two_pos (Nat.not_lt.mp hk32)
    have hout : ∀ w : Address, w.toNat.testBit k = false := by
      intro w
      exact Nat.testBit_lt_two_pow (Nat.lt_of_lt_of_le w.isLt hpow)
    rw [hout, hout]

/-- Of equally long prefixes, the order of the strings is that of the prefixes. -/
theorem lt_of_bitString_lt (hlen : p.len = q.len) (h : p.bitString < q.bitString) : p < q := by
  rw [String.lt_iff_toList_lt, List.lt_iff_exists] at h
  rcases h with ⟨-, hshort⟩ | ⟨i, hp, hq, hsame, hless⟩
  · simp only [String.length_toList, length_bitString, hlen] at hshort
    exact absurd hshort (Nat.lt_irrefl _)
  · simp only [getElem_toList_bitString, digit_injective.eq_iff, digit_lt_digit_iff] at hsame hless
    rw [String.length_toList, length_bitString] at hp
    exact lt_of_bit hlen hp hsame hless.1 hless.2

/-- **The order is that of the strings**, by length and then from the left. -/
theorem lt_iff_bitString :
    p < q ↔ p.bitString.length < q.bitString.length ∨
      p.bitString.length = q.bitString.length ∧ p.bitString < q.bitString := by
  rw [length_bitString, length_bitString]
  constructor
  · intro h
    rcases Nat.lt_or_eq_of_le (len_le_of_le (le_of_lt h)) with hlen | hlen
    · exact Or.inl hlen
    · refine Or.inr ⟨hlen, ?_⟩
      rcases lt_trichotomy p.bitString q.bitString with hlt | heq | hgt
      · exact hlt
      · have hpq := bijOn_bitString.injOn (Set.mem_univ p) (Set.mem_univ q) heq
        exact absurd (hpq ▸ h) (lt_irrefl q)
      · exact absurd h (lt_asymm (lt_of_bitString_lt hlen.symm hgt))
  · rintro (hlen | ⟨hlen, h⟩)
    · exact lt_iff.mpr (Or.inl hlen)
    · exact lt_of_bitString_lt hlen h

/-! ### Children, parents and addresses -/

/-- One bit longer is one digit more at the end. -/
theorem bitString_childAlong (p : Prefix) (n : Nat) (h : p.len < 32) :
    (p.childAlong n h).bitString = p.bitString.push (digit (n % 2 == 1)) := by
  rw [← String.toList_inj, String.toList_push, toList_bitString, toList_bitString, childAlong,
    toBits_child, List.map_append, List.map_singleton]

/-- Only the root has no digits. -/
theorem bitString_eq_empty_iff : p.bitString = "" ↔ p = root := by
  have hroot : root.bitString = "" := rfl
  rw [← hroot, bijOn_bitString.injOn.eq_iff (Set.mem_univ p) (Set.mem_univ root)]

/-- Only the root has no parent. -/
theorem parent?_eq_none_iff : p.parent? = none ↔ p = root := by
  constructor
  · intro h
    by_contra hne
    rw [parent?_eq_some hne] at h
    exact absurd h nofun
  · rintro rfl
    exact parent?_root

/-- The parent has the string without its last digit. -/
theorem bitString_of_parent?_eq_some (h : p.parent? = some q) :
    q.bitString.toList = p.bitString.toList.dropLast := by
  have hne : p ≠ root := by
    rintro rfl
    exact absurd h nofun
  rw [parent?_eq_some hne] at h
  obtain rfl := Option.some.inj h
  rw [toList_bitString, toList_bitString, toBits_parent, List.map_dropLast]

/-- A prefix contains an address if its string is the beginning of the binary numeral. -/
theorem containsAddress_iff_bitString (p : Prefix) (a : Address) :
    p.containsAddress a ↔ p.bitString.toList <+: (binary a).toList := by
  rw [containsAddress_iff, contains_iff_bitString, toList_bitString_host]

end Prefix

/-! ### Shifts within the width -/

/-- A difference, unless it is below zero. -/
def minus? (m n : Nat) : Option Nat :=
  if n ≤ m then some (m - n) else none

/-- A shift to the left, unless it is by the width or more. -/
def shiftUp? (w : Address) (n : Nat) : Option Address :=
  if n < 32 then some (w <<< n) else none

/-- A shift to the right, unless it is by the width or more. -/
def shiftDown? (w : Address) (n : Nat) : Option Address :=
  if n < 32 then some (w >>> n) else none

/-- The mask of a length, by shifts that may give up. -/
def mask? (len : Nat) : Option Address :=
  if len = 0 then some 0 else do
    let n ← minus? 32 len
    shiftUp? (BitVec.allOnes 32) n

namespace Prefix

/-- A bit, by shifts that may give up. -/
def bit? (p : Prefix) (i : Nat) : Option Bool := do
  let n ← minus? 31 i
  let w ← shiftDown? p.bits n
  return w &&& 1 == 1

/-- The word of the prefix one bit longer along the lowest bit of a number, by shifts that may give
up. -/
def childBits? (p : Prefix) (n : Nat) : Option Address := do
  let k ← minus? 32 (p.len + 1)
  let w ← shiftUp? (BitVec.ofNat 32 n &&& 1) k
  return p.bits ||| w

end Prefix

/-- A difference that is not negative is defined. -/
theorem minus?_eq_some {m n : Nat} (h : n ≤ m) : minus? m n = some (m - n) :=
  if_pos h

/-- A shift upwards by less than the width is defined. -/
theorem shiftUp?_eq_some (w : Address) {n : Nat} (h : n < 32) :
    shiftUp? w n = some (shiftUp w n h) :=
  if_pos h

/-- A shift downwards by less than the width is defined. -/
theorem shiftDown?_eq_some (w : Address) {n : Nat} (h : n < 32) :
    shiftDown? w n = some (shiftDown w n h) :=
  if_pos h

/-- The mask of a length that there is is defined. -/
theorem mask?_eq_some {len : Nat} (h : len ≤ 32) : mask? len = some (mask len) := by
  unfold mask? mask
  by_cases hzero : len = 0
  · rw [if_pos hzero, dif_pos hzero]
  · have hamount : 32 - len < 32 := by omega
    rw [if_neg hzero, dif_neg hzero, minus?_eq_some h]
    exact shiftUp?_eq_some _ hamount

namespace Prefix

variable {i : Nat}

/-- A bit within the length is defined. -/
theorem bit?_eq_some (p : Prefix) (hi : i < p.len) : p.bit? i = some (p.bit i) := by
  have hlen := p.len_le
  have hamount : 31 - i < 32 := by omega
  rw [bit?, minus?_eq_some (by omega), Option.bind_eq_bind, Option.bind_some,
    shiftDown?_eq_some _ hamount]
  rfl

/-- The bit after a prefix is set without touching its other bits. -/
theorem bits_child_eq_or (p : Prefix) (b : Bool) (h : p.len < 32) :
    (p.child b h).bits = p.bits ||| unit b p.len := by
  apply BitVec.eq_of_getMsbD_eq
  intro i hi
  rw [bits_child, BitVec.getMsbD_and, getMsbD_mask hi]
  by_cases hin : i < p.len + 1
  · rw [decide_eq_true hin, Bool.and_true]
  · have hne : i ≠ p.len := by omega
    rw [decide_eq_false hin, Bool.and_false, BitVec.getMsbD_or, getMsbD_unit h,
      getMsbD_bits_of_len_le p (by omega), decide_eq_false hne, Bool.and_false, Bool.or_false]

/-- The lowest bit of a number as a word is its remainder by two. -/
theorem ofNat_and_one (n : Nat) : BitVec.ofNat 32 n &&& 1 = if n % 2 == 1 then 1 else 0 := by
  have hone : BitVec.toNat (1 : Address) = 1 := rfl
  apply BitVec.eq_of_toNat_eq
  rw [BitVec.toNat_and, BitVec.toNat_ofNat, hone, Nat.and_one_is_mod,
    Nat.mod_mod_of_dvd n (by decide)]
  rcases Nat.mod_two_eq_zero_or_one n with hn | hn
  · rw [hn]
    rfl
  · rw [hn]
    rfl

/-- The bits of a child are defined as long as there is room for one bit more. -/
theorem childBits?_eq_some (p : Prefix) (n : Nat) (h : p.len < 32) :
    p.childBits? n = some (p.childAlong n h).bits := by
  have hamount : 31 - p.len < 32 := by omega
  rw [childBits?, minus?_eq_some h, Option.bind_eq_bind, Option.bind_some,
    show 32 - (p.len + 1) = 31 - p.len by omega, shiftUp?_eq_some _ hamount, ofNat_and_one,
    childAlong, bits_child_eq_or]
  rfl

/-! ### The algebra -/

/-- **The algebra of bit strings.** Every prefix is made from its own address. The strings of
prefixes are the binary strings, and each operation on prefixes is one on strings. No shift that it
takes is by the width of a word or more. -/
theorem bitString_algebra :
    (∀ p : Prefix, p.len ≤ 32 ∧ (∀ i < 32 - p.len, p.bits.getLsbD i = false) ∧
      Entry.ofAddress p.network p.len = .ok p) ∧
    Set.BijOn bitString Set.univ {s | BinaryString s} ∧
    (∀ p q : Prefix, p.contains q ↔ p.bitString.toList <+: q.bitString.toList) ∧
    (∀ p q : Prefix, p < q ↔ p.bitString.length < q.bitString.length ∨
      p.bitString.length = q.bitString.length ∧ p.bitString < q.bitString) ∧
    (∀ (p : Prefix) (i : Nat), i < p.len → p.bitString.toList[i]? = some (digit (p.bit i))) ∧
    (∀ (p : Prefix) (n : Nat) (h : p.len < 32),
      (p.childAlong n h).bitString = p.bitString.push (digit (n % 2 == 1))) ∧
    (∀ p : Prefix, p.parent? = none ↔ p.bitString = "") ∧
    (∀ p q : Prefix, p.parent? = some q →
      q.bitString.toList = p.bitString.toList.dropLast) ∧
    (∀ (p : Prefix) (a : Address),
      p.containsAddress a ↔ p.bitString.toList <+: (binary a).toList) ∧
    (∀ p : Prefix, p.size = (Finset.univ.filter fun a => p.containsAddress a).card) ∧
    (∀ len ≤ 32, mask? len = some (mask len)) ∧
    (∀ (p : Prefix) (i : Nat), i < p.len → p.bit? i = some (p.bit i)) ∧
    ∀ (p : Prefix) (n : Nat) (h : p.len < 32),
      p.childBits? n = some (p.childAlong n h).bits := by
  refine ⟨?_, bijOn_bitString, fun p q => contains_iff_bitString, fun p q => lt_iff_bitString, ?_,
    bitString_childAlong, ?_, fun p q => bitString_of_parent?_eq_some,
    containsAddress_iff_bitString, fun p => p.card_addressSet.symm, fun len => mask?_eq_some,
    fun p i => p.bit?_eq_some, childBits?_eq_some⟩
  · intro p
    refine ⟨p.len_le, ?_, ?_⟩
    · intro i hi
      rw [BitVec.getLsbD_eq_getMsbD, getMsbD_bits_of_len_le p (by omega), Bool.and_false]
    · rw [Entry.ofAddress_of_le p.network p.len_le, network, ofAddress_bits]
  · intro p i hi
    have hi' : i < p.bitString.toList.length := by
      rwa [String.length_toList, length_bitString]
    rw [List.getElem?_eq_getElem hi', getElem_toList_bitString]
  · intro p
    rw [parent?_eq_none_iff, bitString_eq_empty_iff]

/-- The block of the first octet 10: its fifth bit is set, an odd number makes a ninth bit that is
set, without that the parent is the block again, and the mask of the whole word takes no shift at
all. -/
theorem bitString_algebra_of_octet :
    20 < 32 - ((host 0x0A000000).take 8).len ∧
      ((host 0x0A000000).take 8).bits.getLsbD 20 = false ∧
      4 < ((host 0x0A000000).take 8).len ∧
      ((host 0x0A000000).take 8).bitString.toList[4]? = some '1' ∧
      ((host 0x0A000000).take 8).bit? 4 = some true ∧
      (∃ h : ((host 0x0A000000).take 8).len < 32,
        (((host 0x0A000000).take 8).childAlong 3 h).bitString = "000010101" ∧
        ((host 0x0A000000).take 8).childBits? 3 = some 0x0A800000) ∧
      ((host 0x0A800000).take 9).parent? = some ((host 0x0A000000).take 8) ∧
      ((host 0x0A000000).take 8).bitString.toList =
        ((host 0x0A800000).take 9).bitString.toList.dropLast ∧
      32 ≤ 32 ∧ mask? 32 = some (BitVec.allOnes 32) := by
  obtain ⟨hmade, -, -, -, hbit, hchild, -, hparent, -, -, hmask, hbit?, hchild?⟩ :=
    bitString_algebra
  have hlow : 20 < 32 - ((host 0x0A000000).take 8).len := by decide
  have hin : 4 < ((host 0x0A000000).take 8).len := by decide
  have hlen : ((host 0x0A000000).take 8).len < 32 := by decide
  have hup : ((host 0x0A800000).take 9).parent? =
      some ((host 0x0A000000).take 8) := by
    decide
  exact ⟨hlow, (hmade _).2.1 20 hlow, hin, hbit _ 4 hin, hbit? _ 4 hin,
    ⟨hlen, (hchild _ 3 hlen).trans (by decide), hchild? _ 3 hlen⟩, hup, hparent _ _ hup,
    Nat.le_refl 32, hmask 32 (Nat.le_refl 32)⟩

end Prefix

end CidrCover
