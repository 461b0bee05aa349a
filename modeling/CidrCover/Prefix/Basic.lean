/-!
# IPv4 prefixes

A `Prefix` is the first `len` bits of an IPv4 address, held left-aligned in a 32-bit word whose
other bits are clear. Both facts are fields of the type, so a prefix has one representation and
equality of prefixes is equality of bit strings.

Bits are addressed from the top: bit 0 is the most significant. The operations use masks and
shifts; every shift of a word is by an amount that is proved to be below 32, except for `mask`,
which treats the one amount of 32 apart.

Prefixes are ordered by length first and by value second, which for equal lengths is the
lexicographic order of the bit strings.
-/

namespace CidrCover

/-- An IPv4 address. -/
abbrev Address := BitVec 32

/-- Shifts a word to the left by less than its width. -/
def shiftUp (w : Address) (n : Nat) (_ : n < 32) : Address :=
  w <<< n

/-- Shifts a word to the right by less than its width. -/
def shiftDown (w : Address) (n : Nat) (_ : n < 32) : Address :=
  w >>> n

/-- The word whose top `len` bits are set and whose others are clear. -/
def mask (len : Nat) : Address :=
  if h : len = 0 then 0 else shiftUp (BitVec.allOnes 32) (32 - len) (by omega)

/-- The first `len` bits of an address, left-aligned, with the bits below them clear. -/
structure Prefix where
  /-- The number of bits. -/
  len : Nat
  /-- The bits, from the top of the word. -/
  bits : Address
  len_le : len ≤ 32
  bits_mask : bits &&& mask len = bits
  deriving DecidableEq

namespace Prefix

/-- A prefix is determined by its length and its bits. -/
theorem ext_bits {p q : Prefix} (hl : p.len = q.len) (hb : p.bits = q.bits) : p = q := by
  cases p
  cases q
  subst hl hb
  rfl

/-! ### Making prefixes -/

/-- The block of `len` leading bits that holds an address; the bits below are dropped. -/
def ofAddress (a : Address) (len : Nat) (h : len ≤ 32) : Prefix where
  len := len
  bits := a &&& mask len
  len_le := h
  bits_mask := by rw [BitVec.and_assoc, BitVec.and_self]

/-- The prefix of length zero, which covers the whole address space. -/
def root : Prefix :=
  ofAddress 0 0 (by decide)

instance : Inhabited Prefix := ⟨root⟩

/-- The first `n` bits of a prefix; all of it if it has no more than that. -/
def take (p : Prefix) (n : Nat) : Prefix :=
  ofAddress p.bits (min n p.len) (Nat.le_trans (Nat.min_le_right ..) p.len_le)

/-- The prefix one bit shorter; the root has none. -/
def parent? (p : Prefix) : Option Prefix :=
  if p.len = 0 then none else some (p.take (p.len - 1))

/-- The word in which only bit `i`, counted from the top, may be set: to `b`. -/
def unit (b : Bool) (i : Nat) : Address :=
  shiftUp (if b then 1 else 0) (31 - i) (by omega)

/-- The prefix one bit longer. -/
def child (p : Prefix) (b : Bool) (h : p.len < 32) : Prefix :=
  ofAddress (p.bits ||| unit b p.len) (p.len + 1) h

/-- The prefix one bit longer, if there is room for one bit more; an address stays as it is. -/
def extend (p : Prefix) (b : Bool) : Prefix :=
  if h : p.len < 32 then p.child b h else p

/-- The prefix one bit longer along the lowest bit of a number. -/
def childAlong (p : Prefix) (n : Nat) (h : p.len < 32) : Prefix :=
  p.child (n % 2 == 1) h

/-! ### Looking at prefixes -/

/-- The network address: the lowest address of the block. -/
def network (p : Prefix) : Address :=
  p.bits

/-- Bit `i` of the prefix, counted from the top. -/
def bit (p : Prefix) (i : Nat) : Bool :=
  shiftDown p.bits (31 - i) (by omega) &&& 1 == 1

/-- The bits of the prefix, first bit first. -/
def toBits (p : Prefix) : List Bool :=
  (List.range p.len).map p.bit

/-- The bits of the prefix as a string of zeros and ones, empty for the root. -/
def bitString (p : Prefix) : String :=
  String.ofList (p.toBits.map fun b => if b then '1' else '0')

/-- The prefix is the root. -/
def isEmpty (p : Prefix) : Bool :=
  p.len == 0

/-- The number of addresses of the block. -/
def size (p : Prefix) : Nat :=
  Nat.pow 2 (32 - p.len)

/-- Every address of `q` is in `p`. -/
def contains (p q : Prefix) : Bool :=
  decide (p.len ≤ q.len) && (q.bits &&& mask p.len) == p.bits

/-- The address is in the block. -/
def containsAddress (p : Prefix) (a : Address) : Bool :=
  (a &&& mask p.len) == p.bits

/-! ### Order -/

/-- Shorter prefixes come first; equally long ones are ordered by value. -/
def compare (p q : Prefix) : Ordering :=
  (Ord.compare p.len q.len).then (Ord.compare p.bits.toNat q.bits.toNat)

instance : Ord Prefix := ⟨Prefix.compare⟩

instance : LT Prefix := ⟨fun p q => p.len < q.len ∨ p.len = q.len ∧ p.bits < q.bits⟩

instance : LE Prefix := ⟨fun p q => p.len < q.len ∨ p.len = q.len ∧ p.bits ≤ q.bits⟩

instance (p q : Prefix) : Decidable (p < q) :=
  inferInstanceAs (Decidable (p.len < q.len ∨ p.len = q.len ∧ p.bits < q.bits))

instance (p q : Prefix) : Decidable (p ≤ q) :=
  inferInstanceAs (Decidable (p.len < q.len ∨ p.len = q.len ∧ p.bits ≤ q.bits))

/-- The prefixes in ascending order, repetitions kept. -/
def sort (ps : List Prefix) : List Prefix :=
  ps.mergeSort fun p q => decide (p ≤ q)

end Prefix

end CidrCover
