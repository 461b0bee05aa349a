import CidrCover.Prefix.Dotted

/-!
# Networks

A `Network` is an address together with the length of the block that it is in. Other than a prefix
it keeps the bits below the length. Networks are compared by their first and last addresses.
-/

namespace CidrCover

/-- An address in a block of a given length. -/
structure Network where
  address : Address
  len : Nat
  len_le : len ≤ 32

namespace Network

/-- The address in the block of a length, if there is such a length. -/
def ofAddress? (a : Address) (len : Nat) : Option Network :=
  if h : len ≤ 32 then some ⟨a, len, h⟩ else none

/-- The first address of the block. -/
def first (n : Network) : Address :=
  n.address &&& mask n.len

/-- The last address of the block. -/
def last (n : Network) : Address :=
  n.address ||| ~~~(mask n.len)

/-- The block of `m` lies between the first and the last address of that of `n`. -/
def contains (n m : Network) : Bool :=
  decide (n.first ≤ m.first) && decide (m.last ≤ n.last)

/-- The block without the bits below its length. -/
def toPrefix (n : Network) : Prefix :=
  Prefix.ofAddress n.first n.len n.len_le

/-- The address, a slash and the length. -/
def text (n : Network) : String :=
  String.ofList (dotted n.address ++ '/' :: Text.numeral n.len)

end Network

/-- The network of the first address of a prefix. -/
def Prefix.toNetwork (p : Prefix) : Network :=
  ⟨p.bits, p.len, p.len_le⟩

end CidrCover
