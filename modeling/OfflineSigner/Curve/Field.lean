import OfflineSigner.Bytes
import OfflineSigner.Curve.Modular

/-!
# The field under the curve, and the scalars

The curve is `y² = x³ + 7` over the numbers modulo the prime `2^256 - 2^32 - 977`. Its points form a group of prime order;
the numbers modulo that order are the scalars.
-/

namespace OfflineSigner.Curve

/-- The prime of the field. -/
def fieldPrime : Nat := 0xfffffffffffffffffffffffffffffffffffffffffffffffffffffffefffffc2f

/-- The order of the group of points. -/
def groupOrder : Nat := 0xfffffffffffffffffffffffffffffffebaaedce6af48a03bbfd25e8cd0364141

instance : @NeZero Nat Zero.ofOfNat0 fieldPrime := ⟨by decide⟩

instance : @NeZero Nat Zero.ofOfNat0 groupOrder := ⟨by decide⟩

/-- A number modulo the prime of the field. -/
abbrev FieldElement := Fin fieldPrime

/-- A number modulo the order of the group. -/
abbrev Scalar := Fin groupOrder

namespace FieldElement

/-- The field element that a number is congruent to. -/
def ofNat (n : Nat) : FieldElement := Fin.ofNat fieldPrime n

/-- The inverse of a field element that is not zero. -/
def inverse (a : FieldElement) : FieldElement := ofNat (Modular.inverse fieldPrime a.val)

/-- Whether the representative below the prime is even. -/
def isEven (a : FieldElement) : Bool := a.val % 2 == 0

/-- A square root, when there is one. The prime is three more than a multiple of four, so a power gives it. -/
def sqrt? (a : FieldElement) : Option FieldElement :=
  let r := ofNat (Modular.pow fieldPrime a.val ((fieldPrime + 1) / 4))
  if r * r = a then some r else none

/-- The 32 bytes of a field element, most significant first. -/
def toBytes (a : FieldElement) : FixedBytes 32 := FixedBytes.ofNatBE 32 a.val

/-- The field element written by bytes, when the number is below the prime. -/
def ofBytes? (bs : Bytes) : Option FieldElement :=
  if h : bs.toNatBE < fieldPrime then some ⟨bs.toNatBE, h⟩ else none

end FieldElement

namespace Scalar

/-- The scalar that a number is congruent to. -/
def ofNat (n : Nat) : Scalar := Fin.ofNat groupOrder n

/-- The inverse of a scalar that is not zero. -/
def inverse (k : Scalar) : Scalar := ofNat (Modular.inverse groupOrder k.val)

/-- The 32 bytes of a scalar, most significant first. -/
def toBytes (k : Scalar) : FixedBytes 32 := FixedBytes.ofNatBE 32 k.val

/-- The scalar written by bytes, when the number is below the order of the group. -/
def ofBytes? (bs : Bytes) : Option Scalar :=
  if h : bs.toNatBE < groupOrder then some ⟨bs.toNatBE, h⟩ else none

end Scalar

end OfflineSigner.Curve
