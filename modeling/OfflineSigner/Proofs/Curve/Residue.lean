import OfflineSigner.Proofs.Curve.Prime
import Mathlib.FieldTheory.Finite.Basic

/-!
# Field elements and scalars as residues

The numbers below a modulus, with the arithmetic that the library computes with, are the ring `ZMod m`: `residue` reads a
number as a residue, `ofResidue` takes its least representative, and the two are inverse and keep sums, products, differences
and opposites. For the two prime moduli the computed inverse is that of the field (`FieldElement.residue_inverse`,
`Scalar.residue_inverse`), and a square root is found whenever there is one (`FieldElement.sq_of_sqrt?`,
`FieldElement.exists_sqrt?`).
-/

namespace OfflineSigner.Curve

section

variable {m : Nat}

/-- A number below the modulus as a residue. -/
def residue (a : Fin m) : ZMod m := (a.val : ZMod m)

/-- The representative of a residue below the modulus. -/
def ofResidue [NeZero m] (x : ZMod m) : Fin m := ⟨x.val, x.val_lt⟩

@[simp] theorem val_ofResidue [NeZero m] (x : ZMod m) : (ofResidue x).val = x.val := rfl

@[simp] theorem residue_ofResidue [NeZero m] (x : ZMod m) : residue (ofResidue x) = x := by
  rw [residue, val_ofResidue, ZMod.natCast_val, ZMod.cast_id]

@[simp] theorem ofResidue_residue [NeZero m] (a : Fin m) : ofResidue (residue a) = a := by
  apply Fin.ext
  rw [val_ofResidue, residue, ZMod.val_natCast, Nat.mod_eq_of_lt a.isLt]

theorem residue_injective [NeZero m] : Function.Injective (residue : Fin m → ZMod m) :=
  Function.LeftInverse.injective ofResidue_residue

@[simp] theorem residue_inj [NeZero m] {a b : Fin m} : residue a = residue b ↔ a = b := residue_injective.eq_iff

@[simp] theorem residue_add (a b : Fin m) : residue (a + b) = residue a + residue b := by
  rw [residue, Fin.val_add, ZMod.natCast_mod, Nat.cast_add]
  rfl

@[simp] theorem residue_mul (a b : Fin m) : residue (a * b) = residue a * residue b := by
  rw [residue, Fin.val_mul, ZMod.natCast_mod, Nat.cast_mul]
  rfl

@[simp] theorem residue_sub (a b : Fin m) : residue (a - b) = residue a - residue b := by
  rw [residue, Fin.sub_def, ZMod.natCast_mod, Nat.cast_add, Nat.cast_sub b.isLt.le, ZMod.natCast_self, residue, residue]
  ring

@[simp] theorem residue_neg (a : Fin m) : residue (-a) = -residue a := by
  rw [residue, Fin.neg_def, ZMod.natCast_mod, Nat.cast_sub a.isLt.le, ZMod.natCast_self, residue, zero_sub]

@[simp] theorem residue_fin_ofNat [NeZero m] (n : Nat) : residue (Fin.ofNat m n) = (n : ZMod m) := by
  rw [residue, Fin.val_ofNat, ZMod.natCast_mod]

@[simp] theorem residue_zero [NeZero m] : residue (0 : Fin m) = 0 := by
  exact (residue_fin_ofNat 0).trans Nat.cast_zero

@[simp] theorem residue_one [NeZero m] : residue (1 : Fin m) = 1 := by
  exact (residue_fin_ofNat 1).trans Nat.cast_one

theorem residue_eq_zero_iff [NeZero m] {a : Fin m} : residue a = 0 ↔ a = 0 := by
  rw [← residue_zero (m := m), residue_inj]

end

/-! ## Field elements -/

namespace FieldElement

@[simp] theorem residue_ofNat (n : Nat) : residue (ofNat n) = (n : ZMod fieldPrime) := residue_fin_ofNat n

/-- The numerals of the curve's formulas are those of the field. -/
@[simp] theorem residue_two : residue (2 : FieldElement) = 2 := residue_fin_ofNat 2

@[simp] theorem residue_three : residue (3 : FieldElement) = 3 := residue_fin_ofNat 3

@[simp] theorem residue_seven : residue (7 : FieldElement) = 7 := residue_fin_ofNat 7

@[simp] theorem residue_inverse (a : FieldElement) : residue a.inverse = (residue a)⁻¹ := by
  rw [inverse, residue_ofNat, Modular.cast_inverse a.isLt, residue]

/-- A root that is found is one. -/
theorem sq_of_sqrt? {a r : FieldElement} (h : a.sqrt? = some r) : r * r = a := by
  unfold sqrt? at h
  dsimp only at h
  split at h
  · rename_i hr
    rwa [← Option.some.inj h]
  · cases h

/-- The power that is tried is a root of every square. -/
theorem exists_sqrt? {a b : FieldElement} (h : b * b = a) : ∃ r, a.sqrt? = some r := by
  have hcast : ((Modular.pow fieldPrime a.val ((fieldPrime + 1) / 4) : Nat) : ZMod fieldPrime) =
      residue a ^ ((fieldPrime + 1) / 4) := Modular.cast_pow _ _ _
  have hab : residue a = residue b ^ 2 := by rw [← h, residue_mul, pow_two]
  have hexp : (fieldPrime + 1) / 4 * 2 * 2 = fieldPrime + 1 := by decide
  have hroot : residue a ^ ((fieldPrime + 1) / 4) * residue a ^ ((fieldPrime + 1) / 4) = residue a := by
    rw [← pow_two, ← pow_mul, hab, ← pow_mul, Nat.mul_comm 2, hexp, pow_succ, ZMod.pow_card, pow_two]
  unfold sqrt?
  dsimp only
  rw [if_pos]
  · exact ⟨_, rfl⟩
  · apply residue_injective
    rw [residue_mul, residue_ofNat, hcast, hroot]

/-- The opposite of an element that is not zero has the other parity. -/
theorem isEven_neg {a : FieldElement} (h : a ≠ 0) : (-a).isEven = !a.isEven := by
  have hpos : 0 < a.val := Nat.pos_of_ne_zero fun h0 => h (Fin.ext h0)
  have hlt := a.isLt
  have hodd : fieldPrime % 2 = 1 := by decide
  have hval : (-a).val = fieldPrime - a.val := by
    rw [Fin.neg_def]
    exact Nat.mod_eq_of_lt (by omega)
  rw [isEven, isEven, hval]
  rcases Nat.mod_two_eq_zero_or_one a.val with h0 | h1
  · have : (fieldPrime - a.val) % 2 = 1 := by omega
    rw [h0, this]
    rfl
  · have : (fieldPrime - a.val) % 2 = 0 := by omega
    rw [h1, this]
    rfl

end FieldElement

/-! ## Scalars -/

namespace Scalar

@[simp] theorem residue_ofNat (n : Nat) : residue (ofNat n) = (n : ZMod groupOrder) := residue_fin_ofNat n

@[simp] theorem ofNat_val (k : Scalar) : ofNat k.val = k := by
  apply Fin.ext
  exact Nat.mod_eq_of_lt k.isLt

@[simp] theorem residue_inverse (k : Scalar) : residue k.inverse = (residue k)⁻¹ := by
  rw [inverse, residue_ofNat, Modular.cast_inverse k.isLt, residue]

end Scalar

end OfflineSigner.Curve
