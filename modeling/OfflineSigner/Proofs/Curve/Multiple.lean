import OfflineSigner.Proofs.Curve.Group
import Mathlib.GroupTheory.OrderOfElement

/-!
# Multiples of the base point

Adding the doublings at the one bits of a number gives that multiple (`Point.sumAtBits_doublings`). The base point has the
prime order `groupOrder` (`addOrderOf_base`), so its multiples are the scalars: `multiple` is a one-to-one homomorphism from
the residues modulo the order to the points, and all that is computed from the base point is one of its values
(`Point.mulGenerator_eq`, `Point.mul_multiple`).
-/

namespace OfflineSigner.Curve

namespace Point

/-- The sum of the doublings at the one bits of a number is that multiple. -/
theorem sumAtBits_doublings (bits k : Nat) (g : Group) (h : k < 2 ^ bits) :
    sumAtBits k (doublings bits (ofGroup g)) = ofGroup (k • g) := by
  induction bits generalizing k g with
  | zero =>
    have : k = 0 := by simpa using h
    rw [this, zero_nsmul]
    rfl
  | succ bits ih =>
    have hk : k / 2 < 2 ^ bits := by rw [pow_succ] at h; omega
    have htwice : (k / 2) • (g + g) = (2 * (k / 2)) • g := by rw [← two_nsmul, ← mul_nsmul, Nat.mul_comm]
    have hdiv := Nat.div_add_mod k 2
    rw [doublings, ← ofGroup_add, sumAtBits, ih (k / 2) (g + g) hk, htwice]
    split
    · rename_i hodd
      rw [← ofGroup_add, ← succ_nsmul']
      congr 2
      omega
    · congr 2
      omega

/-- Multiples of points are those of the group. -/
theorem mul_ofGroup (k : Scalar) (g : Group) : mul k (ofGroup g) = ofGroup (k.val • g) :=
  sumAtBits_doublings 256 k.val g (k.isLt.trans (by decide))

/-- The base point lies on the curve. -/
theorem generator_onCurve : generator.OnCurve := by decide +kernel

/-- Adding up the doublings for the order of the group leads to infinity. -/
theorem sumAtBits_groupOrder : sumAtBits groupOrder (doublings 256 generator) = .infinity := by decide +kernel

end Point

/-- The base point in the group. -/
noncomputable def base : Group := (Point.onCurve_iff.mp Point.generator_onCurve).choose

@[simp] theorem ofGroup_base : Point.ofGroup base = Point.generator :=
  (Point.onCurve_iff.mp Point.generator_onCurve).choose_spec

theorem base_ne_zero : base ≠ 0 := by
  intro h
  have hg := ofGroup_base
  rw [h, Point.ofGroup_zero] at hg
  exact absurd hg (by decide)

theorem groupOrder_smul_base : groupOrder • base = 0 := by
  have h := Point.sumAtBits_doublings 256 groupOrder base (by decide)
  rwa [ofGroup_base, Point.sumAtBits_groupOrder, eq_comm, Point.ofGroup_eq_infinity_iff] at h

/-- The base point has prime order. -/
theorem addOrderOf_base : addOrderOf base = groupOrder := addOrderOf_eq_prime groupOrder_smul_base base_ne_zero

/-- The multiple of the base point by a residue modulo its order. -/
noncomputable def multiple : ZMod groupOrder →+ Group :=
  ZMod.lift groupOrder ⟨zmultiplesHom Group base, by simpa using groupOrder_smul_base⟩

theorem multiple_natCast (n : Nat) : multiple (n : ZMod groupOrder) = n • base := by
  have := ZMod.lift_coe groupOrder ⟨zmultiplesHom Group base, by simpa using groupOrder_smul_base⟩ (n : ℤ)
  simpa [multiple] using this

/-- Only the multiple by zero is neutral. -/
theorem multiple_eq_zero_iff {x : ZMod groupOrder} : multiple x = 0 ↔ x = 0 := by
  constructor
  · intro h
    rw [← ZMod.natCast_zmod_val x, multiple_natCast] at h
    have hdvd := addOrderOf_dvd_of_nsmul_eq_zero h
    rw [addOrderOf_base] at hdvd
    rw [← ZMod.natCast_zmod_val x, ZMod.natCast_eq_zero_iff]
    exact hdvd
  · rintro rfl
    exact map_zero multiple

/-- A multiple of a multiple is the multiple by the product. -/
theorem smul_multiple (n : Nat) (x : ZMod groupOrder) : n • multiple x = multiple (n * x) := by
  rw [← map_nsmul, nsmul_eq_mul]

namespace Point

/-- What is computed from the base point is its multiple. -/
theorem mulGenerator_eq (k : Scalar) : mulGenerator k = ofGroup (multiple (residue k)) := by
  rw [mulGenerator_eq_mul, ← ofGroup_base, mul_ofGroup, residue, multiple_natCast]

/-- What is computed from a multiple of the base point is a multiple of it. -/
theorem mul_multiple (k : Scalar) (x : ZMod groupOrder) :
    mul k (ofGroup (multiple x)) = ofGroup (multiple (residue k * x)) := by
  rw [mul_ofGroup, smul_multiple, residue]

end Point

end OfflineSigner.Curve
