import OfflineSigner.Curve.Point
import OfflineSigner.Proofs.Curve.Residue
import Mathlib.AlgebraicGeometry.EllipticCurve.Affine.Point

/-!
# The points form a group

The points on the curve are those of the elliptic curve `y² = x³ + 7` over `ZMod fieldPrime`, whose group law is known.
`Point.ofGroup` writes an element of that group as a point; it is one to one (`Point.ofGroup_injective`), reaches exactly the
points on the curve (`Point.onCurve_iff`), and turns the group's sum and opposite into the chord and tangent rules
(`Point.ofGroup_add`, `Point.ofGroup_neg`).
-/

namespace OfflineSigner.Curve

/-- The curve over the residues modulo the prime. -/
def curve : WeierstrassCurve.Affine (ZMod fieldPrime) := ⟨0, 0, 0, 0, 7⟩

/-- The group of the curve's points. -/
abbrev Group := WeierstrassCurve.Affine.Point curve

/-- A number that the prime of the field does not divide is not zero in the field. -/
theorem natCast_ne_zero {n : Nat} (hpos : 0 < n) (hlt : n < fieldPrime) : (n : ZMod fieldPrime) ≠ 0 := by
  rw [Ne, ZMod.natCast_eq_zero_iff]
  exact Nat.not_dvd_of_pos_of_lt hpos hlt

theorem two_ne_zero_field : (2 : ZMod fieldPrime) ≠ 0 := by
  have := natCast_ne_zero (n := 2) (by decide) (by decide)
  exact_mod_cast this

/-- The curve has no singular point. -/
theorem curve_Δ_ne_zero : curve.Δ ≠ 0 := by
  have h : curve.Δ = -((21168 : Nat) : ZMod fieldPrime) := by
    simp only [WeierstrassCurve.Δ, WeierstrassCurve.b₂, WeierstrassCurve.b₄, WeierstrassCurve.b₆, WeierstrassCurve.b₈, curve]
    push_cast
    ring
  rw [h, neg_ne_zero]
  exact natCast_ne_zero (by decide) (by decide)

theorem equation_iff (x y : ZMod fieldPrime) : curve.Equation x y ↔ y * y = x * x * x + 7 := by
  rw [WeierstrassCurve.Affine.equation_iff]
  simp only [curve]
  constructor <;> intro h <;> linear_combination h

theorem nonsingular_iff (x y : ZMod fieldPrime) : curve.Nonsingular x y ↔ y * y = x * x * x + 7 := by
  rw [← equation_iff, WeierstrassCurve.Affine.equation_iff_nonsingular_of_Δ_ne_zero curve_Δ_ne_zero]

theorem negY_eq (x y : ZMod fieldPrime) : curve.negY x y = -y := by simp [WeierstrassCurve.Affine.negY, curve]

namespace Point

/-- An element of the group as a point. -/
def ofGroup : Group → Point
  | .zero => .infinity
  | .some x y _ => .affine (ofResidue x) (ofResidue y)

@[simp] theorem ofGroup_zero : ofGroup 0 = .infinity := rfl

@[simp] theorem ofGroup_some {x y : ZMod fieldPrime} (h : curve.Nonsingular x y) :
    ofGroup (.some x y h) = .affine (ofResidue x) (ofResidue y) := rfl

theorem ofGroup_injective : Function.Injective ofGroup := by
  intro P Q h
  cases P with
  | zero =>
    cases Q with
    | zero => rfl
    | some x y hQ => cases h
  | some x y hP =>
    cases Q with
    | zero => cases h
    | some x' y' hQ =>
      simp only [ofGroup_some, Point.affine.injEq] at h
      have hx : x = x' := by rw [← residue_ofResidue x, h.1, residue_ofResidue]
      have hy : y = y' := by rw [← residue_ofResidue y, h.2, residue_ofResidue]
      subst hx
      subst hy
      rfl

theorem ofGroup_eq_infinity_iff {P : Group} : ofGroup P = .infinity ↔ P = 0 := by
  rw [← ofGroup_zero, ofGroup_injective.eq_iff]

/-- The points on the curve are the elements of the group. -/
theorem onCurve_iff {P : Point} : P.OnCurve ↔ ∃ g : Group, ofGroup g = P := by
  constructor
  · intro h
    cases P with
    | infinity => exact ⟨0, rfl⟩
    | affine x y =>
      have hxy : residue y * residue y = residue x * residue x * residue x + 7 := by
        have := congrArg residue (h : y * y = x * x * x + 7)
        simpa using this
      exact ⟨.some _ _ ((nonsingular_iff _ _).mpr hxy), by simp⟩
  · rintro ⟨g, rfl⟩
    cases g with
    | zero => exact trivial
    | some x y h =>
      have hxy := (nonsingular_iff x y).mp h
      apply residue_injective
      simpa using hxy

/-- The third point on a line, reflected, from the group's formulas. -/
theorem third_ofResidue (m : FieldElement) (ℓ x y x' : ZMod fieldPrime) (hm : residue m = ℓ) :
    third m (ofResidue x) (ofResidue y) (ofResidue x') =
      .affine (ofResidue (curve.addX x x' ℓ)) (ofResidue (curve.addY x x' y ℓ)) := by
  have hx : residue (m * m - ofResidue x - ofResidue x') = curve.addX x x' ℓ := by
    simp only [residue_sub, residue_mul, residue_ofResidue, hm, WeierstrassCurve.Affine.addX, curve]
    ring
  have hy : residue (m * (ofResidue x - (m * m - ofResidue x - ofResidue x')) - ofResidue y) = curve.addY x x' y ℓ := by
    rw [residue_sub, residue_mul, residue_sub, hx, WeierstrassCurve.Affine.addY, negY_eq,
      WeierstrassCurve.Affine.negAddY, residue_ofResidue, residue_ofResidue, hm]
    ring
  rw [third, ← hx, ← hy, ofResidue_residue, ofResidue_residue]

/-- The chord and tangent rules are the group's sum. -/
theorem ofGroup_add (P Q : Group) : ofGroup (P + Q) = ofGroup P + ofGroup Q := by
  cases P with
  | zero =>
    rw [← WeierstrassCurve.Affine.Point.zero_def, zero_add]
    rfl
  | some x y hP =>
    cases Q with
    | zero =>
      rw [← WeierstrassCurve.Affine.Point.zero_def, add_zero]
      rfl
    | some x' y' hQ =>
      have hadd : ofGroup (.some x y hP) + ofGroup (.some x' y' hQ) =
          add (.affine (ofResidue x) (ofResidue y)) (.affine (ofResidue x') (ofResidue y')) := rfl
      have hne0 : (ofResidue y : FieldElement) ≠ 0 ↔ y ≠ 0 := by
        rw [Ne, ← residue_eq_zero_iff, residue_ofResidue]
      have hinj : ∀ a b : ZMod fieldPrime, (ofResidue a : FieldElement) = ofResidue b ↔ a = b := by
        intro a b
        rw [← residue_inj, residue_ofResidue, residue_ofResidue]
      rw [hadd]
      unfold add
      simp only [hinj, hne0]
      by_cases hx : x = x'
      · rw [if_pos hx]
        by_cases hy : y = curve.negY x' y'
        · -- Opposite points, one of them its own opposite when they are equal: no tangent is drawn.
          rw [WeierstrassCurve.Affine.Point.add_of_Y_eq hx hy, if_neg]
          · rfl
          · rintro ⟨rfl, hy0⟩
            rw [negY_eq] at hy
            have h2 : 2 * y = 0 := by linear_combination hy
            exact hy0 ((mul_eq_zero.mp h2).resolve_left two_ne_zero_field)
        · have hyy : y = y' :=
            (WeierstrassCurve.Affine.Y_eq_of_Y_ne ((equation_iff _ _).mpr ((nonsingular_iff _ _).mp hP))
              ((equation_iff _ _).mpr ((nonsingular_iff _ _).mp hQ)) hx hy)
          have hy0 : y ≠ 0 := by
            rintro rfl
            rw [negY_eq, ← hyy, neg_zero] at hy
            exact hy rfl
          rw [WeierstrassCurve.Affine.Point.add_of_Y_ne hy, if_pos ⟨hyy, hy0⟩, ofGroup_some]
          subst hx
          refine (third_ofResidue _ _ _ _ _ ?_).symm
          rw [WeierstrassCurve.Affine.slope_of_Y_ne rfl hy, negY_eq]
          simp only [residue_mul, residue_ofResidue, FieldElement.residue_two, FieldElement.residue_three,
            FieldElement.residue_inverse, curve, div_eq_mul_inv]
          ring
      · rw [if_neg hx, WeierstrassCurve.Affine.Point.add_of_X_ne hx, ofGroup_some]
        refine (third_ofResidue _ _ _ _ _ ?_).symm
        have hx' : x' - x ≠ 0 := sub_ne_zero.mpr (Ne.symm hx)
        have hx'' : x - x' ≠ 0 := sub_ne_zero.mpr hx
        rw [WeierstrassCurve.Affine.slope_of_X_ne hx]
        simp only [residue_mul, residue_sub, residue_ofResidue, FieldElement.residue_inverse]
        field_simp
        ring

/-- The opposite point is the group's opposite. -/
theorem ofGroup_neg (P : Group) : ofGroup (-P) = -ofGroup P := by
  cases P with
  | zero => rfl
  | some x y h =>
    have hy : (ofResidue (-y) : FieldElement) = -ofResidue y := by
      apply residue_injective
      simp
    rw [WeierstrassCurve.Affine.Point.neg_some, ofGroup_some, negY_eq, hy]
    rfl

end Point

end OfflineSigner.Curve
