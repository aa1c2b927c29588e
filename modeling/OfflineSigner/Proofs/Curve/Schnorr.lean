import OfflineSigner.Curve.Schnorr
import OfflineSigner.Proofs.Curve.Key

/-!
# Schnorr signatures verify

What it is for a signature to be valid, told in the group of points without reference to how it is verified (`Schnorr.Valid`).
Main statements: signatures verify exactly when they are valid (`verify_eq_true_iff`); a signature is valid under the x-only key
of its secret key (`valid_sign_iff`, `verify_sign`), unless the nonce is zero and the signature of zeros stands in, which is valid
for nothing (`sign_of_nonce_eq_zero`, `not_valid_zeros`).
-/

namespace OfflineSigner.Curve.Schnorr

/-! ## What is verified -/

/-- Whether a signature is valid for a digest under an x-only key: its first half writes the first coordinate of a point `R`, its
second half a number `s` below the order of the group, and `s G = R + e P` for the challenge `e` and the point `P` above the key,
where `R` and `P` have even second coordinates. -/
structure Valid (digest : Digest) (σ : Signature) (K : XOnlyKey) : Prop where
  response_lt : Bytes.toNatBE (σ.toList.drop 32) < groupOrder
  equation : ∃ (R P : Group) (x y y' : FieldElement),
    σ.toList.take 32 = x.toBytes.toList ∧ Point.ofGroup R = .affine x y ∧ y.isEven = true ∧
    Point.ofGroup P = .affine K.x y' ∧ y'.isEven = true ∧
    Bytes.toNatBE (σ.toList.drop 32) • base = R + (challenge (σ.toList.take 32) K digest).val • P

/-- What is compared in verifying a signature, in the group. -/
theorem mulGenerator_add_neg_mul (s e : Scalar) (P : Group) :
    Point.mulGenerator s + -Point.mul e (Point.ofGroup P) = Point.ofGroup (s.val • base - e.val • P) := by
  rw [Point.mulGenerator_eq, residue, multiple_natCast, Point.mul_ofGroup, ← Point.ofGroup_neg, ← Point.ofGroup_add,
    sub_eq_add_neg]

/-- Signatures verify exactly when they are valid. -/
theorem verify_eq_true_iff {digest : Digest} {σ : Signature} {K : XOnlyKey} :
    verify digest σ K = true ↔ Valid digest σ K := by
  have hlength : (σ.toList.take 32).length = 32 := by rw [List.length_take, σ.length_toList]; rfl
  unfold verify
  dsimp only
  constructor
  · intro h
    split at h
    · rename_i x s Q hx hs hQ
      obtain ⟨hcurve, y', rfl, hy'⟩ := Point.exists_of_lift? hQ
      obtain ⟨P, hP⟩ := Point.onCurve_iff.mp hcurve
      rw [← hP, mulGenerator_add_neg_mul] at h
      split at h
      · rename_i x' y hR
        obtain ⟨hsame, hy⟩ := Bool.and_eq_true_iff.mp h
        obtain rfl := beq_iff_eq.mp hsame
        have hval := Scalar.val_of_ofBytes? hs
        refine ⟨hval ▸ s.isLt, _, P, x', y, y', (FieldElement.ofBytes?_eq_some_iff hlength).mp hx, hR, hy, hP, hy', ?_⟩
        rw [← hval, sub_add_cancel]
      · cases h
    · cases h
  · rintro ⟨hlt, R, P, x, y, y', hx, hR, hy, hP, hy', hequation⟩
    obtain ⟨s, hs, hval⟩ := Scalar.exists_of_lt hlt
    have hpoint : K.point? = some (Point.ofGroup P) := by
      rw [XOnlyKey.point?, Point.lift?_of_onCurve (Point.onCurve_iff.mpr ⟨P, hP⟩), if_pos hy', hP]
    have hsum := mulGenerator_add_neg_mul s (challenge (σ.toList.take 32) K digest) P
    rw [hval, hequation, add_sub_cancel_right, hR] at hsum
    rw [(FieldElement.ofBytes?_eq_some_iff hlength).mpr hx, hs, hpoint]
    dsimp only
    rw [hsum]
    exact Bool.and_eq_true_iff.mpr ⟨beq_self_eq_true x, hy⟩

/-! ## What is signed -/

/-- The signature of zeros. -/
def zeros : Signature := FixedBytes.replicate 64 0

/-- No point of the curve has zero as its first coordinate. -/
theorem not_onCurve_zero (y : FieldElement) : ¬(Point.affine 0 y).OnCurve := by
  intro h
  have hnone : (Point.evenY? 0).isSome = false := by decide +kernel
  rw [Point.isSome_evenY?_iff.mpr ⟨y, h⟩] at hnone
  cases hnone

/-- The signature of zeros is valid for nothing. -/
theorem not_valid_zeros (digest : Digest) (K : XOnlyKey) : ¬Valid digest zeros K := by
  rintro ⟨-, R, P, x, y, y', hx, hR, -⟩
  have hzero : x = 0 := FieldElement.eq_of_toBytes (hx.symm.trans (by decide))
  rw [hzero] at hR
  exact not_onCurve_zero y (Point.onCurve_iff.mpr ⟨R, hR⟩)

theorem sign_of_nonce_eq_zero {d : SecretKey} {digest : Digest} (h : nonce d digest = 0) : sign d digest = zeros := by
  unfold sign
  rw [h]
  rfl

/-- The signature that a nonce gives. -/
theorem sign_of_nonce {d k : SecretKey} {digest : Digest} (h : SecretKey.ofScalar? (nonce d digest) = some k) :
    sign d digest = k.xOnly.toBytes.append
      (k.evenScalar + challenge k.xOnly.toBytes.toList d.xOnly digest * d.evenScalar).toBytes := by
  unfold sign
  rw [h]

/-- What a nonce signs is valid under the x-only key: the response is the nonce and the challenge's share of the key. -/
theorem valid_sign {d k : SecretKey} {digest : Digest} (hk : SecretKey.ofScalar? (nonce d digest) = some k) :
    Valid digest (sign d digest) d.xOnly := by
  rw [sign_of_nonce hk]
  generalize hs : k.evenScalar + challenge k.xOnly.toBytes.toList d.xOnly digest * d.evenScalar = s
  have htake : (k.xOnly.toBytes.append s.toBytes).toList.take 32 = k.xOnly.toBytes.toList :=
    List.take_left' k.xOnly.toBytes.length_toList
  have hdrop : Bytes.toNatBE ((k.xOnly.toBytes.append s.toBytes).toList.drop 32) = s.val := by
    rw [← Scalar.toNatBE_toBytes]
    exact congrArg Bytes.toNatBE (List.drop_left' k.xOnly.toBytes.length_toList)
  refine ⟨by rw [hdrop]; exact s.isLt, multiple (residue k.evenScalar), multiple (residue d.evenScalar), k.publicKey.x, _, _,
    htake, k.ofGroup_evenScalar, k.isEven_evenY, d.ofGroup_evenScalar, d.isEven_evenY, ?_⟩
  rw [htake, hdrop, smul_multiple, ← map_add, ← multiple_natCast, ← residue, ← residue, ← residue_mul, ← residue_add, hs]

/-- A secret key's signature is valid exactly when there is a nonce for it. -/
theorem valid_sign_iff {d : SecretKey} {digest : Digest} : Valid digest (sign d digest) d.xOnly ↔ nonce d digest ≠ 0 := by
  constructor
  · intro h hnonce
    rw [sign_of_nonce_eq_zero hnonce] at h
    exact not_valid_zeros digest d.xOnly h
  · intro h
    exact @valid_sign d ⟨nonce d digest, h⟩ digest (dif_pos h)

/-- The signature of zeros stands where there is no nonce, and nowhere else. -/
theorem sign_eq_zeros_iff {d : SecretKey} {digest : Digest} : sign d digest = zeros ↔ nonce d digest = 0 := by
  constructor
  · intro h
    by_contra hnonce
    have hvalid := valid_sign_iff.mpr hnonce
    rw [h] at hvalid
    exact not_valid_zeros digest d.xOnly hvalid
  · exact sign_of_nonce_eq_zero

/-- A signature verifies under the x-only key of its secret key. -/
theorem verify_sign {d : SecretKey} {digest : Digest} (h : sign d digest ≠ zeros) :
    verify digest (sign d digest) d.xOnly = true :=
  verify_eq_true_iff.mpr (valid_sign_iff.mpr (sign_eq_zeros_iff.not.mp h))

end OfflineSigner.Curve.Schnorr
