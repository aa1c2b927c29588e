import OfflineSigner.Curve.Ecdsa
import OfflineSigner.Proofs.Curve.Key

/-!
# A signature gives its public key

Statements about `Ecdsa.signWith?`, `Ecdsa.sign` and `Ecdsa.recover`: from a signature that some nonce gives, with its recovery
id, the public key of the signer is computed (`Signs.recover`). The search for a nonce may come to its end without one,
and then the null signature stands in; every other signature is one that a nonce gives (`recover_sign`).
-/

namespace OfflineSigner.Curve.Ecdsa

/-- The first coordinate of the nonce's point, from `r` and whether the coordinate was below the order of the group. -/
theorem abscissa_of_scalar (x : FieldElement) :
    (Scalar.ofNat x.val).val + (if groupOrder ≤ x.val then groupOrder else 0) = x.val := by
  have hlt : x.val < 2 * groupOrder := x.isLt.trans (by decide)
  have hval : (Scalar.ofNat x.val).val = x.val % groupOrder := rfl
  rw [hval]
  split
  · rw [Nat.mod_eq_sub_mod ‹_›, Nat.mod_eq_of_lt (by omega)]
    omega
  · rw [Nat.mod_eq_of_lt (by omega), Nat.add_zero]

/-- What the signature of a nonce says: its point, up to the sign that makes `s` low. -/
structure Signs (d : SecretKey) (z : Scalar) (nonce : SecretKey) (σ : Signature) (x y : FieldElement) (flip : Bool) : Prop where
  point : Point.mulGenerator nonce.scalar = .affine x y
  r : σ.r = Scalar.ofNat x.val
  r_ne_zero : σ.r ≠ 0
  s_ne_zero : σ.s ≠ 0
  s : σ.s = if flip then -(nonce.scalar.inverse * (z + σ.r * d.scalar)) else nonce.scalar.inverse * (z + σ.r * d.scalar)
  high : σ.recoveryId.val / 2 = if groupOrder ≤ x.val then 1 else 0
  odd : (σ.recoveryId.val % 2 == 0) = if flip then !y.isEven else y.isEven

theorem neg_scalar_ne_zero {k : Scalar} (h : k ≠ 0) : -k ≠ 0 := by
  rw [Ne, ← residue_eq_zero_iff, residue_neg, neg_eq_zero, residue_eq_zero_iff]
  exact h

/-- The two parts of a recovery id are read back from it. -/
theorem recoveryId_parts (high odd : Bool) :
    ((if high then 2 else 0 : Fin 4) + (if odd then 0 else 1)).val / 2 = (if high then 1 else 0) ∧
      (((if high then 2 else 0 : Fin 4) + (if odd then 0 else 1)).val % 2 == 0) = odd ∧
      ((if high then 2 else 0 : Fin 4) + (1 - (if odd then 0 else 1))).val / 2 = (if high then 1 else 0) ∧
      (((if high then 2 else 0 : Fin 4) + (1 - (if odd then 0 else 1))).val % 2 == 0) = !odd := by
  cases high <;> cases odd <;> decide

/-- The signature that a nonce gives, spelled out. -/
theorem signs_of_signWith? {d : SecretKey} {z : Scalar} {nonce : SecretKey} {σ : Signature}
    (h : signWith? d z nonce = some σ) : ∃ x y flip, Signs d z nonce σ x y flip := by
  unfold signWith? at h
  cases hp : Point.mulGenerator nonce.scalar with
  | infinity =>
    rw [hp] at h
    cases h
  | affine x y =>
    rw [hp] at h
    dsimp only at h
    split at h
    · cases h
    · rename_i hne
      obtain ⟨hr, hs⟩ := not_or.mp hne
      have hbits := recoveryId_parts (decide (groupOrder ≤ x.val)) y.isEven
      simp only [decide_eq_true_eq] at hbits
      split at h
      · rw [← Option.some.inj h]
        exact ⟨x, y, false, hp, rfl, hr, hs, rfl, hbits.1, hbits.2.1⟩
      · rw [← Option.some.inj h]
        exact ⟨x, y, true, hp, rfl, hr, neg_scalar_ne_zero hs, rfl, hbits.2.2.1, hbits.2.2.2⟩

/-- The point that the recovery id singles out is the nonce's, or its opposite when `s` was replaced by its own opposite. -/
theorem Signs.lift? {d nonce : SecretKey} {z : Scalar} {σ : Signature} {x y : FieldElement} {flip : Bool}
    (h : Signs d z nonce σ x y flip) :
    Point.lift? x (σ.recoveryId.val % 2 == 0) =
      some (Point.ofGroup (multiple (if flip then -residue nonce.scalar else residue nonce.scalar))) := by
  have hon : (Point.affine x y).OnCurve := by
    rw [← h.point, Point.mulGenerator_eq]
    exact Point.onCurve_iff.mpr ⟨_, rfl⟩
  have hpoint : Point.ofGroup (multiple (residue nonce.scalar)) = .affine x y := by rw [← Point.mulGenerator_eq, h.point]
  rw [Point.lift?_of_onCurve hon, h.odd]
  cases flip with
  | false => simp [hpoint]
  | true =>
    rw [if_pos rfl, if_pos rfl, map_neg, Point.ofGroup_neg, hpoint]
    cases y.isEven <;> rfl

/-- The public key is computed from every signature that a nonce gives. -/
theorem Signs.recover {d nonce : SecretKey} {digest : Digest} {σ : Signature} {x y : FieldElement} {flip : Bool}
    (h : Signs d (digestScalar digest) nonce σ x y flip) : recover σ digest = .ok d.publicKey := by
  have hx : σ.r.val + (if σ.recoveryId.val / 2 = 1 then groupOrder else 0) = x.val := by
    have hif : (if σ.recoveryId.val / 2 = 1 then groupOrder else 0) = if groupOrder ≤ x.val then groupOrder else 0 := by
      rw [h.high]
      split <;> simp
    rw [hif, h.r]
    exact abscissa_of_scalar x
  have hofNat : FieldElement.ofNat x.val = x := by
    apply Fin.ext
    exact Nat.mod_eq_of_lt x.isLt
  have hk : residue nonce.scalar ≠ 0 := nonce.residue_ne_zero
  have hr : residue σ.r ≠ 0 := fun h0 => h.r_ne_zero (residue_eq_zero_iff.mp h0)
  -- The sign of `s` and that of the recovered point cancel.
  have hs : residue σ.s * (if flip then -residue nonce.scalar else residue nonce.scalar) =
      residue (digestScalar digest) + residue σ.r * residue d.scalar := by
    rw [h.s]
    cases flip <;> simp <;> field_simp
  have hsum : residue (σ.r.inverse * σ.s) * (if flip then -residue nonce.scalar else residue nonce.scalar) +
      residue (-(σ.r.inverse * digestScalar digest)) = residue d.scalar := by
    rw [residue_mul, residue_neg, residue_mul, Scalar.residue_inverse, mul_assoc, hs]
    field_simp
    ring
  unfold Ecdsa.recover
  dsimp only
  rw [hx, if_neg, hofNat, h.lift?]
  · dsimp only
    rw [Point.mul_multiple, Point.mulGenerator_eq, ← Point.ofGroup_add, ← map_add, hsum, SecretKey.ofPoint?_multiple,
      SecretKey.ofScalar?_scalar]
    rfl
  · rintro (h0 | h0 | h0)
    · exact h.r_ne_zero h0
    · exact h.s_ne_zero h0
    · exact absurd x.isLt (Nat.not_lt.mpr h0)

/-- What the search finds is the signature of some nonce. -/
theorem signWith?_of_search {d : SecretKey} {z : Scalar} {attempts : Nat} {st : NonceState} {σ : Signature}
    (h : search d z attempts st = some σ) : ∃ nonce, signWith? d z nonce = some σ := by
  induction attempts generalizing st with
  | zero => cases h
  | succ attempts ih =>
    unfold search at h
    dsimp only at h
    split at h
    · rename_i σ' hfound
      obtain ⟨nonce, -, hnonce⟩ := Option.bind_eq_some_iff.mp hfound
      exact ⟨nonce, by rw [hnonce, Option.some.inj h]⟩
    · exact ih h

/-- A signature whose `r` is not zero is the signature of some nonce: the null signature has none. -/
theorem signs_of_sign {d : SecretKey} {digest : Digest} (h : (sign d digest).r ≠ 0) :
    ∃ nonce x y flip, Signs d (digestScalar digest) nonce (sign d digest) x y flip := by
  unfold sign at h ⊢
  cases hs : search d (digestScalar digest) 256 (NonceState.initial d digest) with
  | none =>
    rw [hs] at h
    exact absurd rfl h
  | some σ =>
    obtain ⟨nonce, hnonce⟩ := signWith?_of_search hs
    exact ⟨nonce, signs_of_signWith? hnonce⟩

/-- From a signature and its digest the signer's public key is computed. -/
theorem recover_sign {d : SecretKey} {digest : Digest} (h : (sign d digest).r ≠ 0) :
    recover (sign d digest) digest = .ok d.publicKey := by
  obtain ⟨nonce, x, y, flip, hsigns⟩ := signs_of_sign h
  exact hsigns.recover

end OfflineSigner.Curve.Ecdsa
