import OfflineSigner.Proofs.Taproot

/-!
# Taproot signatures

Statements about `Taproot.sign`: a secret key signs exactly when its internal key leads to another one, and then with that one
(`sign_eq_ok_iff`). Main statement: `sign_under_outputKey`, that what is signed verifies under the output key.
-/

namespace OfflineSigner.Taproot

open Curve

/-- A secret key signs with the one that its internal key leads to. -/
theorem sign_eq_ok_iff {digest : Digest} {d : SecretKey} {σ : Schnorr.Signature} :
    sign digest d.toBytes.toList = .ok σ ↔ ∃ tweaked, TweaksTo d tweaked ∧ σ = Schnorr.sign tweaked digest := by
  unfold sign
  rw [bind_eq_ok_iff]
  simp only [mapError_eq_ok_iff]
  constructor
  · rintro ⟨d', hd', h⟩
    obtain rfl := SecretKey.eq_of_toBytes (SecretKey.ofBytes_eq_ok_iff.mp hd')
    obtain ⟨tweaked, htweaked, h⟩ := bind_eq_ok_iff.mp h
    exact ⟨tweaked, tweakedSecret_eq_ok_iff_tweaksTo.mp htweaked, (Except.ok.inj h).symm⟩
  · rintro ⟨tweaked, htweaks, hσ⟩
    rw [hσ]
    exact ⟨d, d.ofBytes_toBytes, bind_eq_ok_iff.mpr ⟨tweaked, tweakedSecret_eq_ok_iff_tweaksTo.mpr htweaks, rfl⟩⟩

/-- The output key is that of the secret key to which the internal key leads. -/
theorem TweaksTo.exists_outputKey {d tweaked : SecretKey} (h : TweaksTo d tweaked) :
    ∃ q, outputKey d.xOnly = .ok q ∧ q.key = tweaked.xOnly :=
  ⟨_, outputKey_eq_ok_iff.mpr ⟨tweaked, tweakedSecret_eq_ok_iff_tweaksTo.mpr h, rfl⟩, rfl⟩

/-- Signatures verify under the output key. Take a secret key between zero and the order of the group, as the internal key the
first coordinate of its multiple of the base point, and a hash of the internal key that is below the order of the group and does
not lead to zero when it is added to the secret key or its opposite. Then every digest is signed, the internal key has an output
key, and the signature verifies under it, whatever the parities of the second coordinates of the two keys and of the nonce. To
verify is to be valid in the group. Only a nonce of zero signs nothing, and what stands in its place does not verify. -/
theorem sign_under_outputKey {secret : Bytes} (hlength : secret.length = 32) (hpos : 0 < secret.toNatBE)
    (hlt : secret.toNatBE < groupOrder) {internal : XOnlyKey} {y : FieldElement}
    (hinternal : Point.ofGroup (secret.toNatBE • base) = .affine internal.x y)
    (hhash : (tweakHash internal).toList.toNatBE < groupOrder) {tweaked : SecretKey}
    (htweaked : tweaked.scalar.val =
      ((if y.isEven then secret.toNatBE else groupOrder - secret.toNatBE) + (tweakHash internal).toList.toNatBE) % groupOrder)
    (digest : Digest) :
    ∃ σ q, sign digest secret = .ok σ ∧ outputKey internal = .ok q ∧
      (Schnorr.verify digest σ q.key = true ↔ Schnorr.nonce tweaked digest ≠ 0) ∧
      (Schnorr.verify digest σ q.key = true ↔ Schnorr.Valid digest σ q.key) := by
  obtain ⟨d, rfl, hval⟩ := SecretKey.exists_of_bytes hlength hpos hlt
  rw [← hval] at hinternal htweaked
  obtain ⟨hx, rfl⟩ := Point.affine.inj (d.ofGroup_nsmul_base.symm.trans hinternal)
  obtain rfl : d.xOnly = internal := congrArg XOnlyKey.mk hx
  have htweaks : TweaksTo d tweaked := ⟨hhash, htweaked⟩
  obtain ⟨q, hq, hkey⟩ := htweaks.exists_outputKey
  refine ⟨Schnorr.sign tweaked digest, q, sign_eq_ok_iff.mpr ⟨tweaked, htweaks, rfl⟩, hq, ?_, Schnorr.verify_eq_true_iff⟩
  rw [Schnorr.verify_eq_true_iff, hkey, Schnorr.valid_sign_iff]

/-- The nonce of the sample for the digest of zeros. -/
def nonceSix : SecretKey :=
  ⟨Scalar.ofNat 18319867791725331440000122337623878780350275317656331948135207526272554293519, by decide⟩

theorem nonce_tweakedSix : Schnorr.nonce tweakedSix (FixedBytes.replicate 32 0) = nonceSix.scalar := by
  unfold Schnorr.nonce
  rw [SecretKey.evenScalar, SecretKey.xOnly, publicKey_tweakedSix]
  decide +kernel

/-- A signature where the second coordinates of the internal key, of the output key and of the nonce are all odd. -/
theorem sign_under_outputKey_six :
    six.publicKey.y.isEven = false ∧ tweakedSix.publicKey.y.isEven = false ∧ nonceSix.publicKey.y.isEven = false ∧
      Schnorr.nonce tweakedSix (FixedBytes.replicate 32 0) = nonceSix.scalar ∧
      ∃ σ q, sign (FixedBytes.replicate 32 0) six.toBytes.toList = .ok σ ∧ outputKey six.xOnly = .ok q ∧
        Schnorr.verify (FixedBytes.replicate 32 0) σ q.key = true := by
  have hval : six.toBytes.toList.toNatBE = six.scalar.val := Scalar.toNatBE_toBytes _
  have hinternal : Point.ofGroup (six.toBytes.toList.toNatBE • base) = .affine six.xOnly.x six.publicKey.y := by
    rw [hval]
    exact six.ofGroup_nsmul_base
  have htweaked : tweakedSix.scalar.val = ((if six.publicKey.y.isEven then six.toBytes.toList.toNatBE
      else groupOrder - six.toBytes.toList.toNatBE) + (tweakHash six.xOnly).toList.toNatBE) % groupOrder := by
    rw [hval]
    exact tweaksTo_six.scalar
  obtain ⟨σ, q, hσ, hq, hverify, -⟩ := sign_under_outputKey six.toBytes.length_toList (hval ▸ six.val_pos)
    (hval ▸ six.scalar.isLt) hinternal tweaksTo_six.hash_lt htweaked (FixedBytes.replicate 32 0)
  refine ⟨isEven_six, by rw [publicKey_tweakedSix]; decide, by decide +kernel, nonce_tweakedSix, σ, q, hσ, hq, hverify.mpr ?_⟩
  rw [nonce_tweakedSix]
  exact nonceSix.scalar_ne_zero

end OfflineSigner.Taproot
