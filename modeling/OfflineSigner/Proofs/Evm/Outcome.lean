import OfflineSigner.Evm.Guarded
import OfflineSigner.Proofs.Evm.FieldV

/-!
# When a transaction is signed

What it takes for bytes to sign a transaction (`Transaction.Signable`), and what keeps them from it, in order
(`Transaction.Refused`), both told in the group and in whole numbers. Main statement: a transaction is signed exactly when it is
signable, and else refused for the first reason that holds; `v` is never reduced, there are always bytes, and the guards along
the way catch nothing else (`sign_outcome`).
-/

namespace OfflineSigner

open Curve

/-! ## Keys and their addresses -/

namespace Curve.SecretKey

/-- Whether bytes are those of a secret key: there are 32, and they write its scalar. -/
structure WrittenAs (d : SecretKey) (bs : Bytes) : Prop where
  length : bs.length = 32
  number : bs.toNatBE = d.scalar.val

theorem ofBytes_eq_ok_iff_writtenAs {d : SecretKey} {bs : Bytes} : ofBytes bs = .ok d ↔ d.WrittenAs bs := by
  rw [ofBytes_eq_ok_iff]
  constructor
  · rintro rfl
    exact ⟨d.toBytes.length_toList, Scalar.toNatBE_toBytes d.scalar⟩
  · rintro ⟨hlength, hnumber⟩
    refine Bytes.toNatBE_inj (d.toBytes.length_toList.trans hlength.symm) ?_
    rw [hnumber]
    exact Scalar.toNatBE_toBytes d.scalar

/-- Bytes are those of some secret key when they write a number between zero and the order of the group. -/
theorem exists_writtenAs_iff {bs : Bytes} :
    (∃ d : SecretKey, d.WrittenAs bs) ↔ bs.length = 32 ∧ 0 < bs.toNatBE ∧ bs.toNatBE < groupOrder := by
  simp only [← exists_toBytes_iff, ← ofBytes_eq_ok_iff_writtenAs, ofBytes_eq_ok_iff]

/-- Whether a secret key controls an address: the address is the last twenty bytes of the hash of the coordinates to which the
scalar leads. -/
def Controls (d : SecretKey) (a : EvmAddress) : Prop :=
  ∃ x y : FieldElement, Point.ofGroup (d.scalar.val • base) = .affine x y ∧
    a.toList = (Hash.keccak256 (x.toBytes.toList ++ y.toBytes.toList)).toList.drop 12

theorem controls_iff {d : SecretKey} {a : EvmAddress} : d.Controls a ↔ EvmAddress.ofPublicKey d.publicKey = a := by
  have hpoint := d.ofGroup_nsmul_base
  constructor
  · rintro ⟨x, y, hxy, ha⟩
    rw [hpoint] at hxy
    obtain ⟨hx, hy⟩ := Point.affine.inj hxy
    refine FixedBytes.eq_of_toList ?_
    rw [ha, ← hx, ← hy]
    rfl
  · rintro rfl
    exact ⟨_, _, hpoint, rfl⟩

end Curve.SecretKey

namespace Evm

/-- There are bytes of every signed transaction. -/
theorem Signed.raw_ne_nil (signed : Signed) : signed.raw ≠ [] := by
  obtain ⟨t, signature⟩ := signed
  cases hfee : t.fee with
  | legacy gasPrice =>
    obtain ⟨b, tail, hraw, -⟩ := Rlp.encodeList_eq_cons (Rlp.Item.encodeAll (t.legacyItems gasPrice signature))
    rw [Transaction.raw_of_legacy hfee, Rlp.Item.encode, hraw]
    simp
  | capped maxFee priority => simp [Transaction.raw_of_capped hfee]

namespace Transaction

variable {t : Transaction} {secret : Bytes} {config : EvmConfig} {d : SecretKey}

/-! ## What signing comes to -/

/-- Whether a secret key may sign a transaction: it controls the sender, or need not. -/
def MaySign (t : Transaction) (config : EvmConfig) (d : SecretKey) : Prop :=
  d.Controls t.sender ∨ config.requireFromMatch = false

theorem maySign_iff :
    t.MaySign config d ↔ ¬(EvmAddress.ofPublicKey d.publicKey ≠ t.sender ∧ config.requireFromMatch = true) := by
  rw [MaySign, SecretKey.controls_iff, not_and_or, not_not, Bool.not_eq_true]

/-- Whether there is room in `v` for the chain id and a recovery id. -/
def HasRoom (t : Transaction) (id : Fin 4) : Prop :=
  t.fee.isCapped = true ∨ t.chainId = 0 ∨ 2 * t.chainId.toNat + 35 + id.val ≤ 2 ^ 64 - 1

theorem hasRoom_iff {id : Fin 4} : t.HasRoom id ↔ t.vNumber id < UInt64.size := by
  have hid := id.isLt
  have hsize : UInt64.size = 2 ^ 64 := rfl
  cases hcapped : t.fee.isCapped with
  | true =>
    rw [HasRoom, hcapped, vNumber_of_capped hcapped]
    exact iff_of_true (Or.inl rfl) (by omega)
  | false =>
    rw [HasRoom, hcapped, vNumber_of_legacy hcapped]
    by_cases hchain : t.chainId = 0
    · simp [hchain]
      omega
    · simp [hchain]
      omega

-- On the greatest chain with room there is room for one parity only.
example : ({ eip155 with chainId := 2 ^ 63 - 18 } : Transaction).v 0 = .ok (2 ^ 64 - 1) ∧
    ({ eip155 with chainId := 2 ^ 63 - 18 } : Transaction).v 1 = .error .chainIdTooLarge := by decide +kernel

/-- Bytes that are those of no key sign nothing. -/
theorem sign_of_keyless (h : ¬∃ d : SecretKey, d.WrittenAs secret) :
    ∃ fault, t.sign secret config = .error (.secretKey fault) := by
  cases hkey : SecretKey.ofBytes secret with
  | ok d => exact absurd ⟨d, SecretKey.ofBytes_eq_ok_iff_writtenAs.mp hkey⟩ h
  | error fault =>
    refine ⟨fault, ?_⟩
    unfold sign
    rw [hkey]
    rfl

/-- Nor does a key that may not. -/
theorem sign_of_foreign (h : d.WrittenAs secret) (hforeign : ¬t.MaySign config d) :
    t.sign secret config = .error (.foreignSender (EvmAddress.ofPublicKey d.publicKey) t.sender) := by
  rw [maySign_iff, not_not] at hforeign
  unfold sign
  rw [SecretKey.ofBytes_eq_ok_iff_writtenAs.mpr h]
  simp [Except.mapError, hforeign]
  rfl

/-- With a key that may sign it all depends on the field `v`. -/
theorem sign_of_maySign (h : d.WrittenAs secret) (hmay : t.MaySign config d) :
    t.sign secret config =
      (t.v (Ecdsa.sign d t.signingHash).recoveryId).map fun n => ⟨t, signatureOf (Ecdsa.sign d t.signingHash) n⟩ := by
  rw [maySign_iff] at hmay
  have hkey : (SecretKey.ofBytes secret).mapError SignError.secretKey = .ok d := by
    rw [SecretKey.ofBytes_eq_ok_iff_writtenAs.mpr h]
    rfl
  unfold sign
  rw [hkey, ok_bind]
  dsimp only
  rw [if_neg hmay]
  cases t.v (Ecdsa.sign d t.signingHash).recoveryId <;> rfl

/-! ## The guards -/

/-- A recovery id is a byte. -/
theorem byte?_recoveryId (id : Fin 4) : byte? (Int32.ofNat id.val) = some (UInt8.ofNat id.val) := by
  revert id
  decide

theorem narrow?_eq_some_iff {n : Nat} {k : UInt64} : narrow? n = some k ↔ k.toNat = n := by
  unfold narrow?
  split
  · rename_i hlt
    rw [Option.some.injEq, ofNat_eq_iff hlt]
  · rename_i hle
    refine iff_of_false nofun fun h => hle ?_
    rw [← h]
    exact k.toNat_lt_size

/-- What is added to a number that has to fit fits when the sum does. -/
theorem narrow?_add_eq_some_iff {m n : Nat} {k : UInt64} :
    ((narrow? m).bind fun narrowed => narrow? (narrowed.toNat + n)) = some k ↔ k.toNat = m + n := by
  simp only [Option.bind_eq_some_iff, narrow?_eq_some_iff]
  constructor
  · rintro ⟨narrowed, hm, hk⟩
    rw [hk, hm]
  · intro h
    have hlt : m < UInt64.size := by
      have := k.toNat_lt_size
      omega
    have hm := UInt64.toNat_ofNat_of_lt' hlt
    exact ⟨_, hm, by rw [h, hm]⟩

/-- Where each operation on the way to `v` is guarded, what is caught is that `v` is too large in the end. -/
theorem guardedV_eq (t : Transaction) (id : Fin 4) : t.guardedV (UInt8.ofNat id.val) = t.v id := by
  have hbyte : (UInt8.ofNat id.val).toUInt64 = UInt64.ofNat id.val := by
    revert id
    decide
  have hpre : UInt64.ofNat id.val + 27 = UInt64.ofNat (27 + id.val) := by
    revert id
    decide
  have hadded : (35 + UInt64.ofNat id.val).toNat = 35 + id.val := by
    revert id
    decide
  unfold guardedV
  dsimp only
  rw [hbyte]
  cases hcapped : t.fee.isCapped with
  | true => simp [v, hcapped]
  | false =>
    by_cases hchain : t.chainId = 0
    · simp [v, hcapped, hchain, hpre]
    · have hnumber : t.vNumber id = t.chainId.toNat * 2 + (35 + UInt64.ofNat id.val).toNat := by
        rw [vNumber_of_legacy hcapped, if_neg hchain, hadded, mul_comm]
        exact add_assoc _ _ _
      rw [if_neg Bool.false_ne_true, if_neg hchain]
      -- Both sides are told by the number: it is there, or it does not fit.
      split
      · rename_i n hn
        rw [narrow?_add_eq_some_iff, ← hnumber] at hn
        exact (v_eq_ok_iff.mpr hn).symm
      · rename_i hnone
        refine (v_eq_error_iff.mpr ⟨?_, rfl⟩).symm
        by_contra hlt
        have hfits := UInt64.toNat_ofNat_of_lt' (Nat.not_le.mp hlt)
        rw [hnumber, ← narrow?_add_eq_some_iff, hnone] at hfits
        cases hfits

/-- Signing with a guard at every step is signing: the guards on the recovery id and on the bytes catch nothing. -/
theorem guardedSign_eq (t : Transaction) (secret : Bytes) (config : EvmConfig) :
    t.guardedSign secret config = (t.sign secret config).mapError .sign := by
  unfold guardedSign sign
  cases hkey : SecretKey.ofBytes secret with
  | error fault => rfl
  | ok d =>
    simp only [Except.mapError, ok_bind, byte?_recoveryId, guardedV_eq]
    split
    · rfl
    · rcases t.v (Ecdsa.sign d t.signingHash).recoveryId with e | n
      · rfl
      · simp [Signed.raw_ne_nil]

/-! ## The outcome -/

/-- What it takes for bytes to sign a transaction: they write a key, the key may sign, and `v` has room. -/
structure Signable (t : Transaction) (secret : Bytes) (config : EvmConfig) (d : SecretKey) : Prop where
  key : d.WrittenAs secret
  maySign : t.MaySign config d
  room : t.HasRoom (Ecdsa.sign d t.signingHash).recoveryId

/-- Why bytes do not sign a transaction, and the code for it. A reason holds only where those before it do not. -/
inductive Refused (t : Transaction) (secret : Bytes) (config : EvmConfig) : FailureCode → Prop where
  | key (h : ¬(secret.length = 32 ∧ 0 < secret.toNatBE ∧ secret.toNatBE < groupOrder)) :
    Refused t secret config .invalidPrivateKeyFound
  | sender {d : SecretKey} (key : d.WrittenAs secret) (h : ¬t.MaySign config d) : Refused t secret config .keyMismatch
  | room {d : SecretKey} (key : d.WrittenAs secret) (maySign : t.MaySign config d)
    (h : ¬t.HasRoom (Ecdsa.sign d t.signingHash).recoveryId) : Refused t secret config .invalidTransactionStructure

theorem signable_or_refused (t : Transaction) (secret : Bytes) (config : EvmConfig) :
    (∃ d, t.Signable secret config d) ∨ ∃ code, t.Refused secret config code := by
  by_cases hkey : ∃ d : SecretKey, d.WrittenAs secret
  · obtain ⟨d, hkey⟩ := hkey
    by_cases hmay : t.MaySign config d
    · by_cases hroom : t.HasRoom (Ecdsa.sign d t.signingHash).recoveryId
      · exact Or.inl ⟨d, hkey, hmay, hroom⟩
      · exact Or.inr ⟨_, .room hkey hmay hroom⟩
    · exact Or.inr ⟨_, .sender hkey hmay⟩
  · rw [SecretKey.exists_writtenAs_iff] at hkey
    exact Or.inr ⟨_, .key hkey⟩

theorem Signable.sign_eq_ok (h : t.Signable secret config d) :
    ∃ n, n.toNat = t.vNumber (Ecdsa.sign d t.signingHash).recoveryId ∧
      t.sign secret config = .ok ⟨t, signatureOf (Ecdsa.sign d t.signingHash) n⟩ := by
  obtain ⟨hkey, hmay, hroom⟩ := h
  have hn := UInt64.toNat_ofNat_of_lt' (hasRoom_iff.mp hroom)
  refine ⟨_, hn, ?_⟩
  rw [sign_of_maySign hkey hmay, v_eq_ok_iff.mpr hn]
  rfl

theorem Refused.sign_eq_error {code : FailureCode} (h : t.Refused secret config code) :
    ∃ e : SignError, t.sign secret config = .error e ∧ e.report.code = code := by
  cases h with
  | key h =>
    rw [← SecretKey.exists_writtenAs_iff] at h
    obtain ⟨fault, hfault⟩ := sign_of_keyless h
    exact ⟨_, hfault, rfl⟩
  | sender hkey h => exact ⟨_, sign_of_foreign hkey h, rfl⟩
  | room hkey hmay h =>
    rw [hasRoom_iff, Nat.not_lt] at h
    refine ⟨.chainIdTooLarge, ?_, rfl⟩
    rw [sign_of_maySign hkey hmay, v_eq_error_iff.mpr ⟨h, rfl⟩]
    rfl

/-- What is signed was signable. -/
theorem exists_signable {signed : Signed} (h : t.sign secret config = .ok signed) : ∃ d, t.Signable secret config d := by
  refine (signable_or_refused t secret config).resolve_right ?_
  rintro ⟨code, hrefused⟩
  obtain ⟨e, he, -⟩ := hrefused.sign_eq_error
  rw [h] at he
  cases he

/-- What is not signed was refused, with the code of the fault. -/
theorem refused_of_sign_eq_error {e : SignError} (h : t.sign secret config = .error e) :
    t.Refused secret config e.report.code := by
  rcases signable_or_refused t secret config with ⟨d, hsignable⟩ | ⟨code, hrefused⟩
  · obtain ⟨n, -, hsign⟩ := hsignable.sign_eq_ok
    rw [h] at hsign
    cases hsign
  · obtain ⟨e', he', hcode⟩ := hrefused.sign_eq_error
    obtain rfl := Except.error.inj (h.symm.trans he')
    rw [hcode]
    exact hrefused

/-- Bytes sign a transaction exactly when they write a key that may sign it and `v` has room; and else they are refused with
the code of the first reason: no key, a key that may not sign, no room. What is signed carries the signature of the hash by that
key, with the number of `v` as it is and never reduced, and there are bytes of it. The guards on the way catch nothing else: what
is refused with them is refused without, and neither the code for signing nor that for writing is ever used. -/
theorem sign_outcome (t : Transaction) (secret : Bytes) (config : EvmConfig) :
    ((∃ signed, t.sign secret config = .ok signed) ↔ ∃ d, t.Signable secret config d) ∧
    (∀ code, (∃ e : SignError, t.sign secret config = .error e ∧ e.report.code = code) ↔ t.Refused secret config code) ∧
    (∀ signed, t.sign secret config = .ok signed → ∃ d n, d.WrittenAs secret ∧
      signed = ⟨t, signatureOf (Ecdsa.sign d t.signingHash) n⟩ ∧
      n.toNat = t.vNumber (Ecdsa.sign d t.signingHash).recoveryId ∧ signed.raw ≠ []) ∧
    t.guardedSign secret config = (t.sign secret config).mapError .sign ∧
    ∀ e, t.guardedSign secret config = .error e → e.report.code ≠ .signingFailed ∧ e.report.code ≠ .serializationFailed := by
  refine ⟨⟨?_, ?_⟩, fun code => ⟨?_, Refused.sign_eq_error⟩, ?_, guardedSign_eq t secret config, ?_⟩
  · rintro ⟨signed, hsigned⟩
    exact exists_signable hsigned
  · rintro ⟨d, hsignable⟩
    obtain ⟨n, -, hsign⟩ := hsignable.sign_eq_ok
    exact ⟨_, hsign⟩
  · rintro ⟨e, he, rfl⟩
    exact refused_of_sign_eq_error he
  · intro signed hsigned
    obtain ⟨d, hsignable⟩ := exists_signable hsigned
    obtain ⟨n, hn, hsign⟩ := hsignable.sign_eq_ok
    exact ⟨d, n, hsignable.key, Except.ok.inj (hsigned.symm.trans hsign), hn, signed.raw_ne_nil⟩
  · intro e he
    rw [guardedSign_eq] at he
    obtain ⟨fault, -, rfl⟩ := mapError_eq_error_iff.mp he
    cases fault <;> exact ⟨nofun, nofun⟩

end Transaction

end Evm

end OfflineSigner
