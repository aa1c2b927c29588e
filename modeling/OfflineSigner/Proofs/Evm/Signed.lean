import OfflineSigner.Evm.Signed
import OfflineSigner.Proofs.Checked
import OfflineSigner.Proofs.Evm.Wire
import OfflineSigner.Proofs.Rlp.Boundary

/-!
# Signed transactions are self-contained

Statements about `Transaction.v`, `Transaction.sign` and `Signed.raw`. The field `v` holds a number (`Transaction.vNumber`), and is
there exactly when that fits in 64 bits (`v_eq_ok_iff`, `v_eq_error_iff`). The bytes of a signed transaction are decoded to the
end, and say what the transaction and its signature are (`decode?_raw`); so the payload that was signed is rebuilt from them, and
the address of the signer is computed from that payload (`raw_self_contained`).
-/

namespace OfflineSigner.Evm

open Curve

namespace Transaction

/-- What a signed transaction says, given its signature. -/
def wire (t : Transaction) (signature : Signature) : Wire where
  nonce := t.nonce
  fee := t.fee
  gasLimit := t.gasLimit
  recipient := t.recipient
  value := t.value
  data := t.data
  chainId := t.chainId
  accessList := []
  odd := signature.recoveryId.val == 1
  r := signature.r
  s := signature.s

/-- The payload is rebuilt from what the signed transaction says. -/
theorem payload_wire (t : Transaction) (signature : Signature) : (t.wire signature).payload = t.payload := by
  cases h : t.fee with
  | legacy gasPrice =>
    by_cases hchain : t.chainId = 0
    · simp only [Wire.payload, wire, payload, h, if_pos hchain, List.append_nil, Rlp.Item.encode, Rlp.Item.encodeAll,
        Wire.encode_uint64, Wire.encode_word]
      rfl
    · simp only [Wire.payload, wire, payload, h, if_neg hchain, List.cons_append, List.nil_append, Rlp.Item.encode,
        Rlp.Item.encodeAll, Wire.encode_uint64, Wire.encode_word]
      rfl
  | capped maxFee priority =>
    simp only [Wire.payload, wire, payload, h, Rlp.Item.encode, Rlp.Item.encodeAll, Wire.encode_uint64, Wire.encode_word]
    rfl

/-- The items of a signature. -/
def signatureItems (signature : Signature) : List Rlp.Item :=
  [Wire.number 8 signature.v.toNat, Wire.number 32 signature.r.toNat, Wire.number 32 signature.s.toNat]

/-- The items of a legacy transaction with its signature. -/
def legacyItems (t : Transaction) (gasPrice : Word) (signature : Signature) : List Rlp.Item :=
  [Wire.number 8 t.nonce.toNat, Wire.number 32 gasPrice.toNat, Wire.number 8 t.gasLimit.toNat, .bytes t.recipient.toList,
    Wire.number 32 t.value.toNat] ++ .bytes t.data :: signatureItems signature

/-- The items of a transaction with a capped fee and its signature. -/
def cappedItems (t : Transaction) (maxFee priority : Word) (signature : Signature) : List Rlp.Item :=
  [Wire.number 8 t.chainId.toNat, Wire.number 8 t.nonce.toNat, Wire.number 32 priority.toNat, Wire.number 32 maxFee.toNat,
    Wire.number 8 t.gasLimit.toNat, .bytes t.recipient.toList, Wire.number 32 t.value.toNat] ++
    .bytes t.data :: .list [] :: signatureItems signature

/-- A signed legacy transaction is the list of its items. -/
theorem raw_of_legacy {t : Transaction} {gasPrice : Word} (h : t.fee = .legacy gasPrice) (signature : Signature) :
    (Signed.mk t signature).raw = (Rlp.Item.list (t.legacyItems gasPrice signature)).encode := by
  simp only [Signed.raw, h, legacyItems, signatureItems, List.cons_append, List.nil_append, Rlp.Item.encode,
    Rlp.Item.encodeAll, Wire.encode_uint64, Wire.encode_word]
  rfl

/-- A signed transaction with a capped fee is the list of its items behind the type byte. -/
theorem raw_of_capped {t : Transaction} {maxFee priority : Word} (h : t.fee = .capped maxFee priority)
    (signature : Signature) :
    (Signed.mk t signature).raw = 0x02 :: (Rlp.Item.list (t.cappedItems maxFee priority signature)).encode := by
  simp only [Signed.raw, h, cappedItems, signatureItems, List.cons_append, List.nil_append, Rlp.Item.encode,
    Rlp.Item.encodeAll, Wire.encode_uint64, Wire.encode_word]
  rfl

/-! ## The field `v` -/

/-- The number that `v` holds: the recovery id; for a legacy transaction 27 more, or with a chain id 35 more than twice the
id. -/
def vNumber (t : Transaction) (id : Fin 4) : Nat :=
  match t.fee with
  | .capped _ _ => id.val
  | .legacy _ => if t.chainId = 0 then 27 + id.val else 2 * t.chainId.toNat + 35 + id.val

theorem vNumber_of_capped {t : Transaction} (h : t.fee.isCapped = true) (id : Fin 4) : t.vNumber id = id.val := by
  cases hfee : t.fee with
  | legacy gasPrice => simp [hfee, Fee.isCapped] at h
  | capped maxFee priority => simp [vNumber, hfee]

theorem vNumber_of_legacy {t : Transaction} (h : t.fee.isCapped = false) (id : Fin 4) :
    t.vNumber id = if t.chainId = 0 then 27 + id.val else 2 * t.chainId.toNat + 35 + id.val := by
  cases hfee : t.fee with
  | legacy gasPrice => simp [vNumber, hfee]
  | capped maxFee priority => simp [hfee, Fee.isCapped] at h

theorem ofNat_eq_iff {k : Nat} (h : k < UInt64.size) {n : UInt64} : UInt64.ofNat k = n ↔ n.toNat = k := by
  rw [← UInt64.toNat_inj, UInt64.toNat_ofNat_of_lt' h, eq_comm]

/-- The field `v` is its number where that fits in 64 bits, and is missing where it does not. -/
theorem v_eq (t : Transaction) (id : Fin 4) :
    t.v id = if t.vNumber id < UInt64.size then .ok (UInt64.ofNat (t.vNumber id)) else .error .chainIdTooLarge := by
  have hid := id.isLt
  have hsize : UInt64.size = 2 ^ 64 := rfl
  unfold v
  cases hcapped : t.fee.isCapped with
  | true =>
    rw [vNumber_of_capped hcapped, if_pos rfl, if_pos (by omega)]
  | false =>
    rw [vNumber_of_legacy hcapped, if_neg Bool.false_ne_true]
    split
    · rw [if_pos (by omega)]
    · rfl

theorem v_eq_ok_iff {t : Transaction} {id : Fin 4} {n : UInt64} : t.v id = .ok n ↔ n.toNat = t.vNumber id := by
  rw [v_eq]
  split
  · rename_i hlt
    rw [Except.ok.injEq, ofNat_eq_iff hlt]
  · rename_i hle
    refine iff_of_false nofun fun h => hle ?_
    rw [← h]
    exact n.toNat_lt_size

theorem v_eq_error_iff {t : Transaction} {id : Fin 4} {e : SignError} :
    t.v id = .error e ↔ UInt64.size ≤ t.vNumber id ∧ e = .chainIdTooLarge := by
  rw [v_eq]
  split
  · rename_i hlt
    exact iff_of_false nofun fun h => absurd h.1 (Nat.not_le.mpr hlt)
  · rename_i hle
    rw [Except.error.injEq, eq_comm]
    exact (and_iff_right (Nat.not_lt.mp hle)).symm

theorem recoveryId_cases {id : Fin 4} (h : id.val ≤ 1) : id = 0 ∨ id = 1 := by
  revert h id
  decide

/-- The `v` of a legacy transaction gives its chain id and the parity back. -/
theorem chain?_of_v {t : Transaction} (hfee : t.fee.isCapped = false) {id : Fin 4} (hid : id.val ≤ 1) {n : UInt64}
    (h : t.v id = .ok n) : Wire.chain? n = some (t.chainId, id.val == 1) := by
  have hn := v_eq_ok_iff.mp h
  rw [vNumber_of_legacy hfee] at hn
  split at hn
  · rename_i hchain
    rw [← UInt64.ofNat_toNat (x := n), hn, hchain]
    rcases recoveryId_cases hid with rfl | rfl <;> rfl
  · have hhalf : (2 * t.chainId.toNat + 35 + id.val - 35) / 2 = t.chainId.toNat := by omega
    have hparity : (2 * t.chainId.toNat + 35 + id.val - 35) % 2 = id.val := by omega
    rw [Wire.chain?, if_neg, if_pos (by omega), hn, hhalf, hparity, UInt64.ofNat_toNat]
    rintro (h27 | h28)
    · rw [h27] at hn
      exact absurd hn (by simp; omega)
    · rw [h28] at hn
      exact absurd hn (by simp; omega)

/-- The `v` of a transaction with a capped fee gives the parity back. -/
theorem parity?_of_v {t : Transaction} (hfee : t.fee.isCapped = true) {id : Fin 4} (hid : id.val ≤ 1) {n : UInt64}
    (h : t.v id = .ok n) : Wire.parity? n = some (id.val == 1) := by
  have hn := v_eq_ok_iff.mp h
  rw [vNumber_of_capped hfee] at hn
  rw [← UInt64.ofNat_toNat (x := n), hn]
  rcases recoveryId_cases hid with rfl | rfl <;> rfl

/-! ## Decoding -/

/-- The items of a legacy transaction are not too long to be decoded. -/
theorem length_legacyItems_lt {t : Transaction} (hdata : t.data.length < 2 ^ 63) (gasPrice : Word)
    (signature : Signature) : (Rlp.Item.list (t.legacyItems gasPrice signature)).encode.length < 2 ^ 64 := by
  unfold legacyItems signatureItems
  refine Wire.length_list_lt ?_ ?_ (by simp) hdata
  · simp [Wire.length_number_le, Wire.length_address_le]
  · simp [Wire.length_number_le]

/-- Nor are those of a transaction with a capped fee. -/
theorem length_cappedItems_lt {t : Transaction} (hdata : t.data.length < 2 ^ 63) (maxFee priority : Word)
    (signature : Signature) : (Rlp.Item.list (t.cappedItems maxFee priority signature)).encode.length < 2 ^ 64 := by
  have hempty : (Rlp.Item.list []).encode.length ≤ 41 := by decide
  unfold cappedItems signatureItems
  refine Wire.length_list_lt ?_ ?_ (by simp) hdata
  · simp [Wire.length_number_le, Wire.length_address_le]
  · simp [Wire.length_number_le, hempty]

/-- The bytes of a signed transaction are decoded to the end, and say what the transaction and its signature are. -/
theorem decode?_raw {t : Transaction} {signature : Signature} (hv : t.v signature.recoveryId = .ok signature.v)
    (hid : signature.recoveryId.val ≤ 1) (hdata : t.data.length < 2 ^ 63) :
    Wire.decode? (Signed.mk t signature).raw = some (t.wire signature, []) := by
  cases hfee : t.fee with
  | legacy gasPrice =>
    have hcapped : t.fee.isCapped = false := by rw [hfee]; rfl
    have hread : Wire.ofLegacyItems? (t.legacyItems gasPrice signature) = some (t.wire signature) := by
      simp [Wire.ofLegacyItems?, legacyItems, signatureItems, wire, hfee, chain?_of_v hcapped hid hv]
    have hlist := Wire.ofList?_encode (length_legacyItems_lt hdata gasPrice signature) hread
    obtain ⟨b, tail, hb, hge⟩ := Rlp.encodeList_eq_cons (Rlp.Item.encodeAll (t.legacyItems gasPrice signature))
    have hne : b ≠ 0x02 := by
      rintro rfl
      exact absurd hge (by decide)
    rw [raw_of_legacy hfee]
    rw [Rlp.Item.encode, hb] at hlist ⊢
    rw [Wire.decode?, if_neg hne, hlist]
  | capped maxFee priority =>
    have hcapped : t.fee.isCapped = true := by rw [hfee]; rfl
    have hread : Wire.ofCappedItems? (t.cappedItems maxFee priority signature) = some (t.wire signature) := by
      simp [Wire.ofCappedItems?, cappedItems, signatureItems, wire, hfee, parity?_of_v hcapped hid hv]
    rw [raw_of_capped hfee, Wire.decode?, if_pos rfl]
    exact Wire.ofList?_encode (length_cappedItems_lt hdata maxFee priority signature) hread

/-! ## Signing -/

/-- The signature of a transaction, from the signature of its hash and its `v`. -/
def signatureOf (σ : Ecdsa.Signature) (n : UInt64) : Signature :=
  ⟨n, BitVec.ofNat 256 σ.r.val, BitVec.ofNat 256 σ.s.val, σ.recoveryId⟩

theorem toNat_word_scalar (k : Scalar) : (BitVec.ofNat 256 k.val).toNat = k.val := by
  rw [BitVec.toNat_ofNat]
  exact Nat.mod_eq_of_lt (k.isLt.trans groupOrder_lt)

/-- The first number of a signature is zero on the wire when it is in the signature. -/
theorem r_signatureOf_eq_zero_iff {σ : Ecdsa.Signature} {n : UInt64} : (signatureOf σ n).r = 0 ↔ σ.r = 0 := by
  rw [← BitVec.toNat_inj, signatureOf, toNat_word_scalar]
  exact Fin.val_eq_zero_iff

/-- What it takes to sign, and what comes of it. -/
theorem of_sign {t : Transaction} {secret : Bytes} {config : EvmConfig} {signed : Signed}
    (h : t.sign secret config = .ok signed) :
    ∃ d σ n, SecretKey.ofBytes secret = .ok d ∧
      (config.requireFromMatch = true → EvmAddress.ofPublicKey d.publicKey = t.sender) ∧
      σ = Ecdsa.sign d t.signingHash ∧ t.v σ.recoveryId = .ok n ∧ signed = ⟨t, signatureOf σ n⟩ := by
  unfold sign at h
  obtain ⟨d, hkey, h⟩ := bind_eq_ok_iff.mp h
  dsimp only at h
  split at h
  · cases h
  · rename_i hfrom
    obtain ⟨n, hv, h⟩ := bind_eq_ok_iff.mp h
    refine ⟨d, _, n, mapError_eq_ok_iff.mp hkey, fun hmatch => ?_, rfl, hv, (Except.ok.inj h).symm⟩
    by_contra hne
    exact hfrom ⟨hne, hmatch⟩

/-- A key signs for its own address where there is room for the chain id. -/
theorem sign_of_sender {t : Transaction} {d : SecretKey} {n : UInt64} (config : EvmConfig)
    (hsender : t.sender = EvmAddress.ofPublicKey d.publicKey)
    (hv : t.v (Ecdsa.sign d t.signingHash).recoveryId = .ok n) :
    t.sign d.toBytes.toList config = .ok ⟨t, signatureOf (Ecdsa.sign d t.signingHash) n⟩ := by
  have hown : ¬(EvmAddress.ofPublicKey d.publicKey ≠ t.sender ∧ config.requireFromMatch = true) :=
    fun hforeign => hforeign.1 hsender.symm
  have hkey : (SecretKey.ofBytes d.toBytes.toList).mapError SignError.secretKey = .ok d := by
    rw [d.ofBytes_toBytes]
    rfl
  unfold sign
  rw [hkey, ok_bind]
  dsimp only
  rw [if_neg hown, hv]
  rfl

/-- Why a transaction is not signed: what is given is no secret key, or it is that of another sender where this matters, or the
chain id is too large. -/
theorem of_sign_eq_error {t : Transaction} {secret : Bytes} {config : EvmConfig} {e : SignError}
    (h : t.sign secret config = .error e) :
    (∃ fault, SecretKey.ofBytes secret = .error fault ∧ e = .secretKey fault) ∨
      ∃ d, SecretKey.ofBytes secret = .ok d ∧
        (EvmAddress.ofPublicKey d.publicKey ≠ t.sender ∧ config.requireFromMatch = true ∧
            e = .foreignSender (EvmAddress.ofPublicKey d.publicKey) t.sender ∨
          e = .chainIdTooLarge) := by
  unfold sign at h
  rcases bind_eq_error_iff.mp h with hkey | ⟨d, hkey, hrest⟩
  · obtain ⟨fault, hfault, he⟩ := mapError_eq_error_iff.mp hkey
    exact Or.inl ⟨fault, hfault, he.symm⟩
  · refine Or.inr ⟨d, mapError_eq_ok_iff.mp hkey, ?_⟩
    dsimp only at hrest
    split at hrest
    · rename_i hfrom
      exact Or.inl ⟨hfrom.1, hfrom.2, (Except.error.inj hrest).symm⟩
    · rcases bind_eq_error_iff.mp hrest with hv | ⟨n, -, hnone⟩
      · exact Or.inr (v_eq_error_iff.mp hv).2
      · cases hnone

/-- A signature with a recovery id of zero or one is told by the parity in its place. -/
theorem signature_wire (t : Transaction) {σ : Ecdsa.Signature} (hid : σ.recoveryId.val ≤ 1) (n : UInt64) :
    (t.wire (signatureOf σ n)).signature = σ := by
  obtain ⟨r, s, id⟩ := σ
  simp only [Wire.signature, wire, signatureOf, toNat_word_scalar, Scalar.ofNat_val]
  rcases recoveryId_cases hid with rfl | rfl <;> rfl

/-- The signer of a signed transaction is computed from its signature and its hash. -/
theorem signer_mk (t : Transaction) (σ : Ecdsa.Signature) (n : UInt64) :
    (Signed.mk t (signatureOf σ n)).signer = (Ecdsa.recover σ t.signingHash).map EvmAddress.ofPublicKey := by
  have hr := Nat.not_le.mpr σ.r.isLt
  have hs := Nat.not_le.mpr σ.s.isLt
  simp only [Signed.signer, signatureOf, toNat_word_scalar, Scalar.ofNat_val, hr, hs, or_self, if_false]
  cases Ecdsa.recover σ t.signingHash <;> rfl

/-- The bytes of a signed transaction are enough to attribute it. A decoder that is given nothing else takes all of them and
finds every field of the transaction and the signature; the bytes that were signed are rebuilt from these fields; and the
public key computed from the signature of their hash has the address of the secret key, which the signed transaction also
reports and which is the sender where that is asked for. The signature has to be one that a nonce gives, and the data no
longer than memory holds. -/
theorem raw_self_contained {t : Transaction} {secret : Bytes} {config : EvmConfig} {signed : Signed}
    (hsign : t.sign secret config = .ok signed) (hid : signed.signature.recoveryId.val ≤ 1)
    (hr : signed.signature.r ≠ 0) (hdata : t.data.length < 2 ^ 63) :
    ∃ d wire, SecretKey.ofBytes secret = .ok d ∧ Wire.decode? signed.raw = some (wire, []) ∧
      (wire.nonce = t.nonce ∧ wire.fee = t.fee ∧ wire.gasLimit = t.gasLimit ∧ wire.recipient = t.recipient ∧
        wire.value = t.value ∧ wire.data = t.data ∧ wire.chainId = t.chainId ∧ wire.accessList = []) ∧
      (wire.r = signed.signature.r ∧ wire.s = signed.signature.s ∧ wire.odd = (signed.signature.recoveryId.val == 1)) ∧
      wire.payload = t.payload ∧
      wire.sender = .ok (EvmAddress.ofPublicKey d.publicKey) ∧
      signed.signer.map EvmAddress.text = .ok (EvmAddress.ofPublicKey d.publicKey).text ∧
      (config.requireFromMatch = true → EvmAddress.ofPublicKey d.publicKey = t.sender) := by
  obtain ⟨d, σ, n, hkey, hfrom, hσ, hv, rfl⟩ := of_sign hsign
  have hne : σ.r ≠ 0 := fun hzero => hr (r_signatureOf_eq_zero_iff.mpr hzero)
  have hrecover : Ecdsa.recover σ t.signingHash = .ok d.publicKey := by
    rw [hσ] at hne ⊢
    exact Ecdsa.recover_sign hne
  refine ⟨d, t.wire (signatureOf σ n), hkey, decode?_raw hv hid hdata, ⟨rfl, rfl, rfl, rfl, rfl, rfl, rfl, rfl⟩,
    ⟨rfl, rfl, rfl⟩, payload_wire _ _, ?_, ?_, hfrom⟩
  · rw [Wire.sender, signature_wire t hid, payload_wire, ← signingHash, hrecover]
    rfl
  · rw [signer_mk, hrecover]
    rfl

/-- The transaction that EIP-155 signs as its example. -/
def eip155 : Transaction where
  nonce := 9
  sender := ⟨[0x9d, 0x8a, 0x62, 0xf6, 0x56, 0xa8, 0xd1, 0x61, 0x5c, 0x12, 0x94, 0xfd, 0x71, 0xe9, 0xcf, 0xb3, 0xe4, 0x85,
    0x5a, 0x4f], rfl⟩
  recipient := FixedBytes.replicate 20 0x35
  value := 1000000000000000000
  data := []
  gasLimit := 21000
  chainId := 1
  fee := .legacy 20000000000

/-- The example's signature. -/
def eip155Signature : Signature where
  v := 37
  r := 0x28ef61340bd939bc2195fe537567866003e1a15d3c71ff63e1590620aa636276
  s := 0x67cbe9d8997f761aecb703304b3800ccf555c9f3dc64214b297fb1966a3b6d83
  recoveryId := Wire.recoveryId false

theorem sign_eip155 : eip155.sign (List.replicate 32 0x46) {} = .ok ⟨eip155, eip155Signature⟩ := by decide +kernel

/-- The example is attributed to its sender by its bytes alone. -/
theorem raw_self_contained_eip155 :
    ∃ wire, Wire.decode? (Signed.mk eip155 eip155Signature).raw = some (wire, []) ∧ wire.payload = eip155.payload ∧
      wire.sender = .ok eip155.sender := by
  obtain ⟨d, wire, -, hdecode, -, -, hpayload, hsender, -, hfrom⟩ :=
    raw_self_contained sign_eip155 (by decide) (by decide) (by decide)
  exact ⟨wire, hdecode, hpayload, by rw [hsender, hfrom rfl]⟩

end Transaction

end OfflineSigner.Evm
