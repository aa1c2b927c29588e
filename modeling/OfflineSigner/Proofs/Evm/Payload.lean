import OfflineSigner.Evm.Transaction
import OfflineSigner.Proofs.Rlp.Boundary

/-!
# What a signed payload commits to

Statements about `Transaction.payload`: the bytes that are signed determine every field of a transaction but its sender, which
is not on the wire, and with them the kind of the transaction. The fields are read off one by one: each but the data is short,
and what follows the data is short, so `Rlp.encodeBytes_append_inj` cuts them apart for data of any length.
-/

namespace OfflineSigner.Evm

namespace Transaction

/-- The three forms of payload. -/
inductive Kind where
  /-- One gas price, and no chain id among the signed fields. -/
  | unbound
  /-- One gas price, and the chain id among the signed fields. -/
  | chainBound
  /-- A capped fee, behind the type byte. -/
  | capped
  deriving DecidableEq

/-- The form of a transaction's payload. -/
def kind (t : Transaction) : Kind :=
  if t.fee.isCapped then .capped else if t.chainId = 0 then .unbound else .chainBound

/-- What follows the data in a legacy payload. -/
def legacyTail (t : Transaction) : Bytes :=
  if t.chainId = 0 then [] else Rlp.encodeUInt64 t.chainId ++ (Rlp.encodeUInt64 0 ++ Rlp.encodeUInt64 0)

/-- The signed fields of a legacy transaction, run together. -/
def legacyBody (t : Transaction) (gasPrice : Word) : Bytes :=
  Rlp.encodeUInt64 t.nonce ++ (Rlp.encodeWord gasPrice ++ (Rlp.encodeUInt64 t.gasLimit ++
    (Rlp.encodeBytes t.recipient.toList ++ (Rlp.encodeWord t.value ++ (Rlp.encodeBytes t.data ++ t.legacyTail)))))

/-- The signed fields of a transaction with a capped fee, run together. -/
def cappedBody (t : Transaction) (maxFee priority : Word) : Bytes :=
  Rlp.encodeUInt64 t.chainId ++ (Rlp.encodeUInt64 t.nonce ++ (Rlp.encodeWord priority ++ (Rlp.encodeWord maxFee ++
    (Rlp.encodeUInt64 t.gasLimit ++ (Rlp.encodeBytes t.recipient.toList ++ (Rlp.encodeWord t.value ++
      (Rlp.encodeBytes t.data ++ Rlp.encodeList [])))))))

/-- A legacy payload is the list of its fields. -/
theorem payload_of_legacy {t : Transaction} {gasPrice : Word} (h : t.fee = .legacy gasPrice) :
    t.payload = Rlp.encodeList [t.legacyBody gasPrice] := by
  simp only [payload, h, legacyBody, legacyTail]
  split <;> simp [Rlp.Fields.finish, Rlp.encodeList, legacyFields, Rlp.Fields.uint64, Rlp.Fields.word, Rlp.Fields.bytes,
    Rlp.Fields.raw]

/-- A payload with a capped fee is the list of its fields behind the type byte. -/
theorem payload_of_capped {t : Transaction} {maxFee priority : Word} (h : t.fee = .capped maxFee priority) :
    t.payload = cappedType :: Rlp.encodeList [t.cappedBody maxFee priority] := by
  simp only [payload, h, cappedBody]
  simp [Rlp.Fields.finish, Rlp.encodeList, cappedFields, Rlp.Fields.uint64, Rlp.Fields.word, Rlp.Fields.bytes,
    Rlp.Fields.raw]

/-- What follows the data in a legacy payload is short. -/
theorem length_legacyTail_lt (t : Transaction) : t.legacyTail.length < Rlp.headerReach := by
  have h₁ := Rlp.length_encodeUInt64_le t.chainId
  have h₂ := Rlp.length_encodeUInt64_le 0
  unfold legacyTail Rlp.headerReach
  split
  · simp
  · simp only [List.length_append]
    omega

/-- What follows the data in a legacy payload determines the chain id. -/
theorem chainId_eq_of_legacyTail {t₁ t₂ : Transaction} (h : t₁.legacyTail = t₂.legacyTail) : t₁.chainId = t₂.chainId := by
  have hne : ∀ t : Transaction, t.chainId ≠ 0 → t.legacyTail ≠ [] := by
    intro t ht hnil
    rw [legacyTail, if_neg ht] at hnil
    have h0 : Rlp.encodeUInt64 0 = [] := (List.append_eq_nil_iff.mp (List.append_eq_nil_iff.mp hnil).2).1
    exact absurd h0 (by decide)
  by_cases h₁ : t₁.chainId = 0 <;> by_cases h₂ : t₂.chainId = 0
  · rw [h₁, h₂]
  · exact absurd (by rw [← h, legacyTail, if_pos h₁]) (hne t₂ h₂)
  · exact absurd (by rw [h, legacyTail, if_pos h₂]) (hne t₁ h₁)
  · rw [legacyTail, legacyTail, if_neg h₁, if_neg h₂] at h
    exact (Rlp.encodeUInt64_append_inj h).1

/-- Everything that goes into a payload. -/
structure SameOnWire (t₁ t₂ : Transaction) : Prop where
  fee : t₁.fee = t₂.fee
  nonce : t₁.nonce = t₂.nonce
  gasLimit : t₁.gasLimit = t₂.gasLimit
  recipient : t₁.recipient = t₂.recipient
  value : t₁.value = t₂.value
  data : t₁.data = t₂.data
  chainId : t₁.chainId = t₂.chainId

/-- Two legacy transactions with one payload differ at most in their senders. -/
theorem sameOnWire_of_legacyBody {t₁ t₂ : Transaction} {p₁ p₂ : Word} (h₁ : t₁.fee = .legacy p₁) (h₂ : t₂.fee = .legacy p₂)
    (h : t₁.legacyBody p₁ = t₂.legacyBody p₂) : SameOnWire t₁ t₂ := by
  unfold legacyBody at h
  obtain ⟨hnonce, h⟩ := Rlp.encodeUInt64_append_inj h
  obtain ⟨hprice, h⟩ := Rlp.encodeWord_append_inj h
  obtain ⟨hgas, h⟩ := Rlp.encodeUInt64_append_inj h
  obtain ⟨hto, h⟩ := Rlp.encodeFixed_append_inj (by decide) h
  obtain ⟨hvalue, h⟩ := Rlp.encodeWord_append_inj h
  obtain ⟨hdata, h⟩ := Rlp.encodeBytes_append_inj (Or.inr ⟨t₁.length_legacyTail_lt, t₂.length_legacyTail_lt⟩) h
  exact ⟨by rw [h₁, h₂, hprice], hnonce, hgas, hto, hvalue, hdata, chainId_eq_of_legacyTail h⟩

/-- Two transactions with capped fees and one payload differ at most in their senders. -/
theorem sameOnWire_of_cappedBody {t₁ t₂ : Transaction} {m₁ p₁ m₂ p₂ : Word} (h₁ : t₁.fee = .capped m₁ p₁)
    (h₂ : t₂.fee = .capped m₂ p₂) (h : t₁.cappedBody m₁ p₁ = t₂.cappedBody m₂ p₂) : SameOnWire t₁ t₂ := by
  unfold cappedBody at h
  obtain ⟨hchain, h⟩ := Rlp.encodeUInt64_append_inj h
  obtain ⟨hnonce, h⟩ := Rlp.encodeUInt64_append_inj h
  obtain ⟨hpriority, h⟩ := Rlp.encodeWord_append_inj h
  obtain ⟨hmax, h⟩ := Rlp.encodeWord_append_inj h
  obtain ⟨hgas, h⟩ := Rlp.encodeUInt64_append_inj h
  obtain ⟨hto, h⟩ := Rlp.encodeFixed_append_inj (by decide) h
  obtain ⟨hvalue, h⟩ := Rlp.encodeWord_append_inj h
  obtain ⟨hdata, -⟩ := Rlp.encodeBytes_append_inj (Or.inr ⟨by decide, by decide⟩) h
  exact ⟨by rw [h₁, h₂, hmax, hpriority], hnonce, hgas, hto, hvalue, hdata, hchain⟩

/-- The type byte starts no list, so a legacy payload is none with a capped fee. -/
theorem encodeList_ne_capped (xs ys : List Bytes) : Rlp.encodeList xs ≠ cappedType :: Rlp.encodeList ys := by
  obtain ⟨b, tail, hb, hle⟩ := Rlp.encodeList_eq_cons xs
  rw [hb]
  intro h
  rw [(List.cons.inj h).1] at hle
  exact absurd hle (by decide)

/-- Transactions with one payload differ at most in their senders. -/
theorem sameOnWire_of_payload {t₁ t₂ : Transaction} (h : t₁.payload = t₂.payload) : SameOnWire t₁ t₂ := by
  cases h₁ : t₁.fee with
  | legacy p₁ =>
    cases h₂ : t₂.fee with
    | legacy p₂ =>
      rw [payload_of_legacy h₁, payload_of_legacy h₂] at h
      have := Rlp.encodeList_inj h
      exact sameOnWire_of_legacyBody h₁ h₂ (by simpa using this)
    | capped m₂ p₂ =>
      rw [payload_of_legacy h₁, payload_of_capped h₂] at h
      exact absurd h (encodeList_ne_capped _ _)
  | capped m₁ p₁ =>
    cases h₂ : t₂.fee with
    | legacy p₂ =>
      rw [payload_of_capped h₁, payload_of_legacy h₂] at h
      exact absurd h.symm (encodeList_ne_capped _ _)
    | capped m₂ p₂ =>
      rw [payload_of_capped h₁, payload_of_capped h₂] at h
      have := Rlp.encodeList_inj (List.cons.inj h).2
      exact sameOnWire_of_cappedBody h₁ h₂ (by simpa using this)

/-- Transactions that differ at most in their senders have one payload. -/
theorem SameOnWire.payload_eq {t₁ t₂ : Transaction} (h : SameOnWire t₁ t₂) : t₁.payload = t₂.payload := by
  obtain ⟨hfee, hnonce, hgas, hto, hvalue, hdata, hchain⟩ := h
  simp only [payload, legacyFields, cappedFields, hfee, hnonce, hgas, hto, hvalue, hdata, hchain]

/-- The bytes that are signed commit to everything but the sender, and keep the three kinds of transaction apart, whatever
the data holds. -/
theorem payload_eq_iff (t₁ t₂ : Transaction) :
    (t₁.payload = t₂.payload ↔
      t₁.fee = t₂.fee ∧ t₁.nonce = t₂.nonce ∧ t₁.gasLimit = t₂.gasLimit ∧ t₁.recipient = t₂.recipient ∧
        t₁.value = t₂.value ∧ t₁.data = t₂.data ∧ t₁.chainId = t₂.chainId) ∧
    (t₁.kind ≠ t₂.kind → t₁.payload ≠ t₂.payload) := by
  refine ⟨⟨fun h => ?_, fun ⟨h₁, h₂, h₃, h₄, h₅, h₆, h₇⟩ => SameOnWire.payload_eq ⟨h₁, h₂, h₃, h₄, h₅, h₆, h₇⟩⟩, ?_⟩
  · obtain ⟨h₁, h₂, h₃, h₄, h₅, h₆, h₇⟩ := sameOnWire_of_payload h
    exact ⟨h₁, h₂, h₃, h₄, h₅, h₆, h₇⟩
  · intro hkind h
    have hw := sameOnWire_of_payload h
    exact hkind (by rw [kind, kind, hw.fee, hw.chainId])

end Transaction

end OfflineSigner.Evm
