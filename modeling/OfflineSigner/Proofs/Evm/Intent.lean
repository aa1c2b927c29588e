import OfflineSigner.Proofs.Checked
import OfflineSigner.Request.Evm

/-!
# From a request to a transaction

What the success of each stage says about its outcome: of a request that becomes a draft (`Request.Evm.of_draft`), of a draft
that is resolved (`Draft.of_resolve`), and of an intent that is made a transaction (`Transaction.of_ofIntent`).
-/

namespace OfflineSigner

namespace Evm

/-- What the intent of a draft is made of. -/
structure Draft.Resolved (draft : Draft) (i : Intent) : Prop where
  nonce : i.nonce = draft.nonce
  sender : ∃ text, draft.sender = some text ∧ EvmAddress.parse text = .ok i.sender
  recipient : ∃ text, draft.recipient = some text ∧ EvmAddress.parse text = .ok i.recipient
  value : i.value = draft.value
  gasLimit : i.gasLimit = draft.gasLimit
  chainId : i.chainId = draft.chainId
  call : Call.resolve draft.token draft.data = .ok i.call
  fee : Fee.resolve draft.gasPrice draft.maxFee draft.priorityFee = .ok i.fee

theorem Draft.of_resolve {draft : Draft} {i : Intent} (h : draft.resolve = .ok i) : draft.Resolved i := by
  unfold resolve at h
  split at h
  · rename_i sender hsender
    split at h
    · rename_i recipient hrecipient
      obtain ⟨a, ha, h⟩ := bind_eq_ok_iff.mp h
      obtain ⟨b, hb, h⟩ := bind_eq_ok_iff.mp h
      obtain ⟨call, hcall, h⟩ := bind_eq_ok_iff.mp h
      obtain ⟨fee, hfee, h⟩ := bind_eq_ok_iff.mp h
      obtain rfl := Except.ok.inj h
      exact {
        nonce := rfl
        sender := ⟨sender, hsender, mapError_eq_ok_iff.mp ha⟩
        recipient := ⟨recipient, hrecipient, mapError_eq_ok_iff.mp hb⟩
        value := rfl
        gasLimit := rfl
        chainId := rfl
        call := mapError_eq_ok_iff.mp hcall
        fee := mapError_eq_ok_iff.mp hfee }
    · cases h
  · cases h

/-- What the transaction of an intent is made of. -/
structure Transaction.Carries (i : Intent) (t : Transaction) : Prop where
  nonce : t.nonce = i.nonce
  sender : t.sender = i.sender
  target : (t.recipient, t.value, t.data) = target i
  gasLimit : t.gasLimit = i.gasLimit
  chainId : t.chainId = i.chainId
  fee : t.fee = i.fee

theorem Transaction.of_ofIntent {i : Intent} {t : Transaction} (h : ofIntent i = .ok t) : Carries i t := by
  unfold ofIntent at h
  split at h
  · cases h
  · split at h
    · cases h
    · obtain rfl := Except.ok.inj h
      exact ⟨rfl, rfl, rfl, rfl, rfl, rfl⟩

end Evm

namespace Request.Evm

/-- What the draft of a request has that the transaction is made of. -/
structure Drafted (r : Evm) (draft : OfflineSigner.Evm.Draft) : Prop where
  sender : draft.sender = some r.sender
  recipient : draft.recipient = some r.recipient
  value : Amount.parse r.amount r.decimals.toNat = .ok draft.value
  token : draft.token = r.token
  data : r.callBytes = .ok draft.data

theorem of_draft {r : Evm} {draft : OfflineSigner.Evm.Draft} (h : r.draft = .ok draft) : Drafted r draft := by
  obtain ⟨value, hvalue, h⟩ := bind_eq_ok_iff.mp h
  obtain ⟨gasPrice, -, h⟩ := bind_eq_ok_iff.mp h
  obtain ⟨maxFee, -, h⟩ := bind_eq_ok_iff.mp h
  obtain ⟨priorityFee, -, h⟩ := bind_eq_ok_iff.mp h
  obtain ⟨data, hdata, h⟩ := bind_eq_ok_iff.mp h
  obtain rfl := Except.ok.inj h
  exact ⟨rfl, rfl, mapError_eq_ok_iff.mp hvalue, rfl, hdata⟩

/-- The intent of a request is that of its draft. -/
theorem of_intent {r : Evm} {i : OfflineSigner.Evm.Intent} (h : r.intent = .ok i) :
    ∃ draft, Drafted r draft ∧ draft.Resolved i := by
  obtain ⟨draft, hdraft, h⟩ := bind_eq_ok_iff.mp h
  exact ⟨draft, of_draft hdraft, OfflineSigner.Evm.Draft.of_resolve (mapError_eq_ok_iff.mp h)⟩

end Request.Evm

end OfflineSigner
