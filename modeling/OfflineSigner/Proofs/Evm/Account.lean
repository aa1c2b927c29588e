import OfflineSigner.Account
import OfflineSigner.Proofs.Address.Evm
import OfflineSigner.Proofs.Evm.Intent
import OfflineSigner.Proofs.Evm.Signed
import OfflineSigner.Proofs.ExtendedKey

/-!
# A derived account signs for its own address

Statements about `EvmAccount.derive`: the address of an account is that of its secret key (`of_derive`), so the key signs what
is sent from the address unless the chain id is too large (`Transaction.eq_chainIdTooLarge_of_sender`). Main statement: the
addresses of an account's keys are its own, and a transaction from it, however the address is written, is signed by its key and
attributed to it (`signs_own_address`).
-/

namespace OfflineSigner

open Curve Evm

/-- The address of the secret key that bytes write. -/
def EvmAddress.ofSecret (secret : Bytes) : Except KeyFault EvmAddress :=
  (SecretKey.ofBytes secret).map fun d => ofPublicKey d.publicKey

namespace Evm.Transaction

/-- A key signs for its own address, or there is no room for the chain id. -/
theorem eq_chainIdTooLarge_of_sender {t : Transaction} {d : SecretKey} {config : EvmConfig} {e : SignError}
    (hsender : t.sender = EvmAddress.ofPublicKey d.publicKey) (h : t.sign d.toBytes.toList config = .error e) :
    e = .chainIdTooLarge := by
  rcases of_sign_eq_error h with ⟨fault, hfault, -⟩ | ⟨d', hd', ⟨hforeign, -, -⟩ | hlarge⟩
  · rw [d.ofBytes_toBytes] at hfault
    cases hfault
  · rw [d.ofBytes_toBytes] at hd'
    obtain rfl : d = d' := Except.ok.inj hd'
    exact absurd hsender.symm hforeign
  · exact hlarge

/-- A signature that a nonce gives is attributed to the key that made it. -/
theorem signer_of_sign {t : Transaction} {d : SecretKey} {config : EvmConfig} {signed : Signed}
    (h : t.sign d.toBytes.toList config = .ok signed) (hr : signed.signature.r ≠ 0) :
    signed.signer = .ok (EvmAddress.ofPublicKey d.publicKey) := by
  obtain ⟨d', σ, n, hd', -, hσ, -, rfl⟩ := of_sign h
  rw [d.ofBytes_toBytes] at hd'
  obtain rfl : d = d' := Except.ok.inj hd'
  have hne : σ.r ≠ 0 := fun hzero => hr (r_signatureOf_eq_zero_iff.mpr hzero)
  rw [hσ] at hne
  rw [signer_mk, hσ, Ecdsa.recover_sign hne]
  rfl

end Evm.Transaction

namespace EvmAccount

/-- The keys of an account belong together, and the address is theirs. -/
theorem of_derive {seed : Bytes} {index : Nat} {account : EvmAccount} (h : derive seed index = .ok account) :
    account.publicKey = account.secret.publicKey ∧ account.address = EvmAddress.ofPublicKey account.secret.publicKey := by
  obtain ⟨path, -, h⟩ := bind_eq_ok_iff.mp h
  obtain ⟨node, hnode, h⟩ := bind_eq_ok_iff.mp h
  obtain ⟨d, hkeyed⟩ := ExtendedKey.keyed_of_derive (mapError_eq_ok_iff.mp hnode)
  obtain ⟨secret, hsecret, h⟩ := bind_eq_ok_iff.mp h
  rw [ExtendedKey.seededSecret, hkeyed.secret] at hsecret
  obtain rfl : d = secret := Except.ok.inj hsecret
  obtain rfl := Except.ok.inj h
  exact ⟨hkeyed.publicKey, congrArg EvmAddress.ofPublicKey hkeyed.publicKey⟩

/-- The addresses of an account's secret key and of its public key are the account's: the last twenty bytes of the hash of the
coordinates to which the secret key leads. However a sender is written that is the account's address, with the checksum or in
either case, what comes of it is signed by the account's secret key, unless there is no room for the chain id; and a signature
that a nonce gives is attributed to the account's address. -/
theorem signs_own_address {seed : Bytes} {index : Nat} {account : EvmAccount} (hderive : derive seed index = .ok account) :
    (EvmAddress.ofSecret account.secret.toBytes.toList = .ok account.address ∧
      EvmAddress.ofPublicKey account.publicKey = account.address ∧
      ∃ x y : FieldElement, Point.ofGroup (account.secret.scalar.val • base) = .affine x y ∧
        account.address.toList = (Hash.keccak256 (x.toBytes.toList ++ y.toBytes.toList)).toList.drop 12) ∧
    ∀ (draft : Draft) (text : String), draft.sender = some text →
      (text = account.address.text ∨ text = account.address.lowerText ∨ text = account.address.upperText) →
      ∀ (i : Intent) (t : Transaction) (config : EvmConfig), draft.resolve = .ok i → Transaction.ofIntent i = .ok t →
        (∀ e, t.sign account.secret.toBytes.toList config = .error e →
          e.report.code ≠ .keyMismatch ∧ e.report.code ≠ .invalidPrivateKeyFound) ∧
        ∀ signed, t.sign account.secret.toBytes.toList config = .ok signed → signed.signature.r ≠ 0 →
          signed.signer = .ok account.address ∧ signed.signer.map EvmAddress.text = .ok account.address.text := by
  obtain ⟨hpublic, haddress⟩ := of_derive hderive
  refine ⟨⟨?_, ?_, account.secret.publicKey.x, account.secret.publicKey.y, account.secret.ofGroup_nsmul_base, ?_⟩, ?_⟩
  · rw [EvmAddress.ofSecret, account.secret.ofBytes_toBytes, haddress]
    rfl
  · rw [hpublic, haddress]
  · rw [haddress]
    rfl
  · intro draft text hsender htext i t config hresolve hbuild
    have hparse : EvmAddress.parse text = .ok account.address := by
      rcases htext with rfl | rfl | rfl
      · exact EvmAddress.parse_text _
      · exact EvmAddress.parse_lowerText _
      · exact EvmAddress.parse_upperText _
    obtain ⟨text', htext', hread⟩ := (Draft.of_resolve hresolve).sender
    obtain rfl : text = text' := Option.some.inj (hsender.symm.trans htext')
    have hfrom : t.sender = EvmAddress.ofPublicKey account.secret.publicKey := by
      rw [(Transaction.of_ofIntent hbuild).sender, ← haddress]
      exact Except.ok.inj (hread.symm.trans hparse)
    refine ⟨fun e he => ?_, fun signed hsigned hr => ?_⟩
    · rw [Transaction.eq_chainIdTooLarge_of_sender hfrom he]
      exact ⟨nofun, nofun⟩
    · rw [Transaction.signer_of_sign hsigned hr, haddress]
      exact ⟨rfl, rfl⟩

/-- An address to send to. -/
def sampleRecipient : EvmAddress := FixedBytes.replicate 20 0x35

/-- A draft that sends one unit from an account's address, which is written in upper case. -/
def sampleDraft (account : EvmAccount) : Draft where
  sender := some account.address.upperText
  recipient := some sampleRecipient.lowerText
  value := 1
  gasLimit := 21000
  chainId := 1
  maxFee := some 20000000000
  priorityFee := some 1000000000

/-- What the draft is resolved to. -/
def sampleIntent (sender : EvmAddress) : Intent where
  nonce := 0
  sender
  recipient := sampleRecipient
  value := 1
  gasLimit := 21000
  chainId := 1
  call := .none
  fee := .capped 20000000000 1000000000

/-- What comes of the draft. -/
def sampleTransaction (sender : EvmAddress) : Transaction where
  nonce := 0
  sender
  recipient := sampleRecipient
  value := 1
  data := []
  gasLimit := 21000
  chainId := 1
  fee := .capped 20000000000 1000000000

theorem resolve_sampleDraft (account : EvmAccount) : account.sampleDraft.resolve = .ok (sampleIntent account.address) := by
  simp only [Draft.resolve, sampleDraft, EvmAddress.parse_upperText, EvmAddress.parse_lowerText]
  rfl

/-- The secret key of the first account of the seed. -/
def bip32Secret : SecretKey := ⟨Scalar.ofNat 0xe22f5526ce620ec69441c3453d7a0acbc26c3fc7543023f338123fd45c7d44b3, by decide⟩

theorem secret_derive_bip32 : (derive ExtendedKey.bip32Seed 0).toOption.map EvmAccount.secret = some bip32Secret := by
  decide +kernel

/-- The signature of the transaction is one that a nonce gives. The sender is not among what is signed, so any will do. -/
theorem r_sign_bip32 : (Ecdsa.sign bip32Secret (sampleTransaction sampleRecipient).signingHash).r ≠ 0 := by decide +kernel

/-- The first account of a seed signs for its own address. -/
theorem signs_own_address_bip32 :
    ∃ account i t signed, derive ExtendedKey.bip32Seed 0 = .ok account ∧ account.sampleDraft.resolve = .ok i ∧
      Transaction.ofIntent i = .ok t ∧ t.sign account.secret.toBytes.toList {} = .ok signed ∧ signed.signature.r ≠ 0 ∧
      EvmAddress.ofSecret account.secret.toBytes.toList = .ok account.address ∧ signed.signer = .ok account.address := by
  obtain ⟨account, haccount, hsecret⟩ := Option.map_eq_some_iff.mp secret_derive_bip32
  have hderive : derive ExtendedKey.bip32Seed 0 = .ok account := toOption_eq_some_iff.mp haccount
  have hresolve := resolve_sampleDraft account
  have hsign := Transaction.sign_of_sender (t := sampleTransaction account.address) {} (of_derive hderive).2 rfl
  have hr : ∀ n, (Transaction.signatureOf (Ecdsa.sign account.secret (sampleTransaction account.address).signingHash) n).r ≠ 0 := by
    rw [hsecret]
    exact fun n hzero => r_sign_bip32 (Transaction.r_signatureOf_eq_zero_iff.mp hzero)
  obtain ⟨⟨hown, -, -⟩, hsigns⟩ := signs_own_address hderive
  obtain ⟨-, hsigner⟩ := hsigns account.sampleDraft _ rfl (Or.inr (Or.inr rfl)) _ (sampleTransaction account.address) {} hresolve
    rfl
  exact ⟨account, _, _, _, hderive, hresolve, rfl, hsign, hr _, hown, (hsigner _ hsign (hr _)).1⟩

end EvmAccount

end OfflineSigner
