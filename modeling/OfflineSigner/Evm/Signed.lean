import OfflineSigner.Config
import OfflineSigner.Curve.Ecdsa
import OfflineSigner.Evm.Transaction
import OfflineSigner.SignedTransaction

/-!
# Signed EVM transactions

A transaction with its signature. The field `v` holds the recovery id, and for legacy transactions the chain id with it.
-/

namespace OfflineSigner.Evm

open Curve

/-- The signature fields of a transaction. -/
structure Signature where
  v : UInt64
  r : Word
  s : Word
  recoveryId : Fin 4
  deriving DecidableEq

/-- A transaction with its signature. -/
structure Signed where
  transaction : Transaction
  signature : Signature
  deriving DecidableEq

/-- Why a transaction is not signed. -/
inductive SignError where
  | secretKey (fault : KeyFault)
  | foreignSender (signer sender : EvmAddress)
  | chainIdTooLarge
  deriving DecidableEq

/-- A fault as it is reported. -/
def SignError.report : SignError → Failure
  | .secretKey fault => ⟨.invalidPrivateKeyFound, s!"Invalid private key: {fault.message}", none⟩
  | .foreignSender signer sender =>
    ⟨.keyMismatch, s!"Key controls {EvmAddress.text signer}, transaction is from {EvmAddress.text sender}", none⟩
  | .chainIdTooLarge => ⟨.invalidTransactionStructure, "chain_id too large for EIP-155 v", none⟩

namespace Transaction

/-- The field `v`: the recovery id; for a legacy transaction 27 more, or with a chain id 35 more than twice the id, which
has to fit in 64 bits. -/
def v (t : Transaction) (recoveryId : Fin 4) : Except SignError UInt64 :=
  if t.fee.isCapped then .ok (UInt64.ofNat recoveryId.val)
  else if t.chainId = 0 then .ok (UInt64.ofNat (27 + recoveryId.val))
  else
    let n := 2 * t.chainId.toNat + 35 + recoveryId.val
    if n < UInt64.size then .ok (UInt64.ofNat n) else .error .chainIdTooLarge

/-- The transaction signed by a secret key, which has to control the sender unless the configuration lets it differ. -/
def sign (t : Transaction) (secret : Bytes) (config : EvmConfig) : Except SignError Signed := do
  let d ← (SecretKey.ofBytes secret).mapError .secretKey
  let signer := EvmAddress.ofPublicKey d.publicKey
  if signer ≠ t.sender ∧ config.requireFromMatch then throw (.foreignSender signer t.sender)
  let signature := Ecdsa.sign d t.signingHash
  let v ← t.v signature.recoveryId
  return {
    transaction := t
    signature := {
      v
      r := BitVec.ofNat 256 signature.r.val
      s := BitVec.ofNat 256 signature.s.val
      recoveryId := signature.recoveryId } }

end Transaction

namespace Signed

/-- The bytes of a signed transaction. -/
def raw (signed : Signed) : Bytes :=
  let t := signed.transaction
  let close (fields : Rlp.Fields) : Bytes :=
    (((fields.uint64 signed.signature.v).word signed.signature.r).word signed.signature.s).finish
  match t.fee with
  | .legacy gasPrice => close (t.legacyFields gasPrice)
  | .capped maxFee priority => Transaction.cappedType :: close (t.cappedFields maxFee priority)

/-- The bytes in hexadecimal after `0x`. -/
def hex (signed : Signed) : String := "0x" ++ Hex.encode signed.raw

/-- The hash of the bytes, as block explorers show it. -/
def id (signed : Signed) : String := "0x" ++ Hex.encode (Hash.keccak256 signed.raw).toList

/-- The address whose key made the signature. -/
def signer (signed : Signed) : Except KeyFault EvmAddress := do
  let σ := signed.signature
  if groupOrder ≤ σ.r.toNat ∨ groupOrder ≤ σ.s.toNat then throw .signature
  let K ← Ecdsa.recover ⟨Scalar.ofNat σ.r.toNat, Scalar.ofNat σ.s.toNat, σ.recoveryId⟩ signed.transaction.signingHash
  return EvmAddress.ofPublicKey K

/-- The transaction as it is handed on. -/
def toSignedTransaction (signed : Signed) : SignedTransaction := ⟨.evm, signed.hex, signed.id⟩

end Signed

end OfflineSigner.Evm
