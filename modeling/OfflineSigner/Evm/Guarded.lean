import OfflineSigner.Evm.Signed

/-!
# Signing with a guard at every step

The steps of signing as they are taken in numbers of fixed width. The recovery id comes as a signed number and has to be a byte,
each operation on the way to `v` may leave the 64 bits, and there have to be bytes in the end. Each guard has its own fault.
-/

namespace OfflineSigner.Evm

open Curve

/-- Why a guarded transaction is not signed. -/
inductive GuardError where
  | sign (fault : SignError)
  | recoveryId
  | noBytes
  deriving DecidableEq

/-- A fault as it is reported. -/
def GuardError.report : GuardError → Failure
  | .sign fault => fault.report
  | .recoveryId => ⟨.signingFailed, "Recovery id out of range", none⟩
  | .noBytes => ⟨.serializationFailed, "Encoder produced no output", none⟩

/-- A number of 32 bits with a sign as a byte, if it is one. -/
def byte? (n : Int32) : Option UInt8 := if 0 ≤ n.toInt ∧ n.toInt < 256 then some (UInt8.ofNat n.toInt.toNat) else none

/-- A number as one of 64 bits, if it is one. -/
def narrow? (n : Nat) : Option UInt64 := if n < UInt64.size then some (UInt64.ofNat n) else none

namespace Transaction

/-- The field `v` for a byte as recovery id. The chain id is doubled before 35 and the recovery id are added, and each result has
to fit. -/
def guardedV (t : Transaction) (recoveryId : UInt8) : Except SignError UInt64 :=
  let id := recoveryId.toUInt64
  if t.fee.isCapped then .ok id
  else if t.chainId = 0 then .ok (id + 27)
  else
    match (narrow? (t.chainId.toNat * 2)).bind fun doubled => narrow? (doubled.toNat + (35 + id).toNat) with
    | some n => .ok n
    | none => .error .chainIdTooLarge

/-- The transaction signed by a secret key, step by step. -/
def guardedSign (t : Transaction) (secret : Bytes) (config : EvmConfig) : Except GuardError Signed := do
  let d ← (SecretKey.ofBytes secret).mapError fun fault => .sign (.secretKey fault)
  let signer := EvmAddress.ofPublicKey d.publicKey
  if signer ≠ t.sender ∧ config.requireFromMatch then throw (.sign (.foreignSender signer t.sender))
  let signature := Ecdsa.sign d t.signingHash
  let some recoveryId := byte? (Int32.ofNat signature.recoveryId.val) | .error .recoveryId
  let v ← (t.guardedV recoveryId).mapError .sign
  let signed : Signed := {
    transaction := t
    signature := {
      v
      r := BitVec.ofNat 256 signature.r.val
      s := BitVec.ofNat 256 signature.s.val
      recoveryId := signature.recoveryId } }
  if signed.raw.isEmpty then throw .noBytes
  return signed

end Transaction

end OfflineSigner.Evm
