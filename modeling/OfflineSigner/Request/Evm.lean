import OfflineSigner.Evm.Signed
import OfflineSigner.Request.Quantity
import OfflineSigner.Request.Secret

/-!
# Requests for EVM transactions

A request gives amounts as people write them; it is turned into a draft, and that into an intent, before anything is built.
-/

namespace OfflineSigner.Request

/-- A request for a signed EVM transaction. -/
structure Evm where
  secretKey : String
  nonce : UInt64
  sender : String
  recipient : String
  gasLimit : UInt64
  /-- The amount in units of `10 ^ decimals`. -/
  amount : String
  decimals : UInt32 := 18
  chainId : UInt64
  gasPrice : Option Quantity := none
  maxFee : Option Quantity := none
  priorityFee : Option Quantity := none
  token : Option String := none
  callData : Option String := none
  deriving DecidableEq

namespace Evm

/-- The bytes of the call data; a text of blanks gives none. -/
def callBytes (r : Evm) : Except Failure (Option Bytes) :=
  match r.callData with
  | none => .ok none
  | some text =>
    if (Text.trimChars text.toList).isEmpty then .ok none
    else
      match Hex.decodeMarked text with
      | .ok bs => .ok (some bs)
      | .error e => .error ⟨.invalidInput, s!"Invalid call data: {e.message}", none⟩

/-- The draft that a request means. The amount is read first, then the prices, then the call data. -/
def draft (r : Evm) : Except Failure OfflineSigner.Evm.Draft := do
  let value ← (Amount.parse r.amount r.decimals.toNat).mapError Amount.Error.report
  let gasPrice ← Quantity.value? r.gasPrice
  let maxFee ← Quantity.value? r.maxFee
  let priorityFee ← Quantity.value? r.priorityFee
  let data ← r.callBytes
  return {
    nonce := r.nonce
    sender := some r.sender
    recipient := some r.recipient
    value
    gasLimit := r.gasLimit
    chainId := r.chainId
    gasPrice, maxFee, priorityFee
    token := r.token
    data }

/-- The intent that a request means. -/
def intent (r : Evm) : Except Failure OfflineSigner.Evm.Intent := do
  (← r.draft).resolve.mapError OfflineSigner.Evm.Draft.Error.report

/-- The signed transaction that a request asks for. -/
def sign (r : Evm) (config : Config) : Except Failure SignedTransaction := do
  let d ← Request.secretKey r.secretKey
  let t ← (OfflineSigner.Evm.Transaction.ofIntent (← r.intent)).mapError OfflineSigner.Evm.Transaction.Error.report
  let signed ← (t.sign d.toBytes.toList config.evm).mapError OfflineSigner.Evm.SignError.report
  return signed.toSignedTransaction

end Evm

end OfflineSigner.Request
