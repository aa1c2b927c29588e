import OfflineSigner.Evm.Call
import OfflineSigner.Evm.Fee

/-!
# What an EVM transaction is to do

A draft gathers fields as a user gives them; resolving it once gives an intent, in which addresses are bytes and the call
and the fee are settled.
-/

namespace OfflineSigner.Evm

/-- What a transaction is to do. For a token transfer the recipient is that of the tokens, and the value counts them. -/
structure Intent where
  nonce : UInt64
  sender : EvmAddress
  recipient : EvmAddress
  value : Word
  gasLimit : UInt64
  chainId : UInt64
  call : Call
  fee : Fee
  deriving DecidableEq

/-- Fields as a user gives them. -/
structure Draft where
  nonce : UInt64 := 0
  sender : Option String := none
  recipient : Option String := none
  value : Word := 0
  gasLimit : UInt64 := 0
  chainId : UInt64 := 0
  gasPrice : Option Word := none
  maxFee : Option Word := none
  priorityFee : Option Word := none
  token : Option String := none
  data : Option Bytes := none

namespace Draft

/-- Why a draft means no intent. -/
inductive Error where
  | missingSender
  | missingRecipient
  | address (e : EvmAddress.Error)
  | fee (e : Fee.Error)
  deriving DecidableEq

/-- A fault in a draft as it is reported. -/
def Error.report : Error → Failure
  | .missingSender => ⟨.invalidInput, "Missing from address", none⟩
  | .missingRecipient => ⟨.invalidInput, "Missing to address", none⟩
  | .address e => e.report
  | .fee e => e.report

/-- The intent that a draft means. Both addresses have to be there before either is read. -/
def resolve (draft : Draft) : Except Error Intent := do
  let some sender := draft.sender | .error .missingSender
  let some recipient := draft.recipient | .error .missingRecipient
  let sender ← (EvmAddress.parse sender).mapError .address
  let recipient ← (EvmAddress.parse recipient).mapError .address
  let call ← (Call.resolve draft.token draft.data).mapError .address
  let fee ← (Fee.resolve draft.gasPrice draft.maxFee draft.priorityFee).mapError .fee
  return { draft with sender, recipient, call, fee }

end Draft

end OfflineSigner.Evm
