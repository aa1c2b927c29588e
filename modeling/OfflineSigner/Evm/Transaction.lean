import OfflineSigner.Evm.Intent
import OfflineSigner.Rlp

/-!
# EVM transactions

The fields of a transaction as they go on the wire, and the bytes that are signed. A legacy transaction with a chain id
signs three more fields than one without, and a transaction with a capped fee starts with its type byte, so the bytes tell
the three kinds apart.
-/

namespace OfflineSigner.Evm

/-- The fields of a transaction. The sender is not on the wire; the signature gives it. -/
structure Transaction where
  nonce : UInt64
  sender : EvmAddress
  recipient : EvmAddress
  value : Word
  data : Bytes
  gasLimit : UInt64
  chainId : UInt64
  fee : Fee
  deriving DecidableEq

namespace Transaction

/-- Why an intent makes no transaction. -/
inductive Error where
  | zeroGasLimit
  | cappedWithoutChain
  deriving DecidableEq

/-- A fault as it is reported. -/
def Error.report : Error → Failure
  | .zeroGasLimit => ⟨.invalidTransactionStructure, "gas_limit must be positive", none⟩
  | .cappedWithoutChain => ⟨.unsupportedFeeModel, "EIP-1559 transactions require a non-zero chain id", none⟩

/-- Who a transaction goes to, with what value and data. A token transfer goes to the contract, without value. -/
def target (i : Intent) : EvmAddress × Word × Bytes :=
  match i.call with
  | .none => (i.recipient, i.value, [])
  | .explicit data => (i.recipient, i.value, data)
  | .tokenTransfer contract => (contract, 0, Call.transferData i.recipient i.value)

/-- The transaction that does what is intended. -/
def ofIntent (i : Intent) : Except Error Transaction :=
  if i.gasLimit = 0 then .error .zeroGasLimit
  else if i.chainId = 0 ∧ i.fee.isCapped then .error .cappedWithoutChain
  else
    let (recipient, value, data) := target i
    .ok { nonce := i.nonce, sender := i.sender, recipient, value, data, gasLimit := i.gasLimit, chainId := i.chainId,
          fee := i.fee }

/-- The byte in front of a transaction with a capped fee. -/
def cappedType : UInt8 := 0x02

/-- The fields that a legacy transaction has with and without a signature. -/
def legacyFields (t : Transaction) (gasPrice : Word) : Rlp.Fields :=
  (((((({} : Rlp.Fields).uint64 t.nonce).word gasPrice).uint64 t.gasLimit).bytes t.recipient.toList).word t.value).bytes
    t.data

/-- The fields that a transaction with a capped fee has with and without a signature; the last is an empty access
list. -/
def cappedFields (t : Transaction) (maxFee priority : Word) : Rlp.Fields :=
  ((((((((({} : Rlp.Fields).uint64 t.chainId).uint64 t.nonce).word priority).word maxFee).uint64 t.gasLimit).bytes
    t.recipient.toList).word t.value).bytes t.data).raw (Rlp.encodeList [])

/-- The bytes that are signed. -/
def payload (t : Transaction) : Bytes :=
  match t.fee with
  | .legacy gasPrice =>
    let fields := t.legacyFields gasPrice
    (if t.chainId = 0 then fields else ((fields.uint64 t.chainId).uint64 0).uint64 0).finish
  | .capped maxFee priority => cappedType :: (t.cappedFields maxFee priority).finish

/-- The hash that is signed. -/
def signingHash (t : Transaction) : Digest := Hash.keccak256 t.payload

end Transaction

end OfflineSigner.Evm
