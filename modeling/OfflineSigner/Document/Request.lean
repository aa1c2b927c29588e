import OfflineSigner.Document.Failure
import OfflineSigner.Request.Bitcoin
import OfflineSigner.Request.Evm

/-!
# Requests as documents

Requests have members in camel case. Some members of Bitcoin requests go by a second name as well, which counts as the
same member.
-/

namespace OfflineSigner.Document

open Json

/-- The most levels of brackets that a document may have, and one more. -/
def maxDepth : Nat := 128

/-- A quantity within a number of levels of brackets. Any value is read before it is found to be none. -/
def quantityWithin (depth : Nat) : Reader Request.Quantity := do
  match ← anything depth with
  | .natural n => return .number n
  | .string s => return .text s
  | .other => throw (.noForm "untagged enum Quantity")

/-- A quantity that is a whole document. -/
def quantity : Reader Request.Quantity := quantityWithin maxDepth

/-- An optional quantity that is a member of a request. -/
def quantityMember : Reader (Option Request.Quantity) := optional (quantityWithin (maxDepth - 1))

/-- A network by its name. -/
def network : Reader Network := choice (Network.all.map Network.name) Network.ofName?

/-- A quantity as a value. -/
def ofQuantity? : Option Request.Quantity → Value
  | none => .null
  | some (.number n) => .number n.toNat
  | some (.text s) => .string s

/-- A request for an EVM transaction as a value. -/
def ofEvmRequest (r : Request.Evm) : Value :=
  .object [
    ("privateKey", .string r.secretKey),
    ("nonce", .number r.nonce.toNat),
    ("from", .string r.sender),
    ("to", .string r.recipient),
    ("gasLimit", .number r.gasLimit.toNat),
    ("amount", .string r.amount),
    ("decimal", .number r.decimals.toNat),
    ("chainId", .number r.chainId.toNat),
    ("gasPrice", ofQuantity? r.gasPrice),
    ("maxFeePerGas", ofQuantity? r.maxFee),
    ("maxPriorityFeePerGas", ofQuantity? r.priorityFee),
    ("tokenAddress", Value.ofText? r.token),
    ("callData", Value.ofText? r.callData)]

/-- What is read of a request for an EVM transaction. -/
structure EvmFields where
  secretKey : Option String := none
  nonce : Option UInt64 := none
  sender : Option String := none
  recipient : Option String := none
  gasLimit : Option UInt64 := none
  amount : Option String := none
  decimals : Option UInt32 := none
  chainId : Option UInt64 := none
  gasPrice : Option (Option Request.Quantity) := none
  maxFee : Option (Option Request.Quantity) := none
  priorityFee : Option (Option Request.Quantity) := none
  token : Option (Option String) := none
  callData : Option (Option String) := none

/-- The reader of a member of a request for an EVM transaction. -/
def evmField (st : EvmFields) (key : String) : Option (Reader EvmFields) :=
  match key with
  | "privateKey" => once st.secretKey key string fun v => { st with secretKey := some v }
  | "nonce" => once st.nonce key uint64 fun v => { st with nonce := some v }
  | "from" => once st.sender key string fun v => { st with sender := some v }
  | "to" => once st.recipient key string fun v => { st with recipient := some v }
  | "gasLimit" => once st.gasLimit key uint64 fun v => { st with gasLimit := some v }
  | "amount" => once st.amount key string fun v => { st with amount := some v }
  | "decimal" => once st.decimals key uint32 fun v => { st with decimals := some v }
  | "chainId" => once st.chainId key uint64 fun v => { st with chainId := some v }
  | "gasPrice" => once st.gasPrice key quantityMember fun v => { st with gasPrice := some v }
  | "maxFeePerGas" => once st.maxFee key quantityMember fun v => { st with maxFee := some v }
  | "maxPriorityFeePerGas" => once st.priorityFee key quantityMember fun v => { st with priorityFee := some v }
  | "tokenAddress" => once st.token key (optional string) fun v => { st with token := some v }
  | "callData" => once st.callData key (optional string) fun v => { st with callData := some v }
  | _ => none

/-- A request from its members; the first one that is missing is named. -/
def EvmFields.finish (st : EvmFields) : Reader Request.Evm := do
  let secretKey ← required "privateKey" st.secretKey
  let nonce ← required "nonce" st.nonce
  let sender ← required "from" st.sender
  let recipient ← required "to" st.recipient
  let gasLimit ← required "gasLimit" st.gasLimit
  let amount ← required "amount" st.amount
  let chainId ← required "chainId" st.chainId
  return {
    secretKey, nonce, sender, recipient, gasLimit, amount, chainId
    decimals := st.decimals.getD 18
    gasPrice := st.gasPrice.join
    maxFee := st.maxFee.join
    priorityFee := st.priorityFee.join
    token := st.token.join
    callData := st.callData.join }

/-- A request for an EVM transaction. -/
def evmRequest : Reader Request.Evm :=
  let expected := "struct EvmSignRequest with 13 elements"
  record "EvmSignRequest"
    (do
      let secretKey ← elementAt expected 0 string
      let nonce ← elementAt expected 1 uint64
      let sender ← elementAt expected 2 string
      let recipient ← elementAt expected 3 string
      let gasLimit ← elementAt expected 4 uint64
      let amount ← elementAt expected 5 string
      let decimals ← elementAt? 6 uint32
      let chainId ← elementAt expected 7 uint64
      let gasPrice ← elementAt? 8 quantityMember
      let maxFee ← elementAt? 9 quantityMember
      let priorityFee ← elementAt? 10 quantityMember
      let token ← elementAt? 11 (optional string)
      let callData ← elementAt? 12 (optional string)
      return {
        secretKey, nonce, sender, recipient, gasLimit, amount, chainId
        decimals := decimals.getD 18
        gasPrice := gasPrice.join
        maxFee := maxFee.join
        priorityFee := priorityFee.join
        token := token.join
        callData := callData.join })
    (do (← fields evmField {}).finish)

/-- An input of a request as a value. -/
def ofBitcoinInput (input : Request.BitcoinInput) : Value :=
  .object [
    ("txid", .string input.transaction),
    ("vout", .number input.index.toNat),
    ("amount", .number input.value.toNat),
    ("scriptPubkey", Value.ofText? input.script),
    ("publicKey", Value.ofText? input.publicKey)]

/-- An output of a request as a value. -/
def ofBitcoinOutput (output : Request.BitcoinOutput) : Value :=
  .object [
    ("amount", .number output.value.toNat),
    ("address", Value.ofText? output.address),
    ("script", Value.ofText? output.script)]

/-- A request for a Bitcoin transaction as a value. -/
def ofBitcoinRequest (r : Request.Bitcoin) : Value :=
  .object [
    ("privateKey", .string r.secretKey),
    ("network", .string r.network.name),
    ("inputs", .array (r.inputs.map ofBitcoinInput)),
    ("outputs", .array (r.outputs.map ofBitcoinOutput))]

/-- What is read of an input. -/
structure InputFields where
  transaction : Option String := none
  index : Option UInt32 := none
  value : Option UInt64 := none
  script : Option (Option String) := none
  publicKey : Option (Option String) := none

/-- The first name of a member of an input. -/
def inputName : String → String
  | "index" => "vout"
  | "output" => "scriptPubkey"
  | key => key

/-- The reader of a member of an input. -/
def inputField (st : InputFields) (key : String) : Option (Reader InputFields) :=
  let name := inputName key
  match name with
  | "txid" => once st.transaction name string fun v => { st with transaction := some v }
  | "vout" => once st.index name uint32 fun v => { st with index := some v }
  | "amount" => once st.value name uint64 fun v => { st with value := some v }
  | "scriptPubkey" => once st.script name (optional string) fun v => { st with script := some v }
  | "publicKey" => once st.publicKey name (optional string) fun v => { st with publicKey := some v }
  | _ => none

/-- An input from its members. -/
def InputFields.finish (st : InputFields) : Reader Request.BitcoinInput := do
  let transaction ← required "txid" st.transaction
  let index ← required "vout" st.index
  let value ← required "amount" st.value
  return { transaction, index, value, script := st.script.join, publicKey := st.publicKey.join }

/-- An input of a request. -/
def bitcoinInput : Reader Request.BitcoinInput :=
  let expected := "struct BitcoinInputRequest with 5 elements"
  record "BitcoinInputRequest"
    (do
      let transaction ← elementAt expected 0 string
      let index ← elementAt expected 1 uint32
      let value ← elementAt expected 2 uint64
      let script ← elementAt? 3 (optional string)
      let publicKey ← elementAt? 4 (optional string)
      return { transaction, index, value, script := script.join, publicKey := publicKey.join })
    (do (← fields inputField {}).finish)

/-- What is read of an output. -/
structure OutputFields where
  value : Option UInt64 := none
  address : Option (Option String) := none
  script : Option (Option String) := none

/-- The first name of a member of an output. -/
def outputName : String → String
  | "value" => "amount"
  | "sendAddress" => "address"
  | key => key

/-- The reader of a member of an output. -/
def outputField (st : OutputFields) (key : String) : Option (Reader OutputFields) :=
  let name := outputName key
  match name with
  | "amount" => once st.value name uint64 fun v => { st with value := some v }
  | "address" => once st.address name (optional string) fun v => { st with address := some v }
  | "script" => once st.script name (optional string) fun v => { st with script := some v }
  | _ => none

/-- An output from its members. -/
def OutputFields.finish (st : OutputFields) : Reader Request.BitcoinOutput := do
  let value ← required "amount" st.value
  return { value, address := st.address.join, script := st.script.join }

/-- An output of a request. -/
def bitcoinOutput : Reader Request.BitcoinOutput :=
  let expected := "struct BitcoinOutputRequest with 3 elements"
  record "BitcoinOutputRequest"
    (do
      let value ← elementAt expected 0 uint64
      let address ← elementAt? 1 (optional string)
      let script ← elementAt? 2 (optional string)
      return { value, address := address.join, script := script.join })
    (do (← fields outputField {}).finish)

/-- What is read of a request for a Bitcoin transaction. -/
structure BitcoinFields where
  secretKey : Option String := none
  network : Option Network := none
  inputs : Option (List Request.BitcoinInput) := none
  outputs : Option (List Request.BitcoinOutput) := none

/-- The first name of a member of a request for a Bitcoin transaction. -/
def bitcoinName : String → String
  | "output" => "outputs"
  | key => key

/-- The reader of a member of a request for a Bitcoin transaction. -/
def bitcoinField (st : BitcoinFields) (key : String) : Option (Reader BitcoinFields) :=
  let name := bitcoinName key
  match name with
  | "privateKey" => once st.secretKey name string fun v => { st with secretKey := some v }
  | "network" => once st.network name network fun v => { st with network := some v }
  | "inputs" => once st.inputs name (list bitcoinInput) fun v => { st with inputs := some v }
  | "outputs" => once st.outputs name (list bitcoinOutput) fun v => { st with outputs := some v }
  | _ => none

/-- A request from its members. -/
def BitcoinFields.finish (st : BitcoinFields) : Reader Request.Bitcoin := do
  let secretKey ← required "privateKey" st.secretKey
  let network ← required "network" st.network
  let inputs ← required "inputs" st.inputs
  let outputs ← required "outputs" st.outputs
  return { secretKey, network, inputs, outputs }

/-- A request for a Bitcoin transaction. -/
def bitcoinRequest : Reader Request.Bitcoin :=
  let expected := "struct BitcoinSignRequest with 4 elements"
  record "BitcoinSignRequest"
    (do
      let secretKey ← elementAt expected 0 string
      let network ← elementAt expected 1 network
      let inputs ← elementAt expected 2 (list bitcoinInput)
      let outputs ← elementAt expected 3 (list bitcoinOutput)
      return { secretKey, network, inputs, outputs })
    (do (← fields bitcoinField {}).finish)

/-- A signed transaction as a value. -/
def ofSigned (t : SignedTransaction) : Value :=
  .object [("chain", .string t.chain.name), ("raw_tx", .string t.raw), ("txid", .string t.id)]

end OfflineSigner.Document
