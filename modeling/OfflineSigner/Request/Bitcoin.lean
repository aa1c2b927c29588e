import OfflineSigner.Bitcoin.Signed
import OfflineSigner.Request.Secret

/-!
# Requests for Bitcoin transactions

A request may leave out what its secret key tells: the key of an input, and the script of a coin that belongs to that key.
-/

namespace OfflineSigner.Request

open OfflineSigner.Bitcoin (CoinRequest OutputRequest Destination)

/-- An input of a request. -/
structure BitcoinInput where
  transaction : String
  index : UInt32
  value : UInt64
  script : Option String := none
  publicKey : Option String := none
  deriving DecidableEq

/-- An output of a request. -/
structure BitcoinOutput where
  value : UInt64
  address : Option String := none
  script : Option String := none
  deriving DecidableEq

/-- A request for a signed Bitcoin transaction. -/
structure Bitcoin where
  secretKey : String
  network : Network
  inputs : List BitcoinInput
  outputs : List BitcoinOutput
  deriving DecidableEq

/-- The coin to spend for an input, at a place in the list. What is left out comes from the given public key. -/
def BitcoinInput.coin (own : Bytes) (input : BitcoinInput) (place : Nat) : Except Failure CoinRequest := do
  let invalid (e : String) : Failure := ⟨.invalidInput, e, none⟩
  let signerKey ← match input.publicKey with
    | some key => (Hex.decodeMarked key).mapError fun e => invalid s!"Input {place} public key: {e.message}"
    | none => pure own
  let script ← match input.script with
    | some script => (Hex.decodeMarked script).mapError fun e => invalid s!"Input {place} script: {e.message}"
    | none =>
      ((Taproot.parseInternalKey signerKey).bind Taproot.script).mapError fun e =>
        ⟨.invalidTransactionStructure, s!"Input {place}: {e.message}", none⟩
  return ⟨input.transaction, input.index, input.value, script, signerKey⟩

/-- The output to make for an output, at a place in the list. An address wins over a script. -/
def BitcoinOutput.request (output : BitcoinOutput) (place : Nat) : Except Failure OutputRequest :=
  match output.address, output.script with
  | some address, _ => .ok ⟨output.value, .address address⟩
  | none, some script =>
    match Hex.decodeMarked script with
    | .ok bs => .ok ⟨output.value, .script bs⟩
    | .error e => .error ⟨.invalidInput, s!"Output {place} script: {e.message}", none⟩
  | none, none => .error ⟨.invalidTransactionStructure, s!"Output {place} needs an address or a script", none⟩

namespace Bitcoin

/-- The coins to spend and the outputs to make. -/
def parts (r : Bitcoin) : Except Failure (List CoinRequest × List OutputRequest) := do
  let d ← Request.secretKey r.secretKey
  let own := d.publicKey.compressed.toList
  let coins ← OfflineSigner.Bitcoin.checkAll (BitcoinInput.coin own) 0 r.inputs
  let outputs ← OfflineSigner.Bitcoin.checkAll BitcoinOutput.request 0 r.outputs
  return (coins, outputs)

/-- The signed transaction that a request asks for. -/
def sign (r : Bitcoin) (config : Config) : Except Failure SignedTransaction := do
  let (coins, outputs) ← r.parts
  let d ← Request.secretKey r.secretKey
  let unsigned ← (OfflineSigner.Bitcoin.Unsigned.build coins outputs r.network config).mapError
    OfflineSigner.Bitcoin.BuildError.report
  let signed ← (unsigned.sign (OfflineSigner.Bitcoin.KeySource.single d)).mapError
    OfflineSigner.Bitcoin.SignError.report
  return signed.toSignedTransaction

end Bitcoin

end OfflineSigner.Request
