import OfflineSigner.Bitcoin.Script
import OfflineSigner.Bitcoin.Transaction
import OfflineSigner.Config
import OfflineSigner.Taproot

/-!
# Unsigned Bitcoin transactions

The coins to spend and the outputs to make, checked: every coin is a Taproot one of an allowed value, every output can
stand, the coins are worth at least the outputs, and the rest, which is the fee, is not above the limit for the size that
the transaction will have.
-/

namespace OfflineSigner.Bitcoin

open Curve

/-- A coin to spend, as a user gives it. -/
structure CoinRequest where
  transaction : String
  index : UInt32
  value : UInt64
  script : Bytes
  signerKey : Bytes
  deriving DecidableEq

/-- Where an output pays to. -/
inductive Destination where
  | address (text : String)
  | script (bytes : Bytes)
  deriving DecidableEq

/-- An output to make, as a user gives it. -/
structure OutputRequest where
  value : UInt64
  destination : Destination
  deriving DecidableEq

/-- A coin to spend: where it is, what it is, and the key it belongs to before the tweak. -/
structure Coin where
  outPoint : OutPoint
  output : Output
  internalKey : XOnlyKey
  deriving DecidableEq

/-- A transaction that waits for its signatures. -/
structure Unsigned where
  version : Int32
  lockTime : UInt32
  sequence : UInt32
  coins : List Coin
  outputs : List Output
  network : Network
  deriving DecidableEq

/-- Why no transaction is built. -/
inductive BuildError where
  | config (fault : ConfigFault)
  | noInputs
  | noOutputs
  | transactionId (input : Nat) (fault : TransactionId.Error)
  | signerKey (input : Nat) (fault : Taproot.Error)
  | notTaproot (input : Nat)
  | inputValue (value : UInt64)
  | address (output : Nat) (fault : BitcoinAddress.Error)
  | script (output : Nat) (fault : Script.Error)
  | outputValue (value : UInt64)
  | inputSum
  | outputSum
  | outputsExceedInputs
  | feeRate (fee rate size : Nat)
  deriving DecidableEq

namespace BuildError

/-- The wording of a fault. -/
def message : BuildError → String
  | config fault => fault.message
  | noInputs => "Transaction has no inputs"
  | noOutputs => "Transaction has no outputs"
  | transactionId input fault => s!"Input {input} has a malformed txid: {fault.message}"
  | signerKey input fault => s!"Input {input} signer key: {fault.message}"
  | notTaproot input => s!"Input {input} script_pubkey is not a segwit v1 (P2TR) program"
  | inputValue value => s!"Input value {value} exceeds the 21M BTC supply"
  | address output fault => s!"Output {output}: {fault.message}"
  | script output fault => s!"Output {output}: {fault.message}"
  | outputValue value => s!"Output value {value} exceeds the 21M BTC supply"
  | inputSum => "Input value overflow"
  | outputSum => "Output value overflow"
  | outputsExceedInputs => "Outputs exceed inputs"
  | feeRate fee rate size => s!"Fee of {fee} sats exceeds {rate} sat/vB for {size} vbytes"

/-- The kind of failure that a fault is. -/
def code : BuildError → FailureCode
  | config _ => .configError
  | _ => .invalidTransactionStructure

/-- A fault as it is reported. -/
def report (e : BuildError) : Failure := ⟨e.code, e.message, none⟩

end BuildError

/-- All coins there can be, in satoshis. -/
def supply : Nat := 2100000000000000

/-- A coin from what a user gives, at a place in the list. -/
def CoinRequest.check (request : CoinRequest) (place : Nat) : Except BuildError Coin := do
  let transaction ← (TransactionId.parse request.transaction).mapError (.transactionId place)
  let internalKey ← (Taproot.parseInternalKey request.signerKey).mapError (.signerKey place)
  if (Script.taprootKey? request.script).isNone then throw (.notTaproot place)
  if supply < request.value.toNat then throw (.inputValue request.value)
  return ⟨⟨transaction, request.index⟩, ⟨request.value, request.script⟩, internalKey⟩

/-- The script of a destination, at a place in the list of outputs. -/
def Destination.check (destination : Destination) (network : Network) (place : Nat) : Except BuildError Bytes :=
  match destination with
  | .address text => ((BitcoinAddress.parse text network).map BitcoinAddress.script).mapError (.address place)
  | .script bytes => (Script.check bytes).mapError (.script place)

/-- An output from what a user gives, at a place in the list. -/
def OutputRequest.check (request : OutputRequest) (network : Network) (place : Nat) : Except BuildError Output := do
  let script ← request.destination.check network place
  if supply < request.value.toNat then throw (.outputValue request.value)
  return ⟨request.value, script⟩

/-- Each member of a list with its place, through a function that may fail; the first fault ends it. -/
def checkAll {α β ε : Type} (f : α → Nat → Except ε β) (place : Nat) : List α → Except ε (List β)
  | [] => .ok []
  | a :: as => do
    let b ← f a place
    let bs ← checkAll f (place + 1) as
    return b :: bs

namespace Unsigned

/-- The transaction without signatures. -/
def transaction (u : Unsigned) : Transaction where
  version := u.version
  inputs := u.coins.map fun coin => { outPoint := coin.outPoint, sequence := u.sequence }
  outputs := u.outputs
  lockTime := u.lockTime

/-- The outputs that are spent, in the order of the inputs. -/
def spent (u : Unsigned) : List Output := u.coins.map Coin.output

/-- The sum of values. -/
def total (outputs : List Output) : Nat := outputs.foldr (fun o sum => o.value.toNat + sum) 0

/-- What the coins are worth more than the outputs. Either sum has to fit in 64 bits. -/
def fee (u : Unsigned) : Except BuildError Nat :=
  if UInt64.size ≤ total u.spent then .error .inputSum
  else if UInt64.size ≤ total u.outputs then .error .outputSum
  else if total u.spent < total u.outputs then .error .outputsExceedInputs
  else .ok (total u.spent - total u.outputs)

/-- The virtual size with a witness of one signature for each input: the marker and the flag weigh two units, and each
witness 66. -/
def signedSize (u : Unsigned) : Nat :=
  (u.transaction.weight + 2 + 66 * u.coins.length + 3) / 4

/-- The highest fee that a rate allows for a size; it is held in 64 bits. -/
def feeLimit (rate size : Nat) : Nat := min (rate * size) 0xffffffffffffffff

/-- The fee, if it is within the limit of the configuration. -/
def checkedFee (u : Unsigned) (maxRate : Option UInt64) : Except BuildError Nat := do
  let fee ← u.fee
  match maxRate with
  | none => return fee
  | some rate =>
    if feeLimit rate.toNat u.signedSize < fee then .error (.feeRate fee rate.toNat u.signedSize) else return fee

/-- The transaction that spends coins to outputs, in the given order. -/
def build (coins : List CoinRequest) (outputs : List OutputRequest) (network : Network) (config : Config) :
    Except BuildError Unsigned := do
  config.check.mapError .config
  if coins.isEmpty then throw .noInputs
  if outputs.isEmpty then throw .noOutputs
  let u : Unsigned := {
    version := config.bitcoin.txVersion
    lockTime := config.bitcoin.lockTime
    sequence := config.bitcoin.sequence
    coins := ← checkAll CoinRequest.check 0 coins
    outputs := ← checkAll (fun request => request.check network) 0 outputs
    network }
  let _ ← u.checkedFee config.bitcoin.maxFeeRate
  return u

/-- A key and its value in a map of a partially signed transaction. -/
def entry (key value : Bytes) : Bytes := counted key ++ counted value

/-- The partially signed form: the transaction, and for each input the output it spends and the key it belongs to. -/
def psbt (u : Unsigned) : Bytes :=
  [0x70, 0x73, 0x62, 0x74, 0xff] ++ entry [0x00] u.transaction.stripped ++ 0x00 ::
    u.coins.flatMap (fun coin =>
      entry [0x01] coin.output.bytes ++ entry [0x17] coin.internalKey.toBytes.toList ++ [0x00]) ++
    List.replicate u.outputs.length 0x00

end Unsigned

end OfflineSigner.Bitcoin
