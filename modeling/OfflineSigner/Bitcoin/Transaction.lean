import OfflineSigner.Hash.Composed
import OfflineSigner.Hex

/-!
# Bitcoin transactions

Transactions with their two written forms: one without witnesses, whose hash names the transaction, and one with them. The
hash that a Taproot key signs covers all inputs and outputs and the coins that are spent.
-/

namespace OfflineSigner.Bitcoin

/-- A number of up to 64 bits in as few bytes as its size class takes. -/
def compactSize (n : Nat) : Bytes :=
  if n < 0xfd then [UInt8.ofNat n]
  else if n < UInt16.size then 0xfd :: Bytes.ofNatLE 2 n
  else if n < UInt32.size then 0xfe :: Bytes.ofNatLE 4 n
  else 0xff :: Bytes.ofNatLE 8 n

/-- A byte string with its length in front. -/
def counted (bs : Bytes) : Bytes := compactSize bs.length ++ bs

/-- The name of a transaction, in the order of the hash; texts show the bytes in reverse. -/
abbrev TransactionId := Digest

/-- Why a text names no transaction. -/
inductive TransactionId.Error where
  | length
  | digit
  deriving DecidableEq

/-- The wording of a fault. -/
def TransactionId.Error.message : TransactionId.Error → String
  | .length => "failed to parse hex"
  | .digit => "failed to parse hex digit"

/-- The name of a transaction as texts show it. -/
def TransactionId.text (id : TransactionId) : String := Hex.encode id.toList.reverse

/-- The name of a transaction that a text shows. -/
def TransactionId.parse (s : String) : Except TransactionId.Error TransactionId :=
  let digits := Text.utf8Chars (Text.trimChars s.toList)
  if digits.length ≠ 64 then .error .length
  else
    match (Hex.decodeUtf8 digits).toOption.bind (fun bs => FixedBytes.ofList? 32 bs.reverse) with
    | some id => .ok id
    | none => .error .digit

/-- An output of an earlier transaction. -/
structure OutPoint where
  transaction : TransactionId
  index : UInt32
  deriving DecidableEq

/-- An output: its value in satoshis, and the script that guards it. -/
structure Output where
  value : UInt64
  script : Bytes
  deriving DecidableEq

/-- An input: what it spends, its script, its sequence number, and its witness. -/
structure Input where
  outPoint : OutPoint
  script : Bytes := []
  sequence : UInt32
  witness : List Bytes := []
  deriving DecidableEq

/-- A transaction. -/
structure Transaction where
  version : Int32
  inputs : List Input
  outputs : List Output
  lockTime : UInt32
  deriving DecidableEq

/-- What an input spends, as bytes. -/
def OutPoint.bytes (o : OutPoint) : Bytes := o.transaction.toList ++ Bytes.ofNatLE 4 o.index.toNat

/-- An output as bytes. -/
def Output.bytes (o : Output) : Bytes := Bytes.ofNatLE 8 o.value.toNat ++ counted o.script

/-- An input as bytes, without its witness. -/
def Input.bytes (i : Input) : Bytes := i.outPoint.bytes ++ counted i.script ++ Bytes.ofNatLE 4 i.sequence.toNat

/-- The witness of an input as bytes. -/
def Input.witnessBytes (i : Input) : Bytes := compactSize i.witness.length ++ i.witness.flatMap counted

namespace Transaction

/-- The version as bytes. -/
def versionBytes (t : Transaction) : Bytes := Bytes.ofNatLE 4 t.version.toUInt32.toNat

/-- The lock time as bytes. -/
def lockTimeBytes (t : Transaction) : Bytes := Bytes.ofNatLE 4 t.lockTime.toNat

/-- The inputs and the outputs as bytes, each with their number in front. -/
def body (t : Transaction) : Bytes :=
  compactSize t.inputs.length ++ t.inputs.flatMap Input.bytes ++ compactSize t.outputs.length ++
    t.outputs.flatMap Output.bytes

/-- The transaction as bytes, without witnesses. -/
def stripped (t : Transaction) : Bytes := t.versionBytes ++ t.body ++ t.lockTimeBytes

/-- Whether some input has a witness. -/
def hasWitness (t : Transaction) : Bool := t.inputs.any fun i => !i.witness.isEmpty

/-- The transaction as bytes. A marker and a flag stand before the inputs when there are witnesses. -/
def raw (t : Transaction) : Bytes :=
  if t.hasWitness then
    t.versionBytes ++ [0x00, 0x01] ++ t.body ++ t.inputs.flatMap Input.witnessBytes ++ t.lockTimeBytes
  else t.stripped

/-- The name of the transaction, which does not depend on witnesses. -/
def id (t : Transaction) : TransactionId := Hash.doubleSha256 t.stripped

/-- Four units for each byte, one for each byte of witnesses. -/
def weight (t : Transaction) : Nat := 3 * t.stripped.length + t.raw.length

/-- A quarter of the weight, rounded up. -/
def virtualSize (t : Transaction) : Nat := (t.weight + 3) / 4

/-- What a Taproot key signs for the input at `index`, when the inputs spend the given outputs: the version and the lock
time, the hashes of everything spent, of the sequence numbers and of the outputs, and the index. -/
def signingMessage (t : Transaction) (spent : List Output) (index : Nat) : Bytes :=
  let hash (bs : Bytes) : Bytes := (Hash.sha256 bs).toList
  [0x00, 0x00] ++ t.versionBytes ++ t.lockTimeBytes ++
    hash (t.inputs.flatMap fun i => i.outPoint.bytes) ++
    hash (spent.flatMap fun o => Bytes.ofNatLE 8 o.value.toNat) ++
    hash (spent.flatMap fun o => counted o.script) ++
    hash (t.inputs.flatMap fun i => Bytes.ofNatLE 4 i.sequence.toNat) ++
    hash (t.outputs.flatMap Output.bytes) ++
    0x00 :: Bytes.ofNatLE 4 index

/-- The hash that a Taproot key signs. -/
def signingHash (t : Transaction) (spent : List Output) (index : Nat) : Digest :=
  Hash.tagged "TapSighash" (t.signingMessage spent index)

end Transaction

end OfflineSigner.Bitcoin
