import OfflineSigner.Bitcoin.Signed

/-!
# Partially signed Bitcoin transactions

A transaction on its way to its signatures, with what is known of each input: the output it spends and the key it belongs to
before it is signed, the signature until it is finalized, the witness afterwards. Any of them may be absent, so each stage asks
for what it needs.
-/

namespace OfflineSigner.Bitcoin

open Curve

/-- What is known of an input. -/
structure PartialInput where
  spent : Option Output := none
  internalKey : Option XOnlyKey := none
  signature : Option Schnorr.Signature := none
  witness : Option (List Bytes) := none
  deriving DecidableEq

/-- A transaction, and what is known of its inputs. -/
structure PartiallySigned where
  transaction : Transaction
  inputs : List PartialInput
  deriving DecidableEq

/-- Why a partially signed transaction is not completed. -/
inductive PartialError where
  | noSpentOutput (input : Nat)
  | noInternalKey (input : Nat)
  | notTaproot (input : Nat)
  | sign (fault : SignError)
  | spentCount
  | unsigned (input : Nat)
  | emptyWitness
  deriving DecidableEq

/-- A fault as it is reported. -/
def PartialError.report : PartialError → Failure
  | .noSpentOutput input => ⟨.invalidTransactionStructure, s!"Input {input} has no witness UTXO", none⟩
  | .noInternalKey input => ⟨.invalidTransactionStructure, s!"Input {input} has no internal key", none⟩
  | .notTaproot input => ⟨.invalidTransactionStructure, s!"Input {input} does not spend a P2TR output", none⟩
  | .sign fault => fault.report
  | .spentCount => ⟨.signingFailed, "Taproot sighash error: prevouts size", none⟩
  | .unsigned input => ⟨.signingFailed, s!"Input {input} is unsigned", none⟩
  | .emptyWitness => ⟨.signingFailed, "Finalized transaction has an empty witness", none⟩

namespace PartiallySigned

/-- The output that an input spends. -/
def spentOutput (input : PartialInput) (place : Nat) : Except PartialError Output :=
  match input.spent with
  | some output => .ok output
  | none => .error (.noSpentOutput place)

/-- What a Taproot key signs for the input at a place. There has to be a spent output for each input. -/
def digest (p : PartiallySigned) (spent : List Output) (place : Nat) : Except PartialError Digest :=
  if spent.length = p.transaction.inputs.length then .ok (p.transaction.signingHash spent place) else .error .spentCount

/-- An input with its signature, when it is known what it spends. -/
def signInput (p : PartiallySigned) (keys : KeySource) (spent : List Output) (input : PartialInput × Output) (place : Nat) :
    Except PartialError PartialInput := do
  let some internalKey := input.1.internalKey | .error (.noInternalKey place)
  let some secret := keys place internalKey | .error (.sign (.noKey place))
  if (Script.taprootKey? input.2.script).isNone then throw (.notTaproot place)
  let d ← (Taproot.tweakedSecret (some secret) internalKey).mapError fun fault => .sign (.key fault)
  if input.2.script.drop 2 ≠ d.xOnly.toBytes.toList then throw (.sign (.uncommitted place))
  let digest ← p.digest spent place
  return { input.1 with signature := some (Schnorr.sign d digest) }

/-- An input whose signature has become its witness. -/
def finalizeInput (input : PartialInput) (place : Nat) : Except PartialError PartialInput :=
  match input.signature with
  | some σ => .ok { input with internalKey := none, signature := none, witness := some [σ.toList] }
  | none => .error (.unsigned place)

/-- Inputs with the witnesses that are known of them, as far as anything is known. -/
def fill : List Input → List PartialInput → List Input
  | i :: inputs, known :: rest => { i with script := [], witness := known.witness.getD [] } :: fill inputs rest
  | inputs, _ => inputs

/-- The transaction with the witnesses of its inputs. -/
def extract (t : Transaction) (known : List PartialInput) : Transaction := { t with inputs := fill t.inputs known }

/-- The transaction with all inputs signed: all spent outputs are asked for first, then each input is signed, then each is
finalized. -/
def sign (p : PartiallySigned) (keys : KeySource) : Except PartialError Transaction := do
  let spent ← checkAll spentOutput 0 p.inputs
  let signed ← checkAll (p.signInput keys spent) 0 (p.inputs.zip spent)
  let final ← checkAll finalizeInput 0 signed
  let t := extract p.transaction final
  if t.inputs.any fun i => i.witness.isEmpty then throw .emptyWitness
  return t

end PartiallySigned

/-- The partially signed form: for each input the output it spends and the key it belongs to. -/
def Unsigned.toPartiallySigned (u : Unsigned) : PartiallySigned where
  transaction := u.transaction
  inputs := u.coins.map fun coin => { spent := some coin.output, internalKey := some coin.internalKey }

end OfflineSigner.Bitcoin
