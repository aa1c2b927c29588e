import OfflineSigner.Bitcoin.Partial
import OfflineSigner.Proofs.Bitcoin.Fee

/-!
# A built transaction through the stages of signing

Each stage of a partially signed transaction asks for something that may be absent, and has its own fault for that. Main
statement: when the coins are Taproot ones nothing is absent, so the stages together do what signing does and none of their own
faults comes out (`sign_toPartiallySigned`).
-/

namespace OfflineSigner.Bitcoin

open Curve

namespace PartiallySigned

/-- What is known of an input after it is signed. -/
def signedInput (coin : Coin) (σ : Schnorr.Signature) : PartialInput :=
  { spent := some coin.output, internalKey := some coin.internalKey, signature := some σ }

/-- What is known of an input after it is finalized. -/
def finalInput (input : PartialInput) : PartialInput :=
  { input with internalKey := none, signature := none, witness := input.signature.map fun σ => [σ.toList] }

theorem finalizeInput_of_isSome {input : PartialInput} (h : input.signature.isSome) (place : Nat) :
    finalizeInput input place = .ok (finalInput input) := by
  obtain ⟨σ, hσ⟩ := Option.isSome_iff_exists.mp h
  rw [finalizeInput, hσ, finalInput, hσ]
  rfl

theorem isSome_signature_of_mem {coins : List Coin} {signatures : List Schnorr.Signature} {input : PartialInput}
    (h : input ∈ List.zipWith signedInput coins signatures) : input.signature.isSome := by
  obtain ⟨n, hn⟩ := List.getElem?_of_mem h
  obtain ⟨coin, σ, -, -, rfl⟩ := List.getElem?_zipWith_eq_some.mp hn
  rfl

/-- Finalized inputs give their signatures to the inputs of the transaction. -/
theorem fill_finalInput {f : Coin → Input} (hf : ∀ coin, (f coin).script = []) {coins : List Coin}
    {signatures : List Schnorr.Signature} (h : signatures.length = coins.length) :
    fill (coins.map f) ((List.zipWith signedInput coins signatures).map finalInput) =
      List.zipWith (fun i σ => { i with witness := [σ.toList] }) (coins.map f) signatures := by
  induction coins generalizing signatures with
  | nil => rfl
  | cons coin coins ih =>
    cases signatures with
    | nil => cases h
    | cons σ signatures =>
      simp only [List.map_cons, List.zipWith_cons_cons, fill, ih (Nat.succ.inj h), ← hf coin]
      rfl

end PartiallySigned

namespace Unsigned

open PartiallySigned

variable {u : Unsigned}

/-- Everything that an input is asked for before its key is there; then it is signed as its coin is. -/
theorem signInput_toPartiallySigned (keys : KeySource) {coin : Coin} (htaproot : (Script.taprootKey? coin.output.script).isSome)
    (place : Nat) :
    u.toPartiallySigned.signInput keys u.spent ({ spent := some coin.output, internalKey := some coin.internalKey }, coin.output)
        place = ((u.signature keys coin place).map (signedInput coin)).mapError PartialError.sign := by
  have hlength : u.spent.length = u.transaction.inputs.length := by rw [spent, List.length_map, length_inputs_transaction]
  have hdigest : u.toPartiallySigned.digest u.spent place = .ok (u.transaction.signingHash u.spent place) := if_pos hlength
  have hscript : (Script.taprootKey? coin.output.script).isNone ≠ true := by
    rw [Ne, Option.isNone_iff_eq_none]
    exact Option.isSome_iff_ne_none.mp htaproot
  unfold signInput signature
  cases hsecret : keys place coin.internalKey with
  | none => simp only [hsecret]; rfl
  | some secret =>
    simp only [hsecret, if_neg hscript, hdigest]
    cases Taproot.tweakedSecret (some secret) coin.internalKey with
    | error fault => rfl
    | ok d =>
      by_cases hcommits : coin.output.script.drop 2 = d.xOnly.toBytes.toList
      · simp only [Except.mapError, ok_bind, if_neg (not_not_intro hcommits)]
        rfl
      · simp only [Except.mapError, ok_bind, if_pos hcommits]
        rfl

/-- Through the stages a transaction is signed as it is at once, and fails with the same fault. -/
theorem sign_toPartiallySigned (htaproot : ∀ coin ∈ u.coins, (Script.taprootKey? coin.output.script).isSome) (keys : KeySource) :
    u.toPartiallySigned.sign keys = (u.sign keys).mapError .sign := by
  have hspent : checkAll spentOutput 0 u.toPartiallySigned.inputs = .ok u.spent := by
    rw [toPartiallySigned, checkAll_map]
    exact checkAll_eq_ok_map (fun _ _ _ => rfl) 0
  have hzip : u.toPartiallySigned.inputs.zip u.spent = u.coins.map fun coin =>
      ({ spent := some coin.output, internalKey := some coin.internalKey }, coin.output) := by
    rw [toPartiallySigned, spent, List.zip_map']
  have hsigned := checkAll_eq_mapError (fun coin hcoin place =>
    signInput_toPartiallySigned (u := u) keys (htaproot coin hcoin) place) 0
  unfold PartiallySigned.sign Unsigned.sign
  rw [hspent, ok_bind, hzip, checkAll_map, hsigned]
  cases hsignatures : checkAll (u.signature keys) 0 u.coins with
  | error e => rfl
  | ok signatures =>
    have hfinal : checkAll finalizeInput 0 (List.zipWith signedInput u.coins signatures) =
        .ok ((List.zipWith signedInput u.coins signatures).map finalInput) :=
      checkAll_eq_ok_map (fun input hinput => finalizeInput_of_isSome (isSome_signature_of_mem hinput)) 0
    have hextract : extract u.toPartiallySigned.transaction ((List.zipWith signedInput u.coins signatures).map finalInput) =
        u.withSignatures signatures := by
      rw [extract, toPartiallySigned, withSignatures, transaction]
      dsimp only
      rw [fill_finalInput (fun _ => rfl) (length_of_checkAll hsignatures)]
    have hwitness : ((u.withSignatures signatures).inputs.any fun i => i.witness.isEmpty) = false := by
      rw [List.any_eq_false]
      intro i hi
      have hmem := List.mem_map_of_mem (f := Input.witness) hi
      rw [map_witness_withSignatures (length_of_checkAll hsignatures)] at hmem
      obtain ⟨σ, -, hσ⟩ := List.mem_map.mp hmem
      rw [← hσ]
      exact Bool.false_ne_true
    simp only [Except.map, Except.mapError, ok_bind, hfinal, hextract]
    rw [hwitness, if_neg Bool.false_ne_true]
    rfl

end Unsigned

end OfflineSigner.Bitcoin
