import OfflineSigner.Proofs.Bitcoin.Signing

/-!
# Fees and sizes

The fee of a transaction is the exact difference of the two sums, and the check of the fee compares it with the exact product
of rate and size, although the limit is held in 64 bits (`fee_eq_ok_iff`, `checkedFee_eq_ok_iff`). Main statement: the size that
the fee is measured by is that of the signed transaction, so what is paid for a virtual byte is never above the rate
(`signedSize_exact`).
-/

namespace OfflineSigner.Bitcoin

open Curve

namespace Unsigned

/-! ## The check of the fee -/

theorem total_eq_sum (outputs : List Output) : total outputs = (outputs.map fun o => o.value.toNat).sum := by
  rw [total, List.sum_eq_foldr, List.foldr_map]

/-- There is a fee when both sums can be held and it is what the coins are worth more than the outputs. -/
theorem fee_eq_ok_iff {u : Unsigned} {fee : Nat} :
    u.fee = .ok fee ↔
      total u.spent < UInt64.size ∧ total u.outputs < UInt64.size ∧ total u.spent = fee + total u.outputs := by
  unfold Unsigned.fee
  constructor
  · intro h
    split at h
    · cases h
    · rename_i hspent
      split at h
      · cases h
      · rename_i houtputs
        split at h
        · cases h
        · rename_i hle
          cases h
          exact ⟨Nat.not_le.mp hspent, Nat.not_le.mp houtputs, (Nat.sub_add_cancel (Nat.not_lt.mp hle)).symm⟩
  · rintro ⟨hspent, houtputs, heq⟩
    rw [if_neg (Nat.not_le.mpr hspent), if_neg (Nat.not_le.mpr houtputs), if_neg (by omega), heq, Nat.add_sub_cancel]

/-- A fee that fits in 64 bits is above the limit exactly when it is above the product that the limit stands for. -/
theorem feeLimit_lt_iff {rate size fee : Nat} (h : fee < UInt64.size) : feeLimit rate size < fee ↔ rate * size < fee := by
  have hsize : UInt64.size = 0x10000000000000000 := rfl
  unfold feeLimit
  omega

/-- The fee is accepted exactly when it is at most the rate for every virtual byte. -/
theorem checkedFee_eq_ok_iff {u : Unsigned} {maxRate : Option UInt64} {fee : Nat} :
    u.checkedFee maxRate = .ok fee ↔
      u.fee = .ok fee ∧ ∀ rate, maxRate = some rate → fee ≤ rate.toNat * u.signedSize := by
  unfold checkedFee
  rw [bind_eq_ok_iff]
  constructor
  · rintro ⟨fee', hfee, h⟩
    cases maxRate with
    | none =>
      cases h
      exact ⟨hfee, nofun⟩
    | some rate =>
      dsimp only at h
      split at h
      · cases h
      · rename_i hlimit
        cases h
        obtain ⟨hspent, -, heq⟩ := fee_eq_ok_iff.mp hfee
        -- The fee is at most the sum of the coins, which fits in 64 bits, so the cut of the limit does not matter.
        rw [feeLimit_lt_iff (by omega)] at hlimit
        refine ⟨hfee, fun rate' hrate => ?_⟩
        cases hrate
        exact Nat.not_lt.mp hlimit
  · rintro ⟨hfee, hrate⟩
    refine ⟨fee, hfee, ?_⟩
    cases maxRate with
    | none => rfl
    | some rate =>
      obtain ⟨hspent, -, heq⟩ := fee_eq_ok_iff.mp hfee
      exact if_neg (by rw [feeLimit_lt_iff (by omega)]; exact Nat.not_lt.mpr (hrate rate rfl))

end Unsigned

/-! ## Sizes -/

namespace Transaction

/-- Witnesses add the marker, the flag and themselves. -/
theorem length_raw {t : Transaction} (h : t.hasWitness = true) :
    t.raw.length = t.stripped.length + 2 + (t.inputs.flatMap Input.witnessBytes).length := by
  rw [raw, if_pos h, stripped]
  simp only [List.length_append, List.length_cons, List.length_nil]
  omega

end Transaction

namespace Unsigned

/-- Without witnesses every byte weighs four units. -/
theorem weight_transaction (u : Unsigned) : u.transaction.weight = 4 * u.transaction.stripped.length := by
  have hbare : u.transaction.hasWitness = false := by simp [Transaction.hasWitness, transaction]
  rw [Transaction.weight, Transaction.raw, hbare, if_neg Bool.false_ne_true]
  omega

/-- A transaction that is signed is the one that waited for its signatures, with one signature for each coin. -/
theorem exists_signatures {u : Unsigned} {keys : KeySource} {t : Transaction} (h : u.sign keys = .ok t) :
    ∃ signatures, signatures.length = u.coins.length ∧ t = u.withSignatures signatures := by
  obtain ⟨signatures, hchecked, ht⟩ := of_sign h
  exact ⟨signatures, length_of_checkAll hchecked, ht⟩

section

variable {u : Unsigned} {signatures : List Schnorr.Signature}

theorem length_withSignatures (h : signatures.length = u.coins.length) :
    (u.withSignatures signatures).inputs.length = u.coins.length := by
  rw [(u.sameButWitnesses h).length_inputs, u.length_inputs_transaction]

theorem map_witness_withSignatures (h : signatures.length = u.coins.length) :
    (u.withSignatures signatures).inputs.map Input.witness = signatures.map fun σ => [σ.toList] := by
  rw [withSignatures]
  dsimp only
  rw [List.map_zipWith]
  exact List.ext_getElem (by simp [h]) fun n h₁ h₂ => by simp

theorem hasWitness_withSignatures (h : signatures.length = u.coins.length) (hpos : 0 < u.coins.length) :
    (u.withSignatures signatures).hasWitness = true := by
  have hn : 0 < (u.withSignatures signatures).inputs.length := by rwa [length_withSignatures h]
  have hmem : (u.withSignatures signatures).inputs[0].witness ∈ (u.withSignatures signatures).inputs.map Input.witness :=
    List.mem_map_of_mem (List.getElem_mem hn)
  rw [map_witness_withSignatures h] at hmem
  obtain ⟨σ, -, hσ⟩ := List.mem_map.mp hmem
  exact List.any_eq_true.mpr ⟨_, List.getElem_mem hn, by rw [← hσ]; rfl⟩

/-- A witness is written as its count, the length of the signature, and the signature. -/
theorem witnesses_withSignatures (h : signatures.length = u.coins.length) :
    (u.withSignatures signatures).inputs.flatMap Input.witnessBytes =
      signatures.flatMap fun σ => 0x01 :: 0x40 :: σ.toList := by
  have hcounted : ∀ σ : Schnorr.Signature, counted σ.toList = 0x40 :: σ.toList := by
    intro σ
    rw [counted, σ.length_toList]
    rfl
  have hbytes : ∀ inputs : List Input, inputs.flatMap Input.witnessBytes =
      (inputs.map Input.witness).flatMap fun items => compactSize items.length ++ items.flatMap counted := by
    intro inputs
    rw [List.flatMap_map]
    rfl
  rw [hbytes, map_witness_withSignatures h, List.flatMap_map]
  refine List.flatMap_congr fun σ _ => ?_
  rw [List.flatMap_singleton, hcounted]
  rfl

/-- The weight of a transaction whose inputs are all signed. -/
theorem weight_withSignatures (h : signatures.length = u.coins.length) (hpos : 0 < u.coins.length) :
    (u.withSignatures signatures).weight = u.transaction.weight + 2 + 66 * u.coins.length := by
  have hwitnesses : (signatures.flatMap fun σ => 0x01 :: 0x40 :: σ.toList).length = 66 * u.coins.length := by
    rw [← h]
    exact length_flatMap_of_forall fun σ _ => by rw [List.length_cons, List.length_cons, σ.length_toList]
  rw [weight_transaction, Transaction.weight, Transaction.length_raw (hasWitness_withSignatures h hpos),
    witnesses_withSignatures h, hwitnesses, (u.sameButWitnesses h).stripped_eq]
  omega

theorem signedSize_eq (h : signatures.length = u.coins.length) (hpos : 0 < u.coins.length) :
    u.signedSize = (u.withSignatures signatures).virtualSize := by
  rw [signedSize, Transaction.virtualSize, weight_withSignatures h hpos]

end

/-- The size that the fee is measured by is the virtual size of the signed transaction, which is a quarter of the weight, rounded
up: of three times the size without witnesses plus the whole size. The fee is what the coins are worth more than the outputs of
the signed transaction, and it is at most the rate that the configuration allows for every virtual byte. -/
theorem signedSize_exact {coins : List CoinRequest} {outputs : List OutputRequest} {network : Network} {config : Config}
    {u : Unsigned} {keys : KeySource} {t : Transaction} (hbuild : build coins outputs network config = .ok u)
    (hsign : u.sign keys = .ok t) :
    u.signedSize = t.virtualSize ∧
    (3 * t.stripped.length + t.raw.length ≤ 4 * t.virtualSize ∧
      4 * t.virtualSize < 3 * t.stripped.length + t.raw.length + 4) ∧
    ∃ fee, u.fee = .ok fee ∧
      (coins.map fun request => request.value.toNat).sum = fee + (t.outputs.map fun o => o.value.toNat).sum ∧
      ∀ rate, config.bitcoin.maxFeeRate = some rate → fee ≤ rate.toNat * t.virtualSize := by
  obtain ⟨-, hbuilt, fee, hchecked⟩ := build_eq_ok_iff.mp hbuild
  obtain ⟨hfee, hrate⟩ := checkedFee_eq_ok_iff.mp hchecked
  obtain ⟨signatures, hlength, rfl⟩ := exists_signatures hsign
  have hsize := signedSize_eq hlength hbuilt.coins_pos
  have hspent : total u.spent = (coins.map fun request => request.value.toNat).sum := by
    rw [total_eq_sum, hbuilt.spent, List.map_map]
    rfl
  have houtputs : total u.outputs = ((u.withSignatures signatures).outputs.map fun o => o.value.toNat).sum := by
    rw [total_eq_sum]
    rfl
  refine ⟨hsize, ?_, fee, hfee, ?_, fun rate h => hsize ▸ hrate rate h⟩
  · rw [Transaction.virtualSize, Transaction.weight]
    omega
  · rw [← hspent, ← houtputs]
    exact (fee_eq_ok_iff.mp hfee).2.2

/-- The transaction of the two coins has 182 virtual bytes when it is signed and pays 1000 satoshis, within the rate of 1000 for
each of them. -/
theorem signedSize_pair :
    ∃ t fee, pair.sign (KeySource.single Taproot.six) = .ok t ∧ t.virtualSize = 182 ∧ pair.fee = .ok fee ∧
      350000 = fee + 349000 ∧ fee ≤ 1000 * 182 := by
  obtain ⟨hsize, -, fee, hfee, hsum, hrate⟩ := signedSize_exact build_pair sign_pair
  have hsigned : pair.signedSize = 182 := by decide +kernel
  rw [← hsize, hsigned] at hrate
  exact ⟨_, fee, sign_pair, hsize.symm.trans hsigned, hfee, hsum, hrate 1000 rfl⟩

end Unsigned

end OfflineSigner.Bitcoin
