import OfflineSigner.Proofs.Evm.Signed
import Mathlib.Tactic.MkIffOfInductiveProp

/-!
# What the field `v` tells

Statements about the number that `v` holds. Main statement: the `v` of a legacy transaction tells its chain id and recovery id
apart from all others but one, with the chain id beside it and a recovery id that differs by two (`v_identifies`). Recovery ids
of zero and one are told apart from each other; with those above, which only nonces have whose point lies beyond the order of the
group, `v` means more than one chain (`v_shared`).
-/

namespace OfflineSigner.Evm.Transaction

/-- Whether a transaction has a chain id and another has the next one, and their recovery ids make up for it. -/
@[mk_iff]
structure Beside (t : Transaction) (id : Fin 4) (t' : Transaction) (id' : Fin 4) : Prop where
  chain : t.chainId ≠ 0
  next : t'.chainId.toNat = t.chainId.toNat + 1
  recoveryId : id.val = id'.val + 2

/-- Legacy transactions have the same number in `v` when they have the chain id and the recovery id in common, or when one stands
beside the other. -/
theorem vNumber_eq_iff {t t' : Transaction} (hfee : t.fee.isCapped = false) (hfee' : t'.fee.isCapped = false) {id id' : Fin 4} :
    t.vNumber id = t'.vNumber id' ↔
      t.chainId = t'.chainId ∧ id = id' ∨ t.Beside id t' id' ∨ t'.Beside id' t id := by
  have hid := id.isLt
  have hid' := id'.isLt
  have hzero : ∀ n : UInt64, n = 0 ↔ n.toNat = 0 := fun n => UInt64.toNat_inj.symm
  have hchain : t.chainId = t'.chainId ↔ t.chainId.toNat = t'.chainId.toNat := UInt64.toNat_inj.symm
  rw [vNumber_of_legacy hfee, vNumber_of_legacy hfee', beside_iff, beside_iff, hchain, Fin.ext_iff]
  simp only [hzero, ne_eq]
  split <;> split <;> omega

/-- The chain id and the parity are found in the `v` of a legacy transaction when the recovery id is zero or one, and only
then. -/
theorem chain?_eq_some_iff {t : Transaction} (hfee : t.fee.isCapped = false) {id : Fin 4} {n : UInt64} (h : t.v id = .ok n) :
    Wire.chain? n = some (t.chainId, id.val == 1) ↔ id.val ≤ 1 := by
  constructor
  · intro hread
    by_contra hid
    have hn := v_eq_ok_iff.mp h
    have hlt := id.isLt
    rw [vNumber_of_legacy hfee] at hn
    have hsmall : ¬(n = 27 ∨ n = 28) := by
      rw [← UInt64.toNat_inj, ← UInt64.toNat_inj]
      simp
      split at hn <;> omega
    rw [Wire.chain?, if_neg hsmall] at hread
    split at hread
    · rename_i hle
      have hchain := congrArg UInt64.toNat (Prod.mk.inj (Option.some.inj hread)).1
      rw [UInt64.toNat_ofNat_of_lt' (by have := n.toNat_lt_size; omega)] at hchain
      split at hn <;> omega
    · cases hread
  · intro hid
    exact chain?_of_v hfee hid h

/-- The `v` of a transaction with a capped fee is the recovery id, which is a parity when it is zero or one, and only then. -/
theorem v_of_capped {t : Transaction} (hfee : t.fee.isCapped = true) (id : Fin 4) :
    t.v id = .ok (UInt64.ofNat id.val) ∧ (Wire.parity? (UInt64.ofNat id.val) = some (id.val == 1) ↔ id.val ≤ 1) := by
  refine ⟨?_, ?_⟩
  · rw [v, if_pos hfee]
  · revert id
    decide

/-- What `v` tells. Two legacy transactions have the same `v` exactly when chain id and recovery id are the same, or when one
stands beside the other; so recovery ids of zero and one are never confused, and with them, and only with them, the chain id and
the parity are found in `v`. With a capped fee `v` is the recovery id, which is a parity under the same condition. -/
theorem v_identifies {t t' : Transaction} (hfee : t.fee.isCapped = false) (hfee' : t'.fee.isCapped = false) {id id' : Fin 4}
    {n n' : UInt64} (h : t.v id = .ok n) (h' : t'.v id' = .ok n') :
    (n = n' ↔ t.chainId = t'.chainId ∧ id = id' ∨ t.Beside id t' id' ∨ t'.Beside id' t id) ∧
    (id.val ≤ 1 → id'.val ≤ 1 → n = n' → t.chainId = t'.chainId ∧ id = id') ∧
    (Wire.chain? n = some (t.chainId, id.val == 1) ↔ id.val ≤ 1) ∧
    ∀ capped : Transaction, capped.fee.isCapped = true → ∀ id : Fin 4, capped.v id = .ok (UInt64.ofNat id.val) ∧
      (Wire.parity? (UInt64.ofNat id.val) = some (id.val == 1) ↔ id.val ≤ 1) := by
  have hsame : n = n' ↔ t.chainId = t'.chainId ∧ id = id' ∨ t.Beside id t' id' ∨ t'.Beside id' t id := by
    rw [← vNumber_eq_iff hfee hfee', ← v_eq_ok_iff.mp h, ← v_eq_ok_iff.mp h', UInt64.toNat_inj]
  refine ⟨hsame, fun hid hid' heq => ?_, chain?_eq_some_iff hfee h, fun capped hcapped => v_of_capped hcapped⟩
  rcases hsame.mp heq with htold | hbeside | hbeside
  · exact htold
  · have := hbeside.recoveryId
    omega
  · have := hbeside.recoveryId
    omega

/-- The example of EIP-155 on the next chain. -/
def eip155Next : Transaction := { eip155 with chainId := 2 }

/-- The example of EIP-155 has a `v` of 37 and on the next chain one of 40, with recovery ids of zero and one, and both chains are
found. With a recovery id of two it has the `v` of the next chain, beside which it stands, and the next chain is found there. With
a capped fee the `v` is the parity. -/
theorem v_identifies_eip155 :
    (eip155.v 0 = .ok 37 ∧ Wire.chain? 37 = some (1, false)) ∧
    (eip155Next.v 1 = .ok 40 ∧ Wire.chain? 40 = some (2, true)) ∧
    (eip155.v 2 = .ok 39 ∧ eip155Next.v 0 = .ok 39 ∧ eip155.Beside 2 eip155Next 0 ∧ Wire.chain? 39 = some (2, false)) ∧
    ({ eip155 with fee := .capped 2 1 } : Transaction).v 1 = .ok 1 ∧ Wire.parity? 1 = some true := by
  have hv : eip155.v 0 = .ok 37 := by decide
  have hv' : eip155Next.v 1 = .ok 40 := by decide
  have hshared : eip155.v 2 = .ok 39 := by decide
  have hshared' : eip155Next.v 0 = .ok 39 := by decide
  obtain ⟨-, -, hfound, hcapped⟩ := v_identifies rfl rfl hv hv'
  obtain ⟨-, -, hfound', -⟩ := v_identifies rfl rfl hv' hv
  obtain ⟨hsame, -, hnext, -⟩ := v_identifies rfl rfl hshared' hshared
  obtain ⟨hvCapped, hparity⟩ := hcapped { eip155 with fee := .capped 2 1 } rfl 1
  refine ⟨⟨hv, hfound.mpr (by decide)⟩, ⟨hv', hfound'.mpr (by decide)⟩,
    ⟨hshared, hshared', ?_, hnext.mpr (by decide)⟩, hvCapped, hparity.mpr (by decide)⟩
  rcases hsame.mp rfl with ⟨hchain, -⟩ | hbeside | hbeside
  · exact absurd hchain (by decide)
  · exact absurd hbeside.recoveryId (by decide)
  · exact hbeside

/-- With a recovery id of two the example has the `v` that it has on the next chain with a recovery id of zero; without a chain
id it has one that means no parity, and so it has with a capped fee. -/
theorem v_shared :
    eip155.fee.isCapped = false ∧ eip155.v 2 = .ok 39 ∧ ({ eip155 with chainId := 2 } : Transaction).v 0 = .ok 39 ∧
      ({ eip155 with chainId := 0 } : Transaction).v 2 = .ok 29 ∧
      ({ eip155 with fee := .capped 2 1 } : Transaction).v 2 = .ok 2 := by
  decide

end OfflineSigner.Evm.Transaction
