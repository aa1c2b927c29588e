import OfflineSigner.Evm.Fee

/-!
# Which fee prices mean

The fee that optional prices mean (`Fee.Means`), told without reference to how it is resolved. Main statement: prices are resolved
to the fee that they mean, and to none where they mean none (`Fee.resolve_eq_ok_iff`).
-/

namespace OfflineSigner.Evm.Fee

/-- Whether a highest price and a share are both given, and neither is zero. -/
structure Priced (maxFee priority : Option Word) (m p : Word) : Prop where
  maxFee : maxFee = some m
  priority : priority = some p
  maxFee_ne_zero : m.toNat ≠ 0
  priority_ne_zero : p.toNat ≠ 0

/-- The fee that optional prices mean: a capped one, of a highest price and a share in it that are given and not zero; where one
of them is not, a legacy one, of the one price. -/
inductive Means (gasPrice maxFee priority : Option Word) : Fee → Prop where
  | capped {m p : Word} (h : Priced maxFee priority m p) (hle : p.toNat ≤ m.toNat) :
    Means gasPrice maxFee priority (.capped m p)
  | legacy {g : Word} (hgasPrice : gasPrice = some g) (h : ∀ m p, ¬Priced maxFee priority m p) :
    Means gasPrice maxFee priority (.legacy g)

variable {gasPrice maxFee priority : Option Word} {fee : Fee}

theorem given?_eq_some_iff {price : Option Word} {w : Word} : given? price = some w ↔ price = some w ∧ w.toNat ≠ 0 := by
  have hzero : w = 0#256 ↔ w.toNat = 0 := BitVec.toNat_inj.symm
  simp [given?, Option.filter_eq_some_iff, hzero]

theorem priced_iff {m p : Word} : Priced maxFee priority m p ↔ given? maxFee = some m ∧ given? priority = some p := by
  rw [given?_eq_some_iff, given?_eq_some_iff]
  constructor
  · rintro ⟨hm, hp, hm0, hp0⟩
    exact ⟨⟨hm, hm0⟩, hp, hp0⟩
  · rintro ⟨⟨hm, hm0⟩, hp, hp0⟩
    exact ⟨hm, hp, hm0, hp0⟩

/-- A fee is capped exactly when a highest price and a share are given and not zero. -/
theorem Means.isCapped_iff (h : Means gasPrice maxFee priority fee) :
    fee.isCapped = true ↔ ∃ m p, Priced maxFee priority m p := by
  cases h with
  | capped h hle => exact iff_of_true rfl ⟨_, _, h⟩
  | legacy hgasPrice h => exact iff_of_false nofun fun ⟨m, p, hpriced⟩ => h m p hpriced

/-- Where a highest price and a share are given and not zero, the share decides. -/
theorem resolve_of_priced {m p : Word} (h : Priced maxFee priority m p) :
    resolve gasPrice maxFee priority =
      if m.toNat < p.toNat then .error (.priorityAboveMax p m) else .ok (.capped m p) := by
  obtain ⟨hm, hp⟩ := priced_iff.mp h
  simp [resolve, hm, hp]

/-- Where one of them is not, the one price does. -/
theorem resolve_of_not_priced (h : ∀ m p, ¬Priced maxFee priority m p) :
    resolve gasPrice maxFee priority = gasPrice.elim (.error .missing) fun g => .ok (.legacy g) := by
  unfold resolve
  split
  · rename_i m p hm hp
    exact absurd (priced_iff.mpr ⟨hm, hp⟩) (h m p)
  · rfl
  · rfl

/-- Prices are resolved to the fee that they mean. -/
theorem resolve_eq_ok_iff : resolve gasPrice maxFee priority = .ok fee ↔ Means gasPrice maxFee priority fee := by
  by_cases hpriced : ∃ m p, Priced maxFee priority m p
  · obtain ⟨m, p, hpriced⟩ := hpriced
    rw [resolve_of_priced hpriced]
    constructor
    · intro h
      split at h
      · cases h
      · rename_i hle
        cases h
        exact .capped hpriced (Nat.not_lt.mp hle)
    · intro h
      cases h with
      | capped h hle =>
        obtain rfl := Option.some.inj (h.maxFee.symm.trans hpriced.maxFee)
        obtain rfl := Option.some.inj (h.priority.symm.trans hpriced.priority)
        rw [if_neg (Nat.not_lt.mpr hle)]
      | legacy hgasPrice h => exact absurd hpriced (h m p)
  · have hnone : ∀ m p, ¬Priced maxFee priority m p := fun m p h => hpriced ⟨m, p, h⟩
    rw [resolve_of_not_priced hnone]
    constructor
    · intro h
      cases hg : gasPrice with
      | none => simp [hg] at h
      | some g =>
        simp [hg] at h
        rw [← h]
        exact .legacy rfl hnone
    · intro h
      cases h with
      | capped h hle => exact absurd h (hnone _ _)
      | legacy hgasPrice h => simp [hgasPrice]

end OfflineSigner.Evm.Fee
