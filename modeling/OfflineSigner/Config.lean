import OfflineSigner.Failure

/-!
# Configuration

The choices a user makes once for all requests. A configuration is `Valid` when transactions can be built under it.
-/

namespace OfflineSigner

/-- Choices for Bitcoin transactions. -/
structure BitcoinConfig where
  /-- The version of transactions; one or two can be built. -/
  txVersion : Int32 := 2
  /-- Whether transactions can be replaced by ones with a higher fee. -/
  enableRbf : Bool := true
  /-- The height or time before which transactions do not count. -/
  lockTime : UInt32 := 0
  /-- The highest fee a virtual byte, in satoshis; none for no limit. -/
  maxFeeRate : Option UInt64 := some 1000
  deriving DecidableEq

/-- Choices for EVM transactions. -/
structure EvmConfig where
  /-- Whether the signing key has to control the sender. -/
  requireFromMatch : Bool := true
  deriving DecidableEq

/-- All choices. -/
structure Config where
  bitcoin : BitcoinConfig := {}
  evm : EvmConfig := {}
  deriving DecidableEq

/-- Why nothing can be built under a configuration. -/
inductive ConfigFault where
  | version (v : Int32)
  | zeroFeeRate
  deriving DecidableEq

/-- The wording of a fault. -/
def ConfigFault.message : ConfigFault → String
  | .version v => s!"Unsupported transaction version {v}"
  | .zeroFeeRate => "max_fee_rate_sat_vb must be positive when set"

/-- A fault of the configuration as it is reported. -/
def ConfigFault.report (e : ConfigFault) : Failure := ⟨.configError, e.message, none⟩

/-- The sequence number of every input: the highest one that allows replacement, or the final one. -/
def BitcoinConfig.sequence (c : BitcoinConfig) : UInt32 := if c.enableRbf then 0xfffffffd else 0xffffffff

namespace Config

/-- Whether transactions can be built under the configuration. -/
def Valid (c : Config) : Prop :=
  (c.bitcoin.txVersion = 1 ∨ c.bitcoin.txVersion = 2) ∧ c.bitcoin.maxFeeRate ≠ some 0

instance (c : Config) : Decidable c.Valid := inferInstanceAs (Decidable (_ ∧ _))

/-- Refuses a configuration under which nothing can be built; the version is looked at first. -/
def check (c : Config) : Except ConfigFault Unit :=
  if c.bitcoin.txVersion ≠ 1 ∧ c.bitcoin.txVersion ≠ 2 then .error (.version c.bitcoin.txVersion)
  else if c.bitcoin.maxFeeRate = some 0 then .error .zeroFeeRate
  else .ok ()

theorem check_eq_ok_iff (c : Config) : c.check = .ok () ↔ c.Valid := by
  unfold check Valid
  split
  · rename_i h
    simp [h.1, h.2]
  · rename_i h
    split
    · rename_i h'
      simp [h']
    · rename_i h'
      simp only [true_iff]
      refine ⟨?_, h'⟩
      by_cases h₁ : c.bitcoin.txVersion = 1
      · exact Or.inl h₁
      · exact Or.inr (Decidable.byContradiction fun h₂ => h ⟨h₁, h₂⟩)

end Config

end OfflineSigner
