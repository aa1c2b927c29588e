import OfflineSigner.Document.Config
import OfflineSigner.Proofs.Json.Record

/-!
# Configurations as documents

What documents say of a configuration and of its sections, as arrays and as objects; what they leave out keeps its usual value.
Main statement: a document is read as a configuration exactly when it says that configuration (`reads_config`).
-/

namespace OfflineSigner.Document

open Json

/-! ## The section for Bitcoin -/

/-- Whether a value is a version of transactions. -/
def SaysVersion (t : Tree) (v : Int32) : Prop := SaysInteger t v.toInt

/-- Whether a value is a lock time. -/
def SaysLockTime (t : Tree) (v : UInt32) : Prop := SaysNatural t v.toNat

/-- Whether a value is a fee limit: null for none. -/
def SaysFeeLimit : Tree → Option UInt64 → Prop := SaysOptional fun t v => SaysNatural t v.toNat

/-- The slots of the section for Bitcoin. -/
def bitcoinConfigSlots : List (Slot BitcoinConfigFields) := [
  ⟨["tx_version"], SaysVersion, int32, reads_int32, (·.txVersion), fun v st => { st with txVersion := some v }⟩,
  ⟨["enable_rbf"], SaysBool, bool, reads_bool, (·.enableRbf), fun v st => { st with enableRbf := some v }⟩,
  ⟨["lock_time"], SaysLockTime, uint32, reads_uint32, (·.lockTime), fun v st => { st with lockTime := some v }⟩,
  ⟨["max_fee_rate_sat_vb"], SaysFeeLimit, optional uint64, reads_uint64.optional, (·.maxFeeRate),
    fun v st => { st with maxFeeRate := some v }⟩]

theorem reading_bitcoinConfig : Reading bitcoinConfigField {} bitcoinConfigSlots where
  known := by
    simp only [bitcoinConfigSlots, List.forall_mem_cons, List.not_mem_nil, false_implies, implies_true, and_true]
    and_intros <;> exact fun st => ⟨_, rfl⟩
  unknown := by
    intro st key hkey
    simp only [bitcoinConfigSlots, List.forall_mem_cons] at hkey
    unfold bitcoinConfigField
    split <;> simp_all
  get_empty := by simp [bitcoinConfigSlots]
  get_set := by simp [bitcoinConfigSlots]
  apart := by
    simp only [bitcoinConfigSlots, List.pairwise_cons, List.forall_mem_cons, List.not_mem_nil, false_implies, implies_true,
      and_true, List.Pairwise.nil]
    and_intros <;> constructor <;> simp
  ext := by
    rintro ⟨⟩ ⟨⟩ h
    simp_all [bitcoinConfigSlots]

/-- What the elements of an array say of the section for Bitcoin. -/
def SaysBitcoinConfigElements : List Tree → BitcoinConfig → Prop :=
  NextMaySay SaysVersion fun txVersion => NextMaySay SaysBool fun enableRbf => NextMaySay SaysLockTime fun lockTime =>
    NextMaySay SaysFeeLimit fun maxFeeRate =>
      EndSays (BitcoinConfigFields.finish { txVersion, enableRbf, lockTime, maxFeeRate })

/-- What the members of an object say of the section for Bitcoin. -/
def SaysBitcoinConfigMembers : List (Option String × Tree) → BitcoinConfig → Prop :=
  SaysFilled bitcoinConfigSlots BitcoinConfigFields.finish

theorem reads_bitcoinConfig : Reads bitcoinConfig (SaysRecord SaysBitcoinConfigElements SaysBitcoinConfigMembers) := by
  refine reads_record _ ?_ (reading_bitcoinConfig.filled_eq_ok_iff _)
  simp only [bind_assoc, pure_bind]
  exact .elementAt? reads_int32 0 fun txVersion => .elementAt? reads_bool 1 fun enableRbf =>
    .elementAt? reads_uint32 2 fun lockTime => .elementAt? reads_uint64.optional 3 fun maxFeeRate => readsElements_end _

/-! ## The section for EVM chains -/

/-- The slots of the section for EVM chains. -/
def evmConfigSlots : List (Slot (Option Bool)) := [⟨["require_from_match"], SaysBool, bool, reads_bool, id, fun v _ => some v⟩]

theorem reading_evmConfig : Reading evmConfigField none evmConfigSlots where
  known := by
    simp only [evmConfigSlots, List.forall_mem_cons, List.not_mem_nil, false_implies, implies_true, and_true]
    exact fun st => ⟨_, rfl⟩
  unknown := by
    intro st key hkey
    simp only [evmConfigSlots, List.forall_mem_cons] at hkey
    unfold evmConfigField
    split <;> simp_all
  get_empty := by simp [evmConfigSlots]
  get_set := by simp [evmConfigSlots]
  apart := List.pairwise_singleton _ _
  ext := by simp [evmConfigSlots]

/-- What the elements of an array say of the section for EVM chains. -/
def SaysEvmConfigElements : List Tree → EvmConfig → Prop :=
  NextMaySay SaysBool fun requireFromMatch => EndSays (evmConfigOf requireFromMatch)

/-- What the members of an object say of the section for EVM chains. -/
def SaysEvmConfigMembers : List (Option String × Tree) → EvmConfig → Prop := SaysFilled evmConfigSlots evmConfigOf

theorem reads_evmConfig : Reads evmConfig (SaysRecord SaysEvmConfigElements SaysEvmConfigMembers) := by
  refine reads_record _ ?_ (reading_evmConfig.filled_eq_ok_iff _)
  simp only [bind_assoc, pure_bind]
  exact .elementAt? reads_bool 0 fun requireFromMatch => readsElements_end _

/-! ## Configurations -/

/-- What a value says of the section for Bitcoin, and of the section for EVM chains. -/
def SaysBitcoinConfig : Tree → BitcoinConfig → Prop := SaysRecord SaysBitcoinConfigElements SaysBitcoinConfigMembers
def SaysEvmConfig : Tree → EvmConfig → Prop := SaysRecord SaysEvmConfigElements SaysEvmConfigMembers

/-- The slots of a configuration, which are its sections. -/
def configSlots : List (Slot ConfigFields) := [
  ⟨["bitcoin"], SaysBitcoinConfig, bitcoinConfig, reads_bitcoinConfig, (·.bitcoin), fun v st => { st with bitcoin := some v }⟩,
  ⟨["evm"], SaysEvmConfig, evmConfig, reads_evmConfig, (·.evm), fun v st => { st with evm := some v }⟩]

theorem reading_config : Reading configField {} configSlots where
  known := by
    simp only [configSlots, List.forall_mem_cons, List.not_mem_nil, false_implies, implies_true, and_true]
    and_intros <;> exact fun st => ⟨_, rfl⟩
  unknown := by
    intro st key hkey
    simp only [configSlots, List.forall_mem_cons] at hkey
    unfold configField
    split <;> simp_all
  get_empty := by simp [configSlots]
  get_set := by simp [configSlots]
  apart := by
    simp only [configSlots, List.pairwise_cons, List.forall_mem_cons, List.not_mem_nil, false_implies, implies_true, and_true,
      List.Pairwise.nil]
    constructor <;> simp
  ext := by
    rintro ⟨⟩ ⟨⟩ h
    simp_all [configSlots]

/-- What the elements of an array say of a configuration. -/
def SaysConfigElements : List Tree → Config → Prop :=
  NextMaySay SaysBitcoinConfig fun bitcoin => NextMaySay SaysEvmConfig fun evm => EndSays (ConfigFields.finish { bitcoin, evm })

/-- What the members of an object say of a configuration. -/
def SaysConfigMembers : List (Option String × Tree) → Config → Prop := SaysFilled configSlots ConfigFields.finish

/-- What a value says of a configuration. -/
def SaysConfig : Tree → Config → Prop := SaysRecord SaysConfigElements SaysConfigMembers

theorem reads_config : Reads config SaysConfig := by
  refine reads_record _ ?_ (reading_config.filled_eq_ok_iff _)
  simp only [bind_assoc, pure_bind]
  exact .elementAt? reads_bitcoinConfig 0 fun bitcoin => .elementAt? reads_evmConfig 1 fun evm => readsElements_end _

end OfflineSigner.Document
