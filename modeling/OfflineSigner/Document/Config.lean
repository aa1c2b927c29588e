import OfflineSigner.Config
import OfflineSigner.Document.Failure

/-!
# Configurations as documents

A configuration has a section for each family of chains. What a document leaves out keeps its usual value, in each section
and in the whole; a fee limit of null is no limit.
-/

namespace OfflineSigner.Document

open Json

/-- A configuration as a value. -/
def ofConfig (c : Config) : Value :=
  .object [
    ("bitcoin", .object [
      ("tx_version", .number c.bitcoin.txVersion.toInt),
      ("enable_rbf", .bool c.bitcoin.enableRbf),
      ("lock_time", .number c.bitcoin.lockTime.toNat),
      ("max_fee_rate_sat_vb", match c.bitcoin.maxFeeRate with
        | some rate => .number rate.toNat
        | none => .null)]),
    ("evm", .object [("require_from_match", .bool c.evm.requireFromMatch)])]

/-- What is read of the section for Bitcoin. -/
structure BitcoinConfigFields where
  txVersion : Option Int32 := none
  enableRbf : Option Bool := none
  lockTime : Option UInt32 := none
  maxFeeRate : Option (Option UInt64) := none

/-- The section for Bitcoin, with the usual values for what is left out. -/
def BitcoinConfigFields.finish (st : BitcoinConfigFields) : BitcoinConfig :=
  let usual : BitcoinConfig := {}
  { txVersion := st.txVersion.getD usual.txVersion
    enableRbf := st.enableRbf.getD usual.enableRbf
    lockTime := st.lockTime.getD usual.lockTime
    maxFeeRate := st.maxFeeRate.getD usual.maxFeeRate }

/-- The reader of a member of the section for Bitcoin. -/
def bitcoinConfigField (st : BitcoinConfigFields) (key : String) : Option (Reader BitcoinConfigFields) :=
  match key with
  | "tx_version" => once st.txVersion key int32 fun v => { st with txVersion := some v }
  | "enable_rbf" => once st.enableRbf key bool fun v => { st with enableRbf := some v }
  | "lock_time" => once st.lockTime key uint32 fun v => { st with lockTime := some v }
  | "max_fee_rate_sat_vb" => once st.maxFeeRate key (optional uint64) fun v => { st with maxFeeRate := some v }
  | _ => none

/-- The section for Bitcoin. -/
def bitcoinConfig : Reader BitcoinConfig :=
  record "BitcoinConfig"
    (do
      let txVersion ← elementAt? 0 int32
      let enableRbf ← elementAt? 1 bool
      let lockTime ← elementAt? 2 uint32
      let maxFeeRate ← elementAt? 3 (optional uint64)
      return BitcoinConfigFields.finish { txVersion, enableRbf, lockTime, maxFeeRate })
    (do return (← fields bitcoinConfigField {}).finish)

/-- The reader of a member of the section for EVM chains. -/
def evmConfigField (st : Option Bool) (key : String) : Option (Reader (Option Bool)) :=
  match key with
  | "require_from_match" => once st key bool some
  | _ => none

/-- The section for EVM chains from what is read of it. -/
def evmConfigOf (requireFromMatch : Option Bool) : EvmConfig :=
  { requireFromMatch := requireFromMatch.getD ({} : EvmConfig).requireFromMatch }

/-- The section for EVM chains. -/
def evmConfig : Reader EvmConfig :=
  record "EvmConfig" (do return evmConfigOf (← elementAt? 0 bool)) (do return evmConfigOf (← fields evmConfigField none))

/-- What is read of a configuration. -/
structure ConfigFields where
  bitcoin : Option BitcoinConfig := none
  evm : Option EvmConfig := none

/-- The configuration, with the usual sections for what is left out. -/
def ConfigFields.finish (st : ConfigFields) : Config := { bitcoin := st.bitcoin.getD {}, evm := st.evm.getD {} }

/-- The reader of a section. -/
def configField (st : ConfigFields) (key : String) : Option (Reader ConfigFields) :=
  match key with
  | "bitcoin" => once st.bitcoin key bitcoinConfig fun v => { st with bitcoin := some v }
  | "evm" => once st.evm key evmConfig fun v => { st with evm := some v }
  | _ => none

/-- A configuration, whether anything can be built under it or not. -/
def config : Reader Config :=
  record "SignerConfig"
    (do
      let bitcoin ← elementAt? 0 bitcoinConfig
      let evm ← elementAt? 1 evmConfig
      return ConfigFields.finish { bitcoin, evm })
    (do return (← fields configField {}).finish)

/-- The configuration that a text holds, under which transactions can be built. -/
def readConfig (text : String) : Except Failure Config := do
  let c ← (read config text).mapError fun e => ⟨.configError, s!"Invalid config JSON: {e.message}", none⟩
  c.check.mapError ConfigFault.report
  return c

end OfflineSigner.Document
