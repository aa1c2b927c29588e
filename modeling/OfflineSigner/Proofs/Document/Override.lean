import OfflineSigner.Proofs.Bitcoin.Accept
import OfflineSigner.Proofs.Document.Config
import OfflineSigner.Proofs.Document.Spelling
import OfflineSigner.Proofs.Json.Written

/-!
# Configurations that name some of their fields

A document overrides exactly the fields that it names. Main statement: a text that writes some fields of a configuration is read
as that configuration on those fields and the usual one elsewhere, so a configuration that is written whole is read back; and
under a configuration that is read no transaction fails for its configuration (`readConfig_overrides`).
-/

namespace OfflineSigner

/-- The fields of a configuration. -/
inductive ConfigField where
  | txVersion
  | enableRbf
  | lockTime
  | maxFeeRate
  | requireFromMatch
  deriving DecidableEq

/-- A configuration on some of its fields, and the usual one elsewhere. -/
def Config.on (c : Config) (named : Finset ConfigField) : Config :=
  let usual : Config := {}
  { bitcoin := {
      txVersion := if .txVersion ∈ named then c.bitcoin.txVersion else usual.bitcoin.txVersion
      enableRbf := if .enableRbf ∈ named then c.bitcoin.enableRbf else usual.bitcoin.enableRbf
      lockTime := if .lockTime ∈ named then c.bitcoin.lockTime else usual.bitcoin.lockTime
      maxFeeRate := if .maxFeeRate ∈ named then c.bitcoin.maxFeeRate else usual.bitcoin.maxFeeRate }
    evm := {
      requireFromMatch := if .requireFromMatch ∈ named then c.evm.requireFromMatch else usual.evm.requireFromMatch } }

theorem Config.on_of_forall_mem (c : Config) {named : Finset ConfigField} (h : ∀ field, field ∈ named) : c.on named = c := by
  simp only [on, h, if_true]

/-- The usual values are valid, so a valid configuration stays valid on any of its fields. -/
theorem Config.Valid.on {c : Config} (h : c.Valid) (named : Finset ConfigField) : (c.on named).Valid := by
  obtain ⟨hversion, hlimit⟩ := h
  unfold Config.Valid Config.on
  constructor
  · dsimp only
    split
    · exact hversion
    · exact .inr rfl
  · dsimp only
    split
    · exact hlimit
    · decide

namespace Document

open Json

/-! ## Writing some fields -/

section Writing

variable {α : Type} (named : Finset ConfigField)

/-- The value of a field that is named. -/
def among (field : ConfigField) (a : α) : Option α := if field ∈ named then some a else none

theorem getD_among (field : ConfigField) (a usual : α) :
    (among named field a).getD usual = if field ∈ named then a else usual := by
  unfold among
  split <;> rfl

/-- Whether the members of an object write the fields of the section for Bitcoin that are named, once each, and no other: they
may stand in any order and with any other keys. -/
def WritesBitcoinConfig (c : BitcoinConfig) (members : List (Option String × Tree)) : Prop :=
  (∀ member ∈ members, member.1 ≠ none) ∧
  SaysMember ["tx_version"] SaysVersion members (among named .txVersion c.txVersion) ∧
  SaysMember ["enable_rbf"] SaysBool members (among named .enableRbf c.enableRbf) ∧
  SaysMember ["lock_time"] SaysLockTime members (among named .lockTime c.lockTime) ∧
  SaysMember ["max_fee_rate_sat_vb"] SaysFeeLimit members (among named .maxFeeRate c.maxFeeRate)

/-- Whether the members of an object write the field of the section for EVM chains if it is named, in the same way. -/
def WritesEvmConfig (c : EvmConfig) (members : List (Option String × Tree)) : Prop :=
  (∀ member ∈ members, member.1 ≠ none) ∧
  SaysMember ["require_from_match"] SaysBool members (among named .requireFromMatch c.requireFromMatch)

/-- Whether a section is written by the members of the object under its name. A section that is missing has no members. -/
def WritesSection (name : String) (Writes : List (Option String × Tree) → Prop) (members : List (Option String × Tree)) : Prop :=
  under [name] members = [] ∧ Writes [] ∨ ∃ inner, under [name] members = [.object inner] ∧ Writes inner

/-- Whether an object writes the fields of a configuration that are named, and no other. -/
def WritesConfig (c : Config) (t : Tree) : Prop :=
  ∃ members, t = .object members ∧ (∀ member ∈ members, member.1 ≠ none) ∧
    WritesSection "bitcoin" (WritesBitcoinConfig named c.bitcoin) members ∧
    WritesSection "evm" (WritesEvmConfig named c.evm) members

end Writing

/-! ## Reading what is written -/

section Reading

variable {named : Finset ConfigField} {members : List (Option String × Tree)}

theorem WritesBitcoinConfig.toFilled {c : Config} (h : WritesBitcoinConfig named c.bitcoin members) :
    SaysBitcoinConfigMembers members (c.on named).bitcoin := by
  obtain ⟨hkeys, hversion, hrbf, hlock, hlimit⟩ := h
  refine ⟨⟨among named .txVersion c.bitcoin.txVersion, among named .enableRbf c.bitcoin.enableRbf,
    among named .lockTime c.bitcoin.lockTime, among named .maxFeeRate c.bitcoin.maxFeeRate⟩, ⟨hkeys, ?_⟩, ?_⟩
  · simpa [bitcoinConfigSlots] using ⟨hversion, hrbf, hlock, hlimit⟩
  · simp only [BitcoinConfigFields.finish, getD_among, Config.on]

theorem WritesEvmConfig.toFilled {c : Config} (h : WritesEvmConfig named c.evm members) :
    SaysEvmConfigMembers members (c.on named).evm := by
  obtain ⟨hkeys, hmatch⟩ := h
  refine ⟨among named .requireFromMatch c.evm.requireFromMatch, ⟨hkeys, ?_⟩, ?_⟩
  · simpa [evmConfigSlots] using hmatch
  · simp only [evmConfigOf, getD_among, Config.on]

/-- A section that is missing says what an empty object does. -/
theorem WritesSection.exists_saysMember {σ β : Type} {field : σ → String → Option (Reader σ)} {empty : σ} {slots : List (Slot σ)}
    (hreading : Json.Reading field empty slots) {finish : σ → β} {OfArray : List Tree → β → Prop} {name : String}
    {Writes : List (Option String × Tree) → Prop} {b : β} (h : WritesSection name Writes members)
    (hfilled : ∀ {inner}, Writes inner → SaysFilled slots finish inner b) :
    ∃ o, SaysMember [name] (SaysRecord OfArray (SaysFilled slots finish)) members o ∧ b = o.getD (finish empty) := by
  obtain ⟨hnone, hwrites⟩ | ⟨inner, hinner, hwrites⟩ := h
  · refine ⟨none, .inl ⟨hnone, rfl⟩, ?_⟩
    exact hreading.saysFilled_nil_iff.mp (hfilled hwrites)
  · exact ⟨some b, saysMember_some.mpr ⟨_, hinner, .inr ⟨inner, rfl, hfilled hwrites⟩⟩, rfl⟩

/-- What an object writes it says. -/
theorem WritesConfig.toRecord {c : Config} {t : Tree} (h : WritesConfig named c t) : SaysConfig t (c.on named) := by
  obtain ⟨members, rfl, hkeys, hbitcoin, hevm⟩ := h
  obtain ⟨bitcoin, hbitcoin, hb⟩ := hbitcoin.exists_saysMember reading_bitcoinConfig WritesBitcoinConfig.toFilled
  obtain ⟨evm, hevm, he⟩ := hevm.exists_saysMember reading_evmConfig WritesEvmConfig.toFilled
  refine .inr ⟨members, rfl, ⟨bitcoin, evm⟩, ⟨hkeys, ?_⟩, Config.mk.injEq .. |>.mpr ⟨hb, he⟩⟩
  simpa [configSlots] using ⟨hbitcoin, hevm⟩

end Reading

/-! ## Configurations that are written -/

theorem saysFeeLimit_ofConfig (limit : Option UInt64) :
    SaysFeeLimit (match limit with
      | some rate => Value.number rate.toNat
      | none => .null).tree limit := by
  cases limit with
  | none => exact .inl ⟨rfl, rfl⟩
  | some rate => exact .inr ⟨nofun, rate, saysNatural_ofInt rate.toNat, rfl⟩

/-- A configuration that is written writes all of its fields. -/
theorem writesConfig_tree (c : Config) {named : Finset ConfigField} (hall : ∀ field, field ∈ named) :
    WritesConfig named c (ofConfig c).tree := by
  have hamong : ∀ {α : Type} (field : ConfigField) (a : α), among named field a = some a := fun field _ => if_pos (hall field)
  refine ⟨_, rfl, by simp [Value.memberTrees], .inr ⟨_, rfl, by simp [Value.memberTrees], ?_, ?_, ?_, ?_⟩,
    .inr ⟨_, rfl, by simp [Value.memberTrees], ?_⟩⟩ <;> rw [hamong, saysMember_some]
  · exact ⟨_, rfl, saysInteger_ofInt c.bitcoin.txVersion.toInt⟩
  · exact ⟨_, rfl, rfl⟩
  · exact ⟨_, rfl, saysNatural_ofInt c.bitcoin.lockTime.toNat⟩
  · exact ⟨_, rfl, saysFeeLimit_ofConfig c.bitcoin.maxFeeRate⟩
  · exact ⟨_, rfl, rfl⟩

/-- A text is read as a configuration that is valid. -/
theorem readConfig_eq_ok_iff {text : String} {c : Config} : readConfig text = .ok c ↔ Json.read config text = .ok c ∧ c.Valid := by
  unfold readConfig
  simp only [bind_eq_ok_iff, mapError_eq_ok_iff]
  constructor
  · rintro ⟨c', hread, ⟨⟩, hcheck, hc⟩
    cases hc
    exact ⟨hread, c.check_eq_ok_iff.mp hcheck⟩
  · rintro ⟨hread, hvalid⟩
    exact ⟨c, hread, (), c.check_eq_ok_iff.mpr hvalid, rfl⟩

/-- A configuration that is written, in either form, is read back. -/
theorem readConfig_text (form : Form) {c : Config} (h : c.Valid) : readConfig (form.text (ofConfig c)) = .ok c := by
  have hall : ∀ field : ConfigField, field ∈ ({.txVersion, .enableRbf, .lockTime, .maxFeeRate, .requireFromMatch} : Finset _) := by
    rintro (_ | _ | _ | _ | _) <;> decide
  have hrecord := (writesConfig_tree c hall).toRecord
  rw [c.on_of_forall_mem hall] at hrecord
  exact readConfig_eq_ok_iff.mpr ⟨(read_text_eq_ok_iff reads_config form _ c).mpr hrecord, h⟩

/-- A text that writes some fields of a valid configuration, in whatever order, is read as the configuration on those fields and
the usual one elsewhere; where it writes all of them, as the configuration, so one that is written is read back. And a
configuration that is read is valid, so no transaction fails to be built for its configuration. -/
theorem readConfig_overrides :
    (∀ c : Config, c.Valid → ∀ (named : Finset ConfigField) (text : Placed Layout), WritesConfig named c text.value.tree →
      readConfig text.text = .ok (c.on named) ∧ ((∀ field, field ∈ named) → readConfig text.text = .ok c)) ∧
    (∀ c : Config, c.Valid → readConfig (ofConfig c).compact = .ok c ∧ readConfig (ofConfig c).pretty = .ok c) ∧
    ∀ text c, readConfig text = .ok c → c.Valid ∧ ∀ coins outputs network e,
      Bitcoin.Unsigned.build coins outputs network c = .error e → e.report.code ≠ .configError := by
  refine ⟨fun c hc named text htext => ?_, fun c hc => ⟨readConfig_text .compact hc, readConfig_text .pretty hc⟩,
    fun text c hc => ?_⟩
  · have hread : readConfig text.text = .ok (c.on named) :=
      readConfig_eq_ok_iff.mpr ⟨(read_eq_ok_iff reads_config text _).mpr htext.toRecord, hc.on named⟩
    exact ⟨hread, fun hall => by rw [hread, c.on_of_forall_mem hall]⟩
  · have hvalid := (readConfig_eq_ok_iff.mp hc).2
    refine ⟨hvalid, fun coins outputs network e he => ?_⟩
    rw [Bitcoin.Unsigned.code_of_build he, if_pos hvalid]
    decide

section Sample

/-- A configuration without a fee limit. -/
def sampleConfig : Config := ⟨⟨1, false, 5, none⟩, ⟨false⟩⟩

/-- The fields that the sample names. -/
def sampleNamed : Finset ConfigField := {.lockTime, .maxFeeRate, .requireFromMatch}

/-- A text that names them, the sections in the other order and between them a member that is not known. -/
def sampleOverride : Placed Layout := ⟨.none, .object .none [
  spacedMember (plainLiteral "evm") (.object .none [spacedMember (plainLiteral "require_from_match") (.bool false)]),
  spacedMember (plainLiteral "note") (.array .none []),
  spacedMember (plainLiteral "bitcoin") (.object .none [
    spacedMember (plainLiteral "max_fee_rate_sat_vb") .null,
    spacedMember (plainLiteral "lock_time") (digitNumber '5' rfl)])], .none⟩

theorem writesConfig_sampleOverride : WritesConfig sampleNamed sampleConfig sampleOverride.value.tree := by
  refine ⟨_, rfl, by decide, .inr ⟨_, rfl, by decide, ?_, ?_, ?_, ?_⟩, .inr ⟨_, rfl, by decide, ?_⟩⟩
  · exact .inl ⟨rfl, rfl⟩
  · exact .inl ⟨rfl, rfl⟩
  · exact .inr ⟨_, _, rfl, ⟨_, rfl, rfl, rfl, rfl, rfl⟩, rfl⟩
  · exact .inr ⟨_, _, rfl, .inl ⟨rfl, rfl⟩, rfl⟩
  · exact .inr ⟨_, _, rfl, rfl, rfl⟩

theorem readConfig_overrides_sample :
    sampleConfig.Valid ∧ WritesConfig sampleNamed sampleConfig sampleOverride.value.tree ∧
    readConfig sampleOverride.text = .ok ⟨⟨2, true, 5, none⟩, ⟨false⟩⟩ ∧
    readConfig (ofConfig sampleConfig).compact = .ok sampleConfig ∧
    ∀ coins outputs network e,
      Bitcoin.Unsigned.build coins outputs network sampleConfig = .error e → e.report.code ≠ .configError := by
  have hvalid : sampleConfig.Valid := by decide
  obtain ⟨hnamed, hwritten, hread⟩ := readConfig_overrides
  have hwhole := (hwritten sampleConfig hvalid).1
  exact ⟨hvalid, writesConfig_sampleOverride, (hnamed _ hvalid _ _ writesConfig_sampleOverride).1, hwhole, (hread _ _ hwhole).2⟩

end Sample

end Document

end OfflineSigner
