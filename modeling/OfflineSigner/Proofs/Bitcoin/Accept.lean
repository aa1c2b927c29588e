import OfflineSigner.Proofs.Bitcoin.Fee
import OfflineSigner.Proofs.Bitcoin.Script
import OfflineSigner.Proofs.Hex

/-!
# Which transactions are built

What is asked of a coin, of an output and of a whole transaction, without reference to how it is checked
(`CoinRequest.Acceptable`, `OutputRequest.Acceptable`, `Acceptable`); sums, products and sizes are exact numbers. Each check
succeeds exactly for what is acceptable, and then gives what was asked for (`CoinRequest.exists_check_iff`,
`OutputRequest.check_eq_ok_iff`). Main statement: a transaction is built exactly when it is acceptable, its fee is the difference
of the sums, and a refusal is the fault of the configuration or else of the transaction (`build_exact`).
-/

namespace OfflineSigner.Bitcoin

open Curve

/-! ## Names of transactions -/

namespace TransactionId

/-- A name is read from its bytes in reverse, in hexadecimal of either case, with blanks around it allowed. -/
theorem parse_eq_ok_iff {s : String} {id : TransactionId} :
    parse s = .ok id ↔ (Text.trimChars s.toList).map Char.toLower = Hex.encodeChars id.toList.reverse := by
  unfold parse
  dsimp only
  constructor
  · intro h
    split at h
    · cases h
    · split at h
      · rename_i id' hread
        cases h
        obtain ⟨bs, hbs, hid⟩ := Option.bind_eq_some_iff.mp hread
        rw [FixedBytes.ofList?_eq_some_iff.mp hid, List.reverse_reverse]
        exact Hex.decodeUtf8_eq_ok_iff.mp (toOption_eq_some_iff.mp hbs)
      · cases h
  · intro h
    have hlength : (Text.utf8Chars (Text.trimChars s.toList)).length = 64 := by
      rw [Text.utf8Chars_of_ascii (Hex.ascii_of_toLower h), List.length_map, ← List.length_map, h, Hex.length_encodeChars,
        List.length_reverse, id.length_toList]
    rw [if_neg (not_not_intro hlength), toOption_eq_some_iff.mpr (Hex.decodeUtf8_eq_ok_iff.mpr h), Option.bind_some,
      List.reverse_reverse, FixedBytes.ofList?_toList]

/-- A text names a transaction exactly when it has 64 hexadecimal digits, without the blanks around them. -/
theorem exists_parse_iff {s : String} :
    (∃ id, parse s = .ok id) ↔
      (Text.trimChars s.toList).length = 64 ∧ ∀ c ∈ Text.trimChars s.toList, Text.isHexDigit c = true := by
  simp only [parse_eq_ok_iff]
  constructor
  · rintro ⟨id, h⟩
    refine ⟨?_, (Hex.exists_encodeChars_iff.mp ⟨_, h⟩).2⟩
    rw [← List.length_map, h, Hex.length_encodeChars, List.length_reverse, id.length_toList]
  · rintro ⟨hlength, hdigits⟩
    obtain ⟨bs, hbs⟩ := Hex.exists_encodeChars_iff.mpr ⟨by rw [hlength], hdigits⟩
    have hbytes : bs.reverse.length = 32 := by
      have := congrArg List.length hbs
      rw [List.length_map, hlength, Hex.length_encodeChars] at this
      rw [List.length_reverse]
      omega
    exact ⟨⟨bs.reverse, hbytes⟩, by rw [hbs, List.reverse_reverse]⟩

end TransactionId

/-! ## Coins -/

/-- The scripts with a Taproot key have 34 bytes and start with version one and the push. -/
theorem Script.isSome_taprootKey?_iff {script : Bytes} :
    (taprootKey? script).isSome ↔ script.length = 34 ∧ script.take 2 = [0x51, 0x20] := by
  constructor
  · intro h
    unfold taprootKey? at h
    split at h
    · rename_i key
      unfold FixedBytes.ofList? at h
      split at h
      · rename_i hlength
        exact ⟨by rw [List.length_cons, List.length_cons, hlength], rfl⟩
      · cases h
    · cases h
  · rintro ⟨hlength, htake⟩
    have hscript := List.take_append_drop 2 script
    have hkey : (script.drop 2).length = 32 := by rw [List.length_drop, hlength]
    rw [htake] at hscript
    rw [← hscript]
    change (FixedBytes.ofList? 32 (script.drop 2)).isSome
    rw [FixedBytes.ofList?, dif_pos hkey]
    rfl

/-- What is asked of a coin: a name of 64 hexadecimal digits, the first coordinate of a point of the curve with or without a mark
of the parity, a script of version one with 32 bytes, and a value within all coins that there can be. -/
structure CoinRequest.Acceptable (request : CoinRequest) : Prop where
  length_transaction : (Text.trimChars request.transaction.toList).length = 64
  digits_transaction : ∀ c ∈ Text.trimChars request.transaction.toList, Text.isHexDigit c = true
  signerKey : ∃ x y : FieldElement, (Point.affine x y).OnCurve ∧
    (request.signerKey = x.toBytes.toList ∨ request.signerKey = 0x02 :: x.toBytes.toList ∨
      request.signerKey = 0x03 :: x.toBytes.toList)
  length_script : request.script.length = 34
  start_script : request.script.take 2 = [0x51, 0x20]
  value_le : request.value.toNat ≤ 21000000 * 10 ^ 8

namespace CoinRequest

/-- A coin is taken exactly when it is acceptable. -/
theorem exists_check_iff (request : CoinRequest) (place : Nat) :
    (∃ coin, request.check place = .ok coin) ↔ request.Acceptable := by
  constructor
  · rintro ⟨coin, h⟩
    have haccepted := of_check h
    obtain ⟨hlength, hdigits⟩ := TransactionId.exists_parse_iff.mp ⟨_, haccepted.transaction⟩
    obtain ⟨hkey, y, hy⟩ := Taproot.parseInternalKey_eq_ok_iff.mp haccepted.internalKey
    obtain ⟨hscript, hstart⟩ := Script.isSome_taprootKey?_iff.mp haccepted.taproot
    exact ⟨hlength, hdigits, ⟨_, y, hy, hkey⟩, hscript, hstart, haccepted.value_le⟩
  · intro h
    obtain ⟨id, hid⟩ := TransactionId.exists_parse_iff.mpr ⟨h.length_transaction, h.digits_transaction⟩
    obtain ⟨x, y, hy, hkey⟩ := h.signerKey
    have hparse : Taproot.parseInternalKey request.signerKey = .ok ⟨x⟩ :=
      Taproot.parseInternalKey_eq_ok_iff.mpr ⟨hkey, y, hy⟩
    have haccepted : request.Accepted ⟨⟨id, request.index⟩, request.output, ⟨x⟩⟩ := {
      transaction := hid
      index := rfl
      output := rfl
      internalKey := hparse
      taproot := Script.isSome_taprootKey?_iff.mpr ⟨h.length_script, h.start_script⟩
      value_le := h.value_le }
    exact ⟨_, check_of_accepted haccepted place⟩

end CoinRequest

/-! ## Outputs -/

namespace Destination

/-- What is asked of a destination: an address of the network, or a script of whole instructions that is not empty. -/
def Acceptable (network : Network) : Destination → Prop
  | .address text => ∃ a, BitcoinAddress.parse text network = .ok a
  | .script bytes => bytes ≠ [] ∧ Script.Whole bytes

/-- Whether a script is the one that a destination stands for on a network. -/
def StandsFor (network : Network) (script : Bytes) : Destination → Prop
  | .address text => ∃ a, BitcoinAddress.parse text network = .ok a ∧ script = a.script
  | .script bytes => script = bytes

/-- The length of the script that a destination stands for on a network. -/
def scriptLength (network : Network) : Destination → Nat
  | .address text =>
    match BitcoinAddress.parse text network with
    | .ok a => a.script.length
    | .error _ => 0
  | .script bytes => bytes.length

theorem check_eq_ok_iff {destination : Destination} {network : Network} {place : Nat} {script : Bytes} :
    destination.check network place = .ok script ↔ destination.Acceptable network ∧ destination.StandsFor network script := by
  cases destination with
  | address text =>
    rw [check, mapError_eq_ok_iff, Acceptable, StandsFor]
    constructor
    · intro h
      cases hparse : BitcoinAddress.parse text network with
      | error e =>
        rw [hparse] at h
        cases h
      | ok a =>
        rw [hparse] at h
        cases h
        exact ⟨⟨a, rfl⟩, a, rfl, rfl⟩
    · rintro ⟨-, a, ha, rfl⟩
      rw [ha]
      rfl
  | script bytes =>
    rw [check, mapError_eq_ok_iff, Script.check_eq_ok_iff]
    exact and_comm

theorem exists_standsFor {destination : Destination} {network : Network} (h : destination.Acceptable network) :
    ∃ script, destination.StandsFor network script := by
  cases destination with
  | address text =>
    obtain ⟨a, ha⟩ := h
    exact ⟨a.script, a, ha, rfl⟩
  | script bytes => exact ⟨bytes, rfl⟩

theorem StandsFor.length_eq {destination : Destination} {network : Network} {script : Bytes}
    (h : destination.StandsFor network script) : script.length = destination.scriptLength network := by
  cases destination with
  | address text =>
    obtain ⟨a, ha, rfl⟩ := h
    rw [scriptLength, ha]
  | script bytes => exact congrArg List.length h

end Destination

/-- What is asked of an output: a destination that can stand, and a value within all coins that there can be. -/
structure OutputRequest.Acceptable (request : OutputRequest) (network : Network) : Prop where
  destination : request.destination.Acceptable network
  value_le : request.value.toNat ≤ 21000000 * 10 ^ 8

namespace OutputRequest

/-- An output is made exactly when it is acceptable, and then it is what was asked for. -/
theorem check_eq_ok_iff {request : OutputRequest} {network : Network} {place : Nat} {output : Output} :
    request.check network place = .ok output ↔
      request.Acceptable network ∧ output.value = request.value ∧ request.destination.StandsFor network output.script := by
  unfold check
  rw [bind_eq_ok_iff]
  simp only [Destination.check_eq_ok_iff]
  constructor
  · rintro ⟨script, ⟨hdestination, hscript⟩, h⟩
    split at h
    · cases h
    · rename_i hvalue
      cases h
      exact ⟨⟨hdestination, Nat.not_lt.mp hvalue⟩, rfl, hscript⟩
  · rintro ⟨⟨hdestination, hvalue⟩, heq, hscript⟩
    have hsupply : ¬supply < request.value.toNat := Nat.not_lt.mpr hvalue
    refine ⟨output.script, ⟨hdestination, hscript⟩, ?_⟩
    rw [if_neg hsupply, ← heq]
    rfl

theorem exists_check_iff (network : Network) (request : OutputRequest) (place : Nat) :
    (∃ output, request.check network place = .ok output) ↔ request.Acceptable network := by
  constructor
  · rintro ⟨output, h⟩
    exact (check_eq_ok_iff.mp h).1
  · intro h
    obtain ⟨script, hscript⟩ := Destination.exists_standsFor h.destination
    exact ⟨⟨request.value, script⟩, check_eq_ok_iff.mpr ⟨h, rfl, hscript⟩⟩

end OutputRequest

/-! ## Transactions -/

/-- What the coins are worth together. -/
def coinsWorth (coins : List CoinRequest) : Nat := (coins.map fun request => request.value.toNat).sum

/-- What the outputs are worth together. -/
def outputsWorth (outputs : List OutputRequest) : Nat := (outputs.map fun request => request.value.toNat).sum

/-- The number of bytes of a number in as few bytes as its size class takes. -/
def compactWidth (n : Nat) : Nat := if n < 0xfd then 1 else if n < 0x10000 then 3 else if n < 0x100000000 then 5 else 9

/-- The size of an output: its value, and its script with the length in front. -/
def OutputRequest.size (network : Network) (request : OutputRequest) : Nat :=
  8 + compactWidth (request.destination.scriptLength network) + request.destination.scriptLength network

/-- The size that a transaction will have without witnesses: the version and the lock time, 41 bytes for each coin, and the
outputs, with the counts in front. -/
def strippedSize (coins : List CoinRequest) (outputs : List OutputRequest) (network : Network) : Nat :=
  8 + (compactWidth coins.length + 41 * coins.length) +
    (compactWidth outputs.length + (outputs.map (OutputRequest.size network)).sum)

/-- The virtual size that a transaction will have when each input has a witness of one signature. -/
def sizeSigned (coins : List CoinRequest) (outputs : List OutputRequest) (network : Network) : Nat :=
  (4 * strippedSize coins outputs network + 2 + 66 * coins.length + 3) / 4

/-- What is asked of a transaction. -/
structure Acceptable (coins : List CoinRequest) (outputs : List OutputRequest) (network : Network) (config : Config) : Prop where
  valid : config.Valid
  coins_ne_nil : coins ≠ []
  outputs_ne_nil : outputs ≠ []
  coin : ∀ request ∈ coins, request.Acceptable
  output : ∀ request ∈ outputs, request.Acceptable network
  coinsWorth_lt : coinsWorth coins < 2 ^ 64
  outputsWorth_lt : outputsWorth outputs < 2 ^ 64
  outputsWorth_le : outputsWorth outputs ≤ coinsWorth coins
  fee_le : ∀ rate, config.bitcoin.maxFeeRate = some rate →
    coinsWorth coins - outputsWorth outputs ≤ rate.toNat * sizeSigned coins outputs network

theorem length_compactSize (n : Nat) : (compactSize n).length = compactWidth n := by
  have h16 : UInt16.size = 0x10000 := rfl
  have h32 : UInt32.size = 0x100000000 := rfl
  unfold compactSize compactWidth
  rw [h16, h32]
  split
  · rfl
  · split
    · rfl
    · split <;> rfl

namespace Unsigned.Built

variable {coins : List CoinRequest} {outputs : List OutputRequest} {network : Network} {config : Config} {u : Unsigned}

theorem length_outputs (h : Built coins outputs network config u) : u.outputs.length = outputs.length :=
  length_of_checkAll h.checked_outputs

theorem total_spent (h : Built coins outputs network config u) : total u.spent = coinsWorth coins := by
  rw [total_eq_sum, h.spent, List.map_map]
  rfl

theorem total_outputs (h : Built coins outputs network config u) : total u.outputs = outputsWorth outputs := by
  have hvalue : ∀ (request : OutputRequest) place output, request.check network place = .ok output →
      output.value.toNat = request.value.toNat := by
    intro request place output hcheck
    rw [(OutputRequest.check_eq_ok_iff.mp hcheck).2.1]
  rw [total_eq_sum, outputsWorth, map_of_checkAll hvalue h.checked_outputs]

theorem map_bytes_outputs (h : Built coins outputs network config u) :
    (u.outputs.map fun o => o.bytes.length) = outputs.map (OutputRequest.size network) := by
  have hbytes : ∀ (request : OutputRequest) place output, request.check network place = .ok output →
      output.bytes.length = request.size network := by
    intro request place output hcheck
    have hscript := (OutputRequest.check_eq_ok_iff.mp hcheck).2.2.length_eq
    rw [Output.bytes, counted, List.length_append, List.length_append, Bytes.length_ofNatLE, length_compactSize, hscript,
      OutputRequest.size, Nat.add_assoc]
  exact map_of_checkAll hbytes h.checked_outputs

theorem length_inputs_bytes (u : Unsigned) : (u.transaction.inputs.flatMap Input.bytes).length = 41 * u.coins.length := by
  have hinput : ∀ i ∈ u.transaction.inputs, i.bytes.length = 41 := by
    intro i hi
    obtain ⟨coin, -, rfl⟩ := List.mem_map.mp hi
    simp only [Input.bytes, OutPoint.bytes, counted, List.length_append, Bytes.length_ofNatLE, FixedBytes.length_toList,
      length_compactSize]
    rfl
  rw [length_flatMap_of_forall hinput, length_inputs_transaction]

theorem length_stripped (h : Built coins outputs network config u) :
    u.transaction.stripped.length = strippedSize coins outputs network := by
  have hinputs : u.transaction.inputs.length = coins.length := by rw [length_inputs_transaction, h.length_coins]
  have houtputs : (u.transaction.outputs.flatMap Output.bytes).length = (u.outputs.map fun o => o.bytes.length).sum := by
    rw [List.length_flatMap]
    rfl
  have hcount : u.transaction.outputs.length = outputs.length := h.length_outputs
  rw [Transaction.stripped, Transaction.body, Transaction.versionBytes, Transaction.lockTimeBytes]
  simp only [List.length_append, Bytes.length_ofNatLE, length_compactSize]
  rw [length_inputs_bytes, houtputs, h.map_bytes_outputs, hinputs, hcount, h.length_coins, strippedSize]
  omega

/-- The size that the fee is measured by is told by the requests. -/
theorem signedSize (h : Built coins outputs network config u) : u.signedSize = sizeSigned coins outputs network := by
  rw [Unsigned.signedSize, weight_transaction, h.length_stripped, h.length_coins, sizeSigned]

/-- The fee is accepted exactly when the sums fit, the coins are worth at least the outputs, and the difference is at most the
rate for every virtual byte. -/
theorem exists_checkedFee_iff (h : Built coins outputs network config u) {maxRate : Option UInt64} :
    (∃ fee, u.checkedFee maxRate = .ok fee) ↔
      coinsWorth coins < 2 ^ 64 ∧ outputsWorth outputs < 2 ^ 64 ∧ outputsWorth outputs ≤ coinsWorth coins ∧
        ∀ rate, maxRate = some rate →
          coinsWorth coins - outputsWorth outputs ≤ rate.toNat * sizeSigned coins outputs network := by
  simp only [checkedFee_eq_ok_iff, fee_eq_ok_iff, h.total_spent, h.total_outputs, h.signedSize]
  constructor
  · rintro ⟨fee, ⟨hcoins, houtputs, heq⟩, hrate⟩
    refine ⟨hcoins, houtputs, by omega, fun rate hmax => ?_⟩
    rw [heq, Nat.add_sub_cancel]
    exact hrate rate hmax
  · rintro ⟨hcoins, houtputs, hle, hrate⟩
    exact ⟨coinsWorth coins - outputsWorth outputs, ⟨hcoins, houtputs, (Nat.sub_add_cancel hle).symm⟩, hrate⟩

end Unsigned.Built

namespace Unsigned

variable {coins : List CoinRequest} {outputs : List OutputRequest} {network : Network} {config : Config}

/-- A transaction is made of requests exactly when there are some of both kinds and all are acceptable. -/
theorem exists_built_iff :
    (∃ u, Built coins outputs network config u) ↔
      coins ≠ [] ∧ outputs ≠ [] ∧ (∀ request ∈ coins, request.Acceptable) ∧
        ∀ request ∈ outputs, request.Acceptable network := by
  rw [← exists_checkAll_iff CoinRequest.exists_check_iff 0, ← exists_checkAll_iff (OutputRequest.exists_check_iff network) 0]
  constructor
  · rintro ⟨u, h⟩
    exact ⟨h.coins_ne_nil, h.outputs_ne_nil, ⟨_, h.checked_coins⟩, ⟨_, h.checked_outputs⟩⟩
  · rintro ⟨hcoins, houtputs, ⟨coins', hcoins'⟩, ⟨outputs', houtputs'⟩⟩
    exact ⟨⟨config.bitcoin.txVersion, config.bitcoin.lockTime, config.bitcoin.sequence, coins', outputs', network⟩,
      rfl, rfl, rfl, rfl, hcoins, houtputs, hcoins', houtputs'⟩

theorem exists_build_iff : (∃ u, build coins outputs network config = .ok u) ↔ Acceptable coins outputs network config := by
  constructor
  · rintro ⟨u, h⟩
    obtain ⟨hvalid, hbuilt, hfee⟩ := build_eq_ok_iff.mp h
    obtain ⟨hcoins, houtputs, hcoin, houtput⟩ := exists_built_iff.mp ⟨u, hbuilt⟩
    obtain ⟨hcoinsWorth, houtputsWorth, hle, hrate⟩ := hbuilt.exists_checkedFee_iff.mp hfee
    exact ⟨hvalid, hcoins, houtputs, hcoin, houtput, hcoinsWorth, houtputsWorth, hle, hrate⟩
  · intro h
    obtain ⟨u, hbuilt⟩ := exists_built_iff.mpr ⟨h.coins_ne_nil, h.outputs_ne_nil, h.coin, h.output⟩
    exact ⟨u, build_eq_ok_iff.mpr ⟨h.valid, hbuilt,
      hbuilt.exists_checkedFee_iff.mpr ⟨h.coinsWorth_lt, h.outputsWorth_lt, h.outputsWorth_le, h.fee_le⟩⟩⟩

end Unsigned

/-! ## Refusals -/

theorem CoinRequest.code_of_check {request : CoinRequest} {place : Nat} {e : BuildError}
    (h : request.check place = .error e) : e.code = .invalidTransactionStructure := by
  rcases bind_eq_error_iff.mp h with hid | ⟨id, -, h⟩
  · obtain ⟨fault, -, rfl⟩ := mapError_eq_error_iff.mp hid
    rfl
  · rcases bind_eq_error_iff.mp h with hkey | ⟨key, -, h⟩
    · obtain ⟨fault, -, rfl⟩ := mapError_eq_error_iff.mp hkey
      rfl
    · dsimp only at h
      split at h
      · cases h
        rfl
      · split at h
        · cases h
          rfl
        · cases h

theorem Destination.code_of_check {destination : Destination} {network : Network} {place : Nat} {e : BuildError}
    (h : destination.check network place = .error e) : e.code = .invalidTransactionStructure := by
  cases destination <;>
  · obtain ⟨fault, -, rfl⟩ := mapError_eq_error_iff.mp h
    rfl

theorem OutputRequest.code_of_check {request : OutputRequest} {network : Network} {place : Nat} {e : BuildError}
    (h : request.check network place = .error e) : e.code = .invalidTransactionStructure := by
  rcases bind_eq_error_iff.mp h with hscript | ⟨script, -, h⟩
  · exact Destination.code_of_check hscript
  · split at h
    · cases h
      rfl
    · cases h

namespace Unsigned

theorem code_of_checkedFee {u : Unsigned} {maxRate : Option UInt64} {e : BuildError} (h : u.checkedFee maxRate = .error e) :
    e.code = .invalidTransactionStructure := by
  rcases bind_eq_error_iff.mp h with hfee | ⟨fee, -, h⟩
  · unfold Unsigned.fee at hfee
    split at hfee
    · cases hfee
      rfl
    · split at hfee
      · cases hfee
        rfl
      · split at hfee
        · cases hfee
          rfl
        · cases hfee
  · cases maxRate with
    | none => cases h
    | some rate =>
      dsimp only at h
      split at h
      · cases h
        rfl
      · cases h

/-- A refusal is the fault of the configuration, or else that of the transaction, whichever check it comes from. -/
theorem code_of_build {coins : List CoinRequest} {outputs : List OutputRequest} {network : Network} {config : Config}
    {e : BuildError} (h : build coins outputs network config = .error e) :
    e.report.code = if config.Valid then .invalidTransactionStructure else .configError := by
  unfold build at h
  rcases bind_eq_error_iff.mp h with hconfig | ⟨⟨⟩, hconfig, h⟩
  · obtain ⟨fault, hfault, rfl⟩ := mapError_eq_error_iff.mp hconfig
    have hvalid : ¬config.Valid := by
      rw [← config.check_eq_ok_iff, hfault]
      exact nofun
    rw [if_neg hvalid]
    rfl
  · -- The configuration is valid, so the fault is one of the parts, and none of them has another code.
    have hcode : e.code = .invalidTransactionStructure := by
      dsimp only at h
      split at h
      · cases h
        rfl
      · split at h
        · cases h
          rfl
        · rcases bind_eq_error_iff.mp h with hcoins | ⟨coins', -, h⟩
          · obtain ⟨request, place, hcheck⟩ := exists_of_checkAll_eq_error hcoins
            exact CoinRequest.code_of_check hcheck
          · rcases bind_eq_error_iff.mp h with houtputs | ⟨outputs', -, h⟩
            · obtain ⟨request, place, hcheck⟩ := exists_of_checkAll_eq_error houtputs
              exact OutputRequest.code_of_check hcheck
            · rcases bind_eq_error_iff.mp h with hfee | ⟨fee, -, h⟩
              · exact code_of_checkedFee hfee
              · cases h
    rw [if_pos (config.check_eq_ok_iff.mp (mapError_eq_ok_iff.mp hconfig))]
    exact hcode

/-- A transaction is built exactly when the configuration, the requests and the sums are acceptable, in exact numbers. Its fee is
then the difference of the sums, and the size that the fee is measured by is told by the requests. A refusal is reported as the
fault of the configuration when that is not valid, and as one of the transaction in every other case. -/
theorem build_exact (coins : List CoinRequest) (outputs : List OutputRequest) (network : Network) (config : Config) :
    ((∃ u, build coins outputs network config = .ok u) ↔ Acceptable coins outputs network config) ∧
    (∀ u, build coins outputs network config = .ok u →
      u.fee = .ok (coinsWorth coins - outputsWorth outputs) ∧ u.signedSize = sizeSigned coins outputs network) ∧
    ∀ e, build coins outputs network config = .error e →
      e.report.code = if config.Valid then .invalidTransactionStructure else .configError := by
  refine ⟨exists_build_iff, fun u h => ?_, fun e h => code_of_build h⟩
  obtain ⟨-, hbuilt, fee, hchecked⟩ := build_eq_ok_iff.mp h
  have hfee := (checkedFee_eq_ok_iff.mp hchecked).1
  have hsum := (fee_eq_ok_iff.mp hfee).2.2
  rw [hbuilt.total_spent, hbuilt.total_outputs] at hsum
  refine ⟨?_, hbuilt.signedSize⟩
  rw [hfee, hsum, Nat.add_sub_cancel]

/-- The requests for the two coins are acceptable, and what they leave for the fee is what the coins are worth more than the
outputs. -/
theorem build_exact_pair :
    Acceptable pairCoins pairOutputs .regtest pairConfig ∧ pair.fee = .ok 1000 ∧ pair.signedSize = 182 := by
  obtain ⟨haccept, hbuilt, -⟩ := build_exact pairCoins pairOutputs .regtest pairConfig
  obtain ⟨hfee, hsize⟩ := hbuilt pair build_pair
  have hsigned : sizeSigned pairCoins pairOutputs .regtest = 182 := by decide +kernel
  exact ⟨haccept.mp ⟨pair, build_pair⟩, hfee, hsize.trans hsigned⟩

end Unsigned

end OfflineSigner.Bitcoin
