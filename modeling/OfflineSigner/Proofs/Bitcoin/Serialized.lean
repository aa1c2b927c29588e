import OfflineSigner.Proofs.Address.Bitcoin
import OfflineSigner.Proofs.Bitcoin.Accept
import OfflineSigner.Proofs.Bitcoin.Wire

/-!
# The bytes of a signed transaction say what was asked for

What a transaction has to be for given requests (`Transaction.AsAsked`), told of a transaction that may come from anywhere, and
the statement that the decoder finds such a transaction in the bytes of a signed one, and nothing else (`raw_as_asked`). The same
statement lays the bytes out, so that the name of the transaction is the hash of the bytes without marker, flag and witnesses.
-/

namespace OfflineSigner.Bitcoin

open Curve

/-! ## What is asked for -/

/-- What the input for a coin has to be: it names the coin, has no script and the sequence number of the configuration, and a
witness of one string of 64 bytes. -/
structure CoinRequest.SpentBy (request : CoinRequest) (config : Config) (i : Input) : Prop where
  transaction : Hex.encodeChars i.outPoint.transaction.toList.reverse =
    (Text.trimChars request.transaction.toList).map Char.toLower
  index : i.outPoint.index = request.index
  script : i.script = []
  sequence : i.sequence = if config.bitcoin.enableRbf then 0xfffffffd else 0xffffffff
  witness : ∃ σ : FixedBytes 64, i.witness = [σ.toList]

/-- What the output for a request has to be: it has the value, and the script of the destination. -/
structure OutputRequest.MadeBy (request : OutputRequest) (network : Network) (o : Output) : Prop where
  value : o.value = request.value
  script : request.destination.StandsFor network o.script

/-- What a transaction has to be for given requests: it has the version and the lock time of the configuration, an input for
each coin and an output for each request, in their order, and no others. -/
structure Transaction.AsAsked (coins : List CoinRequest) (outputs : List OutputRequest) (network : Network) (config : Config)
    (t : Transaction) : Prop where
  version : t.version = config.bitcoin.txVersion
  lockTime : t.lockTime = config.bitcoin.lockTime
  inputs : List.Forall₂ (fun request i => request.SpentBy config i) coins t.inputs
  outputs : List.Forall₂ (fun request o => request.MadeBy network o) outputs t.outputs

namespace Unsigned

variable {coins : List CoinRequest} {outputs : List OutputRequest} {network : Network} {config : Config} {u : Unsigned}
  {signatures : List Schnorr.Signature}

/-! ## Signed transactions -/

/-- The bytes of a signed transaction. -/
theorem raw_withSignatures (hlength : signatures.length = u.coins.length) (hpos : 0 < u.coins.length) :
    (u.withSignatures signatures).raw =
      u.transaction.versionBytes ++ [0x00, 0x01] ++ u.transaction.body ++
        (signatures.flatMap fun σ => 0x01 :: 0x40 :: σ.toList) ++ u.transaction.lockTimeBytes := by
  rw [Transaction.raw, if_pos (hasWitness_withSignatures hlength hpos), witnesses_withSignatures hlength,
    (u.sameButWitnesses hlength).body_eq]
  rfl

/-- A signed transaction is the one asked for. -/
theorem Built.asAsked (h : Built coins outputs network config u) (hlength : signatures.length = u.coins.length) :
    (u.withSignatures signatures).AsAsked coins outputs network config where
  version := h.version
  lockTime := h.lockTime
  inputs := by
    refine List.forall₂_iff_get.mpr ⟨by rw [length_withSignatures hlength, h.length_coins], fun n hn hn' => ?_⟩
    obtain ⟨coin, hcoin, haccepted⟩ := h.accepted (List.getElem?_eq_getElem hn)
    have hσ : n < signatures.length := by
      rw [hlength, h.length_coins]
      exact hn
    have hinput := u.getElem?_withSignatures hcoin (List.getElem?_eq_getElem hσ)
    rw [List.get_eq_getElem, List.get_eq_getElem, (List.getElem?_eq_some_iff.mp hinput).2]
    exact {
      transaction := (TransactionId.parse_eq_ok_iff.mp haccepted.transaction).symm
      index := haccepted.index
      script := rfl
      sequence := h.sequence
      witness := ⟨_, rfl⟩ }
  outputs := by
    refine forall₂_of_checkAll (fun request place o hcheck => ?_) h.checked_outputs
    obtain ⟨-, hvalue, hscript⟩ := OutputRequest.check_eq_ok_iff.mp hcheck
    exact ⟨hvalue, hscript⟩

/-- The scripts of the outputs can be counted, since those of addresses are short. -/
theorem Built.length_script_lt (h : Built coins outputs network config u)
    (hscripts : ∀ value bytes, ⟨value, .script bytes⟩ ∈ outputs → bytes.length < 2 ^ 64) :
    ∀ o ∈ u.outputs, o.script.length < 2 ^ 64 := by
  intro o ho
  obtain ⟨request, hrequest, place, hcheck⟩ := exists_of_mem_checkAll h.checked_outputs ho
  have hscript := (OutputRequest.check_eq_ok_iff.mp hcheck).2.2
  obtain ⟨value, destination⟩ := request
  cases destination with
  | address text =>
    obtain ⟨a, ha, hscript⟩ := hscript
    rw [hscript]
    exact (BitcoinAddress.length_script_of_parse ha).trans_lt (by decide)
  | script bytes =>
    rw [hscript]
    exact hscripts value bytes hrequest

theorem Built.countable (h : Built coins outputs network config u) (hlength : signatures.length = u.coins.length)
    (hcoins : coins.length < 2 ^ 64) (houtputs : outputs.length < 2 ^ 64)
    (hscripts : ∀ value bytes, ⟨value, .script bytes⟩ ∈ outputs → bytes.length < 2 ^ 64) :
    Wire.Countable (u.withSignatures signatures) where
  inputs := by rwa [length_withSignatures hlength, h.length_coins]
  outputs := by
    rw [← h.length_outputs] at houtputs
    exact houtputs
  inputScripts := by
    intro i hi
    obtain ⟨coin, -, σ, -, rfl⟩ := of_mem_withSignatures hi
    exact Nat.two_pow_pos 64
  outputScripts := h.length_script_lt hscripts
  witnesses := by
    intro i hi
    obtain ⟨coin, -, σ, -, rfl⟩ := of_mem_withSignatures hi
    exact Nat.one_lt_two_pow (by decide)
  witnessItems := by
    intro i hi bs hbs
    obtain ⟨coin, -, σ, -, rfl⟩ := of_mem_withSignatures hi
    rw [List.mem_singleton.mp hbs, σ.length_toList]
    decide

/-- The bytes of a signed transaction are decoded as a transaction that is the one asked for, and nothing is left over. They are
the version, the marker and the flag, the inputs and the outputs, a witness of one string of 64 bytes for each coin, and the lock
time; the name of the transaction is the double hash, in reverse, of these bytes without the marker, the flag and the witnesses.
The lists and the scripts that are asked for have lengths of 64 bits, the most that their counts can write. -/
theorem raw_as_asked {keys : KeySource} {t : Transaction} (hbuild : build coins outputs network config = .ok u)
    (hsign : u.sign keys = .ok t) (hcoins : coins.length < 2 ^ 64) (houtputs : outputs.length < 2 ^ 64)
    (hscripts : ∀ value bytes, ⟨value, .script bytes⟩ ∈ outputs → bytes.length < 2 ^ 64) :
    (∃ parsed, Wire.decode? t.raw = some (parsed, []) ∧ parsed.AsAsked coins outputs network config) ∧
    ∃ (version body lockTime : Bytes) (signatures : List (FixedBytes 64)),
      version.length = 4 ∧ lockTime.length = 4 ∧ signatures.length = coins.length ∧
      t.raw = version ++ [0x00, 0x01] ++ body ++ (signatures.flatMap fun σ => 0x01 :: 0x40 :: σ.toList) ++ lockTime ∧
      t.id.text = Hex.encode (Hash.sha256 (Hash.sha256 (version ++ body ++ lockTime)).toList).toList.reverse := by
  have hbuilt := of_build hbuild
  obtain ⟨signatures, hlength, rfl⟩ := exists_signatures hsign
  have hwitness := hasWitness_withSignatures hlength hbuilt.coins_pos
  have hdecode := Wire.decode?_raw hwitness (hbuilt.countable hlength hcoins houtputs hscripts)
  refine ⟨⟨_, hdecode, hbuilt.asAsked hlength⟩, u.transaction.versionBytes, u.transaction.body, u.transaction.lockTimeBytes,
    signatures, Bytes.length_ofNatLE _ _, Bytes.length_ofNatLE _ _, hlength.trans hbuilt.length_coins,
    raw_withSignatures hlength hbuilt.coins_pos, ?_⟩
  rw [(u.sameButWitnesses hlength).id_eq]
  rfl

/-- The bytes of the two coins' transaction are decoded as the transaction asked for. -/
theorem raw_as_asked_pair :
    ∃ u t parsed, build pairCoins pairOutputs .regtest pairConfig = .ok u ∧
      u.sign (KeySource.single Taproot.six) = .ok t ∧ Wire.decode? t.raw = some (parsed, []) ∧
      parsed.AsAsked pairCoins pairOutputs .regtest pairConfig := by
  have hscripts : ∀ value bytes, ⟨value, .script bytes⟩ ∈ pairOutputs → bytes.length < 2 ^ 64 := by
    intro value bytes h
    rcases List.mem_cons.mp h with h | h
    · cases h
    · cases List.mem_singleton.mp h
      decide
  obtain ⟨⟨parsed, hdecode, hasked⟩, -⟩ := raw_as_asked build_pair sign_pair (by decide) (by decide) hscripts
  exact ⟨pair, _, parsed, build_pair, sign_pair, hdecode, hasked⟩

end Unsigned

end OfflineSigner.Bitcoin
