import OfflineSigner.Bitcoin.Signed
import OfflineSigner.Proofs.Bitcoin.Build
import OfflineSigner.Proofs.Taproot

/-!
# Signatures of a built transaction

Statements about `Unsigned.sign`: signing changes nothing but the witnesses (`SameButWitnesses`), and so neither the name of the
transaction nor what is signed, which do not depend on them; and the signature in each witness verifies for the coin that
its input spends (`sign_verifies`).
-/

namespace OfflineSigner.Bitcoin

open Curve

/-! ## Transactions without their witnesses -/

/-- The input without its witness. -/
def Input.bare (i : Input) : Input := { i with witness := [] }

@[simp] theorem Input.bytes_bare (i : Input) : i.bare.bytes = i.bytes := rfl

namespace Transaction

/-- Whether two transactions differ at most in the witnesses of their inputs. -/
structure SameButWitnesses (t t' : Transaction) : Prop where
  version : t.version = t'.version
  inputs : t.inputs.map Input.bare = t'.inputs.map Input.bare
  outputs : t.outputs = t'.outputs
  lockTime : t.lockTime = t'.lockTime

namespace SameButWitnesses

variable {t t' : Transaction}

/-- What is put together from the inputs without regard to their witnesses is the same. -/
theorem flatMap_inputs (h : SameButWitnesses t t') {f : Input → Bytes} (hf : ∀ i : Input, f i.bare = f i) :
    t.inputs.flatMap f = t'.inputs.flatMap f := by
  have hbare : ∀ inputs : List Input, inputs.flatMap f = (inputs.map Input.bare).flatMap f := by
    intro inputs
    rw [List.flatMap_map]
    exact List.flatMap_congr fun i _ => (hf i).symm
  rw [hbare t.inputs, h.inputs, ← hbare]

theorem length_inputs (h : SameButWitnesses t t') : t.inputs.length = t'.inputs.length := by
  have := congrArg List.length h.inputs
  rwa [List.length_map, List.length_map] at this

theorem body_eq (h : SameButWitnesses t t') : t.body = t'.body := by
  rw [body, body, h.length_inputs, h.flatMap_inputs Input.bytes_bare, h.outputs]

theorem stripped_eq (h : SameButWitnesses t t') : t.stripped = t'.stripped := by
  rw [stripped, stripped, versionBytes, versionBytes, lockTimeBytes, lockTimeBytes, h.version, h.body_eq, h.lockTime]

/-- The name of a transaction does not depend on its witnesses. -/
theorem id_eq (h : SameButWitnesses t t') : t.id = t'.id := by rw [id, id, h.stripped_eq]

/-- What is signed does not depend on the witnesses. -/
theorem signingHash_eq (h : SameButWitnesses t t') (spent : List Output) (index : Nat) :
    t.signingHash spent index = t'.signingHash spent index := by
  have hpoints : t.inputs.flatMap (fun i => i.outPoint.bytes) = t'.inputs.flatMap fun i => i.outPoint.bytes :=
    h.flatMap_inputs fun _ => rfl
  have hsequences : t.inputs.flatMap (fun i => Bytes.ofNatLE 4 i.sequence.toNat) =
      t'.inputs.flatMap fun i => Bytes.ofNatLE 4 i.sequence.toNat := h.flatMap_inputs fun _ => rfl
  rw [signingHash, signingHash, signingMessage, signingMessage, versionBytes, versionBytes, lockTimeBytes, lockTimeBytes,
    h.version, h.lockTime, hpoints, hsequences, h.outputs]

end SameButWitnesses

end Transaction

/-! ## Signing -/

namespace Unsigned

/-- The input at a place gets the signature at that place. -/
theorem getElem?_withSignatures (u : Unsigned) {signatures : List Schnorr.Signature} {n : Nat} {coin : Coin}
    {σ : Schnorr.Signature} (hcoin : u.coins[n]? = some coin) (hσ : signatures[n]? = some σ) :
    (u.withSignatures signatures).inputs[n]? =
      some { outPoint := coin.outPoint, sequence := u.sequence, witness := [σ.toList] } := by
  rw [withSignatures]
  dsimp only
  rw [List.getElem?_zipWith, transaction]
  dsimp only
  rw [List.getElem?_map, hcoin, hσ]
  rfl

/-- Each input of a signed transaction spends a coin with one signature. -/
theorem of_mem_withSignatures {u : Unsigned} {signatures : List Schnorr.Signature} {i : Input}
    (h : i ∈ (u.withSignatures signatures).inputs) :
    ∃ coin ∈ u.coins, ∃ σ ∈ signatures,
      i = { outPoint := coin.outPoint, sequence := u.sequence, witness := [σ.toList] } := by
  obtain ⟨n, hn, rfl⟩ := List.mem_iff_getElem.mp h
  have hlength := hn
  simp only [withSignatures, transaction, List.length_zipWith, List.length_map] at hlength
  exact ⟨u.coins[n], List.getElem_mem _, signatures[n], List.getElem_mem _, by simp [withSignatures, transaction]⟩

/-- Signatures, one for each coin, change nothing but the witnesses. -/
theorem sameButWitnesses (u : Unsigned) {signatures : List Schnorr.Signature} (h : signatures.length = u.coins.length) :
    Transaction.SameButWitnesses (u.withSignatures signatures) u.transaction where
  version := rfl
  outputs := rfl
  lockTime := rfl
  inputs := by
    rw [withSignatures]
    dsimp only
    rw [List.map_zipWith]
    exact List.ext_getElem (by simp [h]) fun n h₁ h₂ => by simp [Input.bare]

/-- The inputs of a transaction that waits for its signatures have no witnesses. -/
theorem map_bare_transaction (u : Unsigned) : u.transaction.inputs.map Input.bare = u.transaction.inputs := by
  rw [transaction, List.map_map]
  rfl

/-- What it takes to sign an input, and what the signature is. -/
theorem of_signature {u : Unsigned} {keys : KeySource} {coin : Coin} {place : Nat} {σ : Schnorr.Signature}
    (h : u.signature keys coin place = .ok σ) :
    ∃ secret d, keys place coin.internalKey = some secret ∧ Taproot.tweakedSecret (some secret) coin.internalKey = .ok d ∧
      coin.output.script.drop 2 = d.xOnly.toBytes.toList ∧ σ = Schnorr.sign d (u.transaction.signingHash u.spent place) := by
  unfold signature at h
  split at h
  · rename_i secret hsecret
    obtain ⟨d, hd, h⟩ := bind_eq_ok_iff.mp h
    dsimp only at h
    split at h
    · cases h
    · rename_i hcommit
      exact ⟨secret, d, hsecret, mapError_eq_ok_iff.mp hd, Decidable.not_not.mp hcommit, (Except.ok.inj h).symm⟩
  · cases h

/-- A coin is signed for when there is a key for it whose tweak leads to the key that its script holds. -/
theorem signature_of {u : Unsigned} {keys : KeySource} {coin : Coin} {place : Nat} {secret : Bytes} {d : SecretKey}
    (hkeys : keys place coin.internalKey = some secret)
    (htweaked : Taproot.tweakedSecret (some secret) coin.internalKey = .ok d)
    (hscript : coin.output.script.drop 2 = d.xOnly.toBytes.toList) :
    u.signature keys coin place = .ok (Schnorr.sign d (u.transaction.signingHash u.spent place)) := by
  unfold signature
  rw [hkeys]
  dsimp only
  refine bind_eq_ok_iff.mpr ⟨d, mapError_eq_ok_iff.mpr htweaked, ?_⟩
  rw [if_neg (not_not_intro hscript)]
  rfl

/-- A signed transaction has a signature for each coin. -/
theorem of_sign {u : Unsigned} {keys : KeySource} {t : Transaction} (h : u.sign keys = .ok t) :
    ∃ signatures, checkAll (u.signature keys) 0 u.coins = .ok signatures ∧ t = u.withSignatures signatures := by
  obtain ⟨signatures, hs, h⟩ := bind_eq_ok_iff.mp h
  exact ⟨signatures, hs, (Except.ok.inj h).symm⟩

/-- A transaction is signed when each of its coins can be signed for, wherever it stands. -/
theorem exists_sign {u : Unsigned} {keys : KeySource} (h : ∀ coin ∈ u.coins, ∀ place, ∃ σ, u.signature keys coin place = .ok σ) :
    ∃ t, u.sign keys = .ok t := by
  obtain ⟨signatures, hsignatures⟩ := exists_checkAll 0 h
  exact ⟨u.withSignatures signatures, bind_eq_ok_iff.mpr ⟨signatures, hsignatures, rfl⟩⟩

/-- A secret key signs for every coin of its internal key that has the script of that key. -/
theorem exists_signature_single {u : Unsigned} {d : SecretKey} {coin : Coin} (hkey : coin.internalKey = d.xOnly)
    (hscript : Taproot.script d.xOnly = .ok coin.output.script) (place : Nat) :
    ∃ σ, u.signature (KeySource.single d) coin place = .ok σ := by
  obtain ⟨tweaked, htweaked, hbytes⟩ := Taproot.script_eq_ok_iff.mp hscript
  have hkeys : KeySource.single d place coin.internalKey = some d.toBytes.toList := by rw [KeySource.single, if_pos hkey]
  have hdrop : coin.output.script.drop 2 = tweaked.xOnly.toBytes.toList := by rw [hbytes]; rfl
  rw [← hkey] at htweaked
  exact ⟨_, signature_of hkeys htweaked hdrop⟩

/-- A signature that is not the one of zeros verifies under the key that its coin's script holds. -/
theorem verify_signature {u : Unsigned} {keys : KeySource} {coin : Coin} {place : Nat} {σ : Schnorr.Signature}
    (h : u.signature keys coin place = .ok σ) (hσ : σ ≠ Schnorr.zeros) :
    ∃ K, XOnlyKey.ofBytes ((coin.output.script.drop 2).take 32) = .ok K ∧
      Schnorr.verify (u.transaction.signingHash u.spent place) σ K = true := by
  obtain ⟨secret, d, -, -, hscript, hsign⟩ := of_signature h
  have hkey : (coin.output.script.drop 2).take 32 = d.xOnly.toBytes.toList := by
    rw [hscript]
    exact List.take_of_length_le (Nat.le_of_eq d.xOnly.toBytes.length_toList)
  have hpoint : d.xOnly.point?.isSome := by rw [d.point?_xOnly]; rfl
  refine ⟨d.xOnly, by rw [hkey, XOnlyKey.ofBytes_toBytes hpoint], ?_⟩
  rw [hsign] at hσ ⊢
  exact Schnorr.verify_sign hσ

/-- A transaction is signed with the signatures of its coins, when each coin has one. -/
theorem sign_of_signature {u : Unsigned} {keys : KeySource} {σ : Nat → Schnorr.Signature}
    (h : ∀ coin ∈ u.coins, ∀ place, u.signature keys coin place = .ok (σ place)) :
    u.sign keys = .ok (u.withSignatures ((List.range u.coins.length).map σ)) := by
  have hchecked : checkAll (u.signature keys) 0 u.coins = .ok ((List.range u.coins.length).map σ) := by
    refine checkAll_eq_ok_iff.mpr ⟨by rw [List.length_map, List.length_range], fun place coin σ' hcoin hσ' => ?_⟩
    rw [List.getElem?_map, List.getElem?_range (List.getElem?_eq_some_iff.mp hcoin).1, Option.map_some] at hσ'
    cases hσ'
    rw [Nat.zero_add]
    exact h coin (List.mem_of_getElem? hcoin) place
  exact bind_eq_ok_iff.mpr ⟨_, hchecked, rfl⟩

/-! ## A transaction with two coins -/

/-- The key `six` signs for every coin that has its internal key and its script. -/
theorem signature_six (u : Unsigned) {coin : Coin} (hkey : coin.internalKey = Taproot.six.xOnly)
    (hscript : coin.output.script = Taproot.scriptSix) (place : Nat) :
    u.signature (KeySource.single Taproot.six) coin place =
      .ok (Schnorr.sign Taproot.tweakedSix (u.transaction.signingHash u.spent place)) := by
  have htweaked := Taproot.tweakedSecret_eq_ok_iff_tweaksTo.mpr Taproot.tweaksTo_six
  have hcommits : coin.output.script.drop 2 = Taproot.tweakedSix.xOnly.toBytes.toList := by
    rw [hscript, SecretKey.xOnly, Taproot.publicKey_tweakedSix]
    rfl
  rw [← hkey] at htweaked
  exact signature_of (if_pos hkey) htweaked hcommits

/-- A request for a coin of the key. -/
def coinOfSix (transaction : String) (index : UInt32) (value : UInt64) : CoinRequest where
  transaction
  index
  value
  script := Taproot.scriptSix
  signerKey := Taproot.six.xOnly.toBytes.toList

/-- Two coins of the key; the text that names the second has blanks and capitals. -/
def pairCoins : List CoinRequest := [
  coinOfSix "0000000000000000000000000000000000000000000000000000000000000001" 0 100000,
  coinOfSix " 00000000000000000000000000000000000000000000000000000000DEADbeef " 7 250000]

/-- A payment to an address, and a script with data. -/
def pairOutputs : List OutputRequest := [
  ⟨99000, .address "bcrt1pmfr3p9j00pfxjh0zmgp99y8zftmd3s5pmedqhyptwy6lm87hf5ssm803es"⟩,
  ⟨250000, .script [0x6a, 0x02, 0xbe, 0xef]⟩]

/-- No replacement, and a height to wait for. -/
def pairConfig : Config := { bitcoin := { enableRbf := false, lockTime := 800000 } }

/-- The transaction that spends the two coins. -/
def pair : Unsigned where
  version := 2
  lockTime := 800000
  sequence := 0xffffffff
  coins := [
    { outPoint := ⟨⟨0x01 :: List.replicate 31 0x00, rfl⟩, 0⟩
      output := ⟨100000, Taproot.scriptSix⟩
      internalKey := Taproot.six.xOnly },
    { outPoint := ⟨⟨[0xef, 0xbe, 0xad, 0xde] ++ List.replicate 28 0x00, rfl⟩, 7⟩
      output := ⟨250000, Taproot.scriptSix⟩
      internalKey := Taproot.six.xOnly }]
  outputs := [
    ⟨99000, 0x51 :: 0x20 :: Bytes.ofNatBE 32 0xda4710964f7852695de2da025290e24af6d8c281de5a0b902b7135fd9fd74d21⟩,
    ⟨250000, [0x6a, 0x02, 0xbe, 0xef]⟩]
  network := .regtest

theorem build_pair : build pairCoins pairOutputs .regtest pairConfig = .ok pair := by decide +kernel

/-- What is signed at a place of the two. -/
def pairDigest (place : Nat) : Digest := pair.transaction.signingHash pair.spent place

/-- The signature at a place of the two. -/
def pairSignature (place : Nat) : Schnorr.Signature := Schnorr.sign Taproot.tweakedSix (pairDigest place)

theorem sign_pair :
    pair.sign (KeySource.single Taproot.six) = .ok (pair.withSignatures [pairSignature 0, pairSignature 1]) := by
  have hcoin : ∀ coin ∈ pair.coins, coin.internalKey = Taproot.six.xOnly ∧ coin.output.script = Taproot.scriptSix := by
    simp [pair]
  exact sign_of_signature fun coin hmem place => signature_six pair (hcoin coin hmem).1 (hcoin coin hmem).2 place

/-- What is signed differs from place to place, and there is a nonce for each; no signature is computed for that. -/
theorem nonce_pair :
    pairDigest 0 ≠ pairDigest 1 ∧ ∀ place < 2, Schnorr.nonce Taproot.tweakedSix (pairDigest place) ≠ 0 := by
  unfold Schnorr.nonce
  rw [SecretKey.evenScalar, SecretKey.xOnly, Taproot.publicKey_tweakedSix]
  decide +kernel

/-! ## What is signed -/

/-- Signing keeps the version, the lock time, the outputs, and of every input all but its witness, so the name of the
transaction stays; and the witness of each input is one signature of 64 bytes, which verifies for the coin that was asked for
at its place: under the key in that coin's script, and for what the finished transaction and all the coins give that key to
sign. No signature may be the one of zeros, which stands where there is no nonce. -/
theorem sign_verifies {coins : List CoinRequest} {outputs : List OutputRequest} {network : Network} {config : Config}
    {u : Unsigned} {keys : KeySource} {t : Transaction} (hbuild : build coins outputs network config = .ok u)
    (hsign : u.sign keys = .ok t) (hzeros : ∀ input ∈ t.inputs, input.witness ≠ [Schnorr.zeros.toList]) :
    (t.version = u.transaction.version ∧ t.lockTime = u.transaction.lockTime ∧ t.outputs = u.transaction.outputs ∧
      t.inputs.map Input.bare = u.transaction.inputs ∧ (∀ input ∈ t.inputs, input.script = []) ∧
      t.inputs.length = coins.length ∧ t.id = u.transaction.id) ∧
    ∀ n request, coins[n]? = some request → ∃ input σ K, t.inputs[n]? = some input ∧ input.witness = [σ.toList] ∧
      XOnlyKey.ofBytes ((request.script.drop 2).take 32) = .ok K ∧
      Schnorr.verify (t.signingHash (coins.map CoinRequest.output) n) σ K = true := by
  have hbuilt := of_build hbuild
  obtain ⟨signatures, hchecked, rfl⟩ := of_sign hsign
  have hlength := length_of_checkAll hchecked
  have hsame := u.sameButWitnesses hlength
  have hbare : (u.withSignatures signatures).inputs.map Input.bare = u.transaction.inputs := by
    rw [hsame.inputs, u.map_bare_transaction]
  refine ⟨⟨rfl, rfl, rfl, hbare, fun input hinput => ?_, ?_, hsame.id_eq⟩, fun n request hn => ?_⟩
  · have hmem : input.bare ∈ u.transaction.inputs := hbare ▸ List.mem_map_of_mem hinput
    obtain ⟨coin, -, hcoin⟩ := List.mem_map.mp hmem
    exact (congrArg Input.script hcoin).symm
  · rw [hsame.length_inputs, u.length_inputs_transaction, hbuilt.length_coins]
  · obtain ⟨coin, hcoin, haccepted⟩ := hbuilt.accepted hn
    obtain ⟨σ, hσ, hsigned⟩ := getElem?_of_checkAll hchecked hcoin
    rw [Nat.zero_add] at hsigned
    have hinput := u.getElem?_withSignatures hcoin hσ
    have hne : σ ≠ Schnorr.zeros := by
      rintro rfl
      exact hzeros _ (List.mem_of_getElem? hinput) rfl
    obtain ⟨K, hK, hverify⟩ := verify_signature hsigned hne
    rw [haccepted.output] at hK
    exact ⟨_, σ, K, hinput, rfl, hK, by rw [hsame.signingHash_eq, ← hbuilt.spent, hverify]⟩

/-- The signatures of the two coins verify, each for what is signed at its place, which is not the same at both. -/
theorem sign_verifies_pair :
    ∃ t, pair.sign (KeySource.single Taproot.six) = .ok t ∧ t.id = pair.transaction.id ∧ t.inputs.length = 2 ∧
      t.signingHash (pairCoins.map CoinRequest.output) 0 ≠ t.signingHash (pairCoins.map CoinRequest.output) 1 ∧
      ∀ place < 2, ∃ input σ K, t.inputs[place]? = some input ∧ input.witness = [σ.toList] ∧
        XOnlyKey.ofBytes ((Taproot.scriptSix.drop 2).take 32) = .ok K ∧
        Schnorr.verify (t.signingHash (pairCoins.map CoinRequest.output) place) σ K = true := by
  obtain ⟨hdiffer, hnonce⟩ := nonce_pair
  have hcount : [pairSignature 0, pairSignature 1].length = pair.coins.length := by simp [pair]
  have hzeros : ∀ input ∈ (pair.withSignatures [pairSignature 0, pairSignature 1]).inputs,
      input.witness ≠ [Schnorr.zeros.toList] := by
    intro input hinput hwitness
    obtain ⟨coin, -, σ, hσ, rfl⟩ := of_mem_withSignatures hinput
    have heq : σ = Schnorr.zeros := FixedBytes.eq_of_toList (List.singleton_inj.mp hwitness)
    rcases List.mem_cons.mp hσ with hσ | hσ
    · rw [hσ] at heq
      exact hnonce 0 (by decide) (Schnorr.sign_eq_zeros_iff.mp heq)
    · rw [List.mem_singleton.mp hσ] at heq
      exact hnonce 1 (by decide) (Schnorr.sign_eq_zeros_iff.mp heq)
  obtain ⟨⟨-, -, -, -, -, hlength, hid⟩, hverify⟩ := sign_verifies build_pair sign_pair hzeros
  have hdigest := (pair.sameButWitnesses hcount).signingHash_eq
  refine ⟨_, sign_pair, hid, hlength, ?_, fun place hplace => ?_⟩
  · rw [hdigest, hdigest]
    exact hdiffer
  · obtain ⟨request, hrequest⟩ : ∃ request, pairCoins[place]? = some request := ⟨_, List.getElem?_eq_getElem hplace⟩
    have hscript : request.script = Taproot.scriptSix := by
      rcases List.mem_cons.mp (List.mem_of_getElem? hrequest) with rfl | hmem
      · rfl
      · rw [List.mem_singleton.mp hmem]
        rfl
    rw [← hscript]
    exact hverify place request hrequest

end Unsigned

end OfflineSigner.Bitcoin
