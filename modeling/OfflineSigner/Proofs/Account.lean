import OfflineSigner.Account
import OfflineSigner.Proofs.Bitcoin.Signing
import OfflineSigner.Proofs.ExtendedKey
import OfflineSigner.Proofs.Taproot.Address

/-!
# Coins of a derived account

Statements about `TaprootAccount.derive`: the keys of an account belong together, its address pays to the key that its tweaked
secret signs for (`of_derive`), and the address is read back from its text (`parse_text_address`). So a transaction of coins
at the address, once it is built, is signed with the account's secret key (`exists_sign_of_derive`).
-/

namespace OfflineSigner

open Curve Bitcoin

namespace TaprootAccount

/-- What a derived account consists of, in terms of its secret key and the tweaked one. -/
structure Derived (network : Network) (account : TaprootAccount) (tweaked : SecretKey) : Prop where
  internalKey : account.internalKey = account.secret.xOnly
  outputKey : account.outputKey = tweaked.xOnly
  address : account.address = .segwit (SegwitMarker.ofNetwork network) (Taproot.program tweaked.xOnly)
  tweaked : Taproot.tweakedSecret (some account.secret.toBytes.toList) account.internalKey = .ok tweaked

theorem of_derive {seed : Bytes} {network : Network} {coin change index : Nat} {account : TaprootAccount}
    (h : derive seed network coin change index = .ok account) : ∃ tweaked, Derived network account tweaked := by
  obtain ⟨path, -, h⟩ := bind_eq_ok_iff.mp h
  obtain ⟨node, hnode, h⟩ := bind_eq_ok_iff.mp h
  obtain ⟨d, hkeyed⟩ := ExtendedKey.keyed_of_derive (mapError_eq_ok_iff.mp hnode)
  dsimp only at h
  obtain ⟨output, houtput, h⟩ := bind_eq_ok_iff.mp h
  obtain ⟨address, haddress, h⟩ := bind_eq_ok_iff.mp h
  obtain ⟨secret, hsecret, h⟩ := bind_eq_ok_iff.mp h
  have hsecret : secret = d := by
    rw [ExtendedKey.seededSecret, hkeyed.secret] at hsecret
    exact (Except.ok.inj hsecret).symm
  have hinternal : node.publicKey.xOnly = d.xOnly := by rw [hkeyed.publicKey]; rfl
  rw [hinternal] at houtput haddress h
  have houtput := mapError_eq_ok_iff.mp houtput
  have haddress := mapError_eq_ok_iff.mp haddress
  obtain ⟨tweaked, htweaked, rfl⟩ := Taproot.outputKey_eq_ok_iff.mp houtput
  rw [Taproot.address, houtput] at haddress
  cases haddress
  cases h
  subst hsecret
  exact ⟨tweaked, rfl, rfl, rfl, htweaked⟩

/-- The address of an account is read back from its text. -/
theorem parse_text_address {network : Network} {account : TaprootAccount} {tweaked : SecretKey}
    (h : Derived network account tweaked) : BitcoinAddress.parse account.address.text network = .ok account.address := by
  rw [h.address, Taproot.parse_text_program, if_pos rfl]

/-- The script that the address of an account stands for is that of its internal key. -/
theorem Derived.script {network : Network} {account : TaprootAccount} {tweaked : SecretKey}
    (h : Derived network account tweaked) : Taproot.script account.secret.xOnly = .ok account.address.script := by
  have htweaked := h.tweaked
  rw [h.internalKey] at htweaked
  rw [h.address, Taproot.script_eq_ok_iff]
  exact ⟨tweaked, htweaked, Taproot.programScript_program tweaked.xOnly⟩

/-- The secret key of an account signs for every coin of its internal key whose script is that of its address. -/
theorem exists_signature {network : Network} {account : TaprootAccount} {tweaked : SecretKey}
    (h : Derived network account tweaked) (u : Unsigned) {coin : Coin} (hkey : coin.internalKey = account.internalKey)
    (hscript : coin.output.script = account.address.script) (place : Nat) :
    ∃ σ, u.signature (KeySource.single account.secret) coin place = .ok σ := by
  refine Unsigned.exists_signature_single ?_ ?_ place
  · rw [hkey, h.internalKey]
  · rw [hscript, h.script]

/-- Coins that are received at a derived account's address can be spent with the account's key: when a transaction is built
from coins of the internal key, each with the script that the address is read as on its network, then it is signed. -/
theorem exists_sign_of_derive {seed : Bytes} {network network' : Network} {coin change index : Nat}
    {account : TaprootAccount} (hderive : derive seed network coin change index = .ok account)
    {coins : List CoinRequest} {outputs : List OutputRequest} {config : Config} {u : Unsigned}
    (hscript : ∀ request ∈ coins,
      (BitcoinAddress.parse account.address.text network).map BitcoinAddress.script = .ok request.script)
    (hkey : ∀ request ∈ coins, request.signerKey = account.internalKey.toBytes.toList)
    (hbuild : Unsigned.build coins outputs network' config = .ok u) :
    ∃ t, u.sign (KeySource.single account.secret) = .ok t := by
  obtain ⟨tweaked, hderived⟩ := of_derive hderive
  have hsignature : ∀ coin ∈ u.coins, ∀ place,
      ∃ σ, u.signature (KeySource.single account.secret) coin place = .ok σ := by
    intro coin hcoin place
    obtain ⟨request, hrequest, haccepted⟩ := (Unsigned.of_build hbuild).accepted_of_mem hcoin
    have hinternal := haccepted.internalKey
    rw [hkey request hrequest, hderived.internalKey, Taproot.parseInternalKey_own List.mem_cons_self] at hinternal
    have hguard := hscript request hrequest
    rw [parse_text_address hderived] at hguard
    refine exists_signature hderived u ?_ ?_ place
    · rw [hderived.internalKey]
      exact (Except.ok.inj hinternal).symm
    · rw [haccepted.output]
      exact (Except.ok.inj hguard).symm
  obtain ⟨signatures, hsignatures⟩ := exists_checkAll 0 hsignature
  exact ⟨u.withSignatures signatures, bind_eq_ok_iff.mpr ⟨signatures, hsignatures, rfl⟩⟩

/-- A coin at the address of an account. -/
def sampleCoin (account : TaprootAccount) (index : UInt32) (value : UInt64) : CoinRequest where
  transaction := "0000000000000000000000000000000000000000000000000000000000000001"
  index
  value
  script := account.address.script
  signerKey := account.internalKey.toBytes.toList

/-- Two coins at the address. -/
def sampleCoins (account : TaprootAccount) : List CoinRequest := [account.sampleCoin 0 100000, account.sampleCoin 7 250000]

/-- The transaction that spends them. -/
def sampleBuild (account : TaprootAccount) : Except BuildError Unsigned :=
  Unsigned.build account.sampleCoins [⟨349000, .script [0x51]⟩] .mainnet {}

/-- The seed of the examples of BIP-86. -/
def bip86Seed : Bytes :=
  Bytes.ofNatBE 32 0x5eb00bbddcf069084889a8ab9155568165f5c453ccb85e70811aaed6f6da5fc1 ++
    Bytes.ofNatBE 32 0x9a5ac40b389cd370d086206dec8aa6c43daea6690f20ad3d8d48b2d2ce9e38e4

/-- The first account of the seed exists, and a transaction of two coins at its address is built. -/
theorem isSome_sampleBuild_bip86 :
    ((derive bip86Seed .mainnet 0 0 0).toOption.bind fun account => account.sampleBuild.toOption).isSome = true := by
  decide +kernel

/-- The coins of the first account of the seed are spent with the account's key. -/
theorem exists_sign_bip86 :
    ∃ account u t, derive bip86Seed .mainnet 0 0 0 = .ok account ∧ account.sampleBuild = .ok u ∧
      u.sign (KeySource.single account.secret) = .ok t := by
  obtain ⟨u, hbind⟩ := Option.isSome_iff_exists.mp isSome_sampleBuild_bip86
  obtain ⟨account, haccount, hu⟩ := Option.bind_eq_some_iff.mp hbind
  have hderive : derive bip86Seed .mainnet 0 0 0 = .ok account := toOption_eq_some_iff.mp haccount
  have hbuild : account.sampleBuild = .ok u := toOption_eq_some_iff.mp hu
  obtain ⟨tweaked, hderived⟩ := of_derive hderive
  have hcoin : ∀ request ∈ account.sampleCoins, ∃ index value, request = account.sampleCoin index value := by
    intro request hrequest
    rcases List.mem_cons.mp hrequest with rfl | hrequest
    · exact ⟨_, _, rfl⟩
    · exact ⟨_, _, List.mem_singleton.mp hrequest⟩
  have hscript : ∀ request ∈ account.sampleCoins,
      (BitcoinAddress.parse account.address.text .mainnet).map BitcoinAddress.script = .ok request.script := by
    intro request hrequest
    obtain ⟨index, value, rfl⟩ := hcoin request hrequest
    rw [parse_text_address hderived]
    rfl
  have hkey : ∀ request ∈ account.sampleCoins, request.signerKey = account.internalKey.toBytes.toList := by
    intro request hrequest
    obtain ⟨index, value, rfl⟩ := hcoin request hrequest
    rfl
  obtain ⟨t, hsign⟩ := exists_sign_of_derive hderive hscript hkey hbuild
  exact ⟨account, u, t, hderive, hbuild, hsign⟩

end TaprootAccount

end OfflineSigner
