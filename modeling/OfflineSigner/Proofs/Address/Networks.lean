import OfflineSigner.Proofs.Address.Bitcoin
import OfflineSigner.Proofs.Bitcoin.Accept

/-!
# The networks of an address

A text that writes an address writes the same one for every network that it is good for (`parse_eq_ok_iff_networks`), and those
are the networks of its marker or version (`networks`). Main statement: no address is good both for the main network and for a
test network, testnet and signet are never told apart, and what is paid to an address does not depend on the network
(`parse_apart`).
-/

namespace OfflineSigner

namespace BitcoinAddress

/-- The networks of an address: those of its marker, or the test networks or the main one by its version. -/
def networks : BitcoinAddress → List Network
  | .keyHash test _ => if test then [.testnet, .signet, .regtest] else [.mainnet]
  | .scriptHash test _ => if test then [.testnet, .signet, .regtest] else [.mainnet]
  | .segwit .main _ => [.mainnet]
  | .segwit .test _ => [.testnet, .signet]
  | .segwit .regtest _ => [.regtest]

theorem fits_iff {a : BitcoinAddress} {network : Network} : a.fits network = true ↔ network ∈ a.networks := by
  cases a with
  | keyHash test hash => cases test <;> cases network <;> simp [fits, networks, Network.isTest]
  | scriptHash test hash => cases test <;> cases network <;> simp [fits, networks, Network.isTest]
  | segwit marker program => cases marker <;> cases network <;> simp [fits, networks, SegwitMarker.ofNetwork]

/-- An address of the main network is one of no other network. -/
theorem eq_mainnet_of_mem {a : BitcoinAddress} (hmain : .mainnet ∈ a.networks) {network : Network}
    (h : network ∈ a.networks) : network = .mainnet := by
  cases a with
  | keyHash test hash => cases test <;> simp_all [networks]
  | scriptHash test hash => cases test <;> simp_all [networks]
  | segwit marker program => cases marker <;> simp_all [networks]

theorem testnet_mem_iff {a : BitcoinAddress} : .testnet ∈ a.networks ↔ .signet ∈ a.networks := by
  cases a with
  | keyHash test hash => cases test <;> simp [networks]
  | scriptHash test hash => cases test <;> simp [networks]
  | segwit marker program => cases marker <;> simp [networks]

/-- A text is an address of a network when it writes one, of whatever networks, and the network is among them. -/
theorem parse_eq_ok_iff_networks {s : String} {network : Network} {a : BitcoinAddress} :
    parse s network = .ok a ↔ read (Text.trimChars s.toList) = .ok a ∧ network ∈ a.networks := by
  rw [← fits_iff, parse, bind_eq_ok_iff]
  constructor
  · rintro ⟨a', hread, h⟩
    split at h
    · cases h
      exact ⟨hread, ‹_›⟩
    · cases h
  · rintro ⟨hread, hfits⟩
    exact ⟨a, hread, if_pos hfits⟩

/-- Where an address is not good, it is refused for its network. -/
theorem parse_of_not_mem {s : String} {network : Network} {a : BitcoinAddress}
    (hread : read (Text.trimChars s.toList) = .ok a) (h : network ∉ a.networks) :
    parse s network = .error (.wrongNetwork network) := by
  rw [parse, hread, ok_bind, if_neg (mt fits_iff.mp h)]

end BitcoinAddress

/-! ## What is paid -/

namespace Bitcoin

open Unsigned

/-- Whether some transaction that is built on a network pays to a script where an address is asked for. -/
inductive PaysTo (s : String) (network : Network) (script : Bytes) : Prop where
  | built {coins : List CoinRequest} {outputs : List OutputRequest} {config : Config} {u : Unsigned} {place : Nat}
    {request : OutputRequest} {output : Output} (hbuild : build coins outputs network config = .ok u)
    (hrequest : outputs[place]? = some request) (haddress : request.destination = .address s)
    (houtput : u.transaction.outputs[place]? = some output) (hscript : output.script = script) : PaysTo s network script

/-- What is paid is the script of the address that the text writes. -/
theorem PaysTo.exists_parse {s : String} {network : Network} {script : Bytes} (h : PaysTo s network script) :
    ∃ a, BitcoinAddress.parse s network = .ok a ∧ script = a.script := by
  obtain ⟨hbuild, hrequest, haddress, houtput, hscript⟩ := h
  obtain ⟨output', houtput', hcheck⟩ := getElem?_of_checkAll (of_build hbuild).checked_outputs hrequest
  have hsame := Option.some.inj (houtput'.symm.trans houtput)
  have hstands := (OutputRequest.check_eq_ok_iff.mp hcheck).2.2
  rw [haddress, hsame, hscript] at hstands
  exact hstands

end Bitcoin

namespace BitcoinAddress

open Bitcoin (OutputRequest PaysTo Unsigned)

/-- An address of the main network is refused, as an address, on every test network. Testnet and signet take the same
addresses. Two networks that take one text take it as paying to one script, and transactions that are built to it on them pay
to that script. -/
theorem parse_apart (s : String) :
    (∀ a, parse s .mainnet = .ok a → ∀ network, network ≠ .mainnet →
      ∃ e, parse s network = .error e ∧ e.report.code = .invalidAddress) ∧
    (∀ a, parse s .testnet = .ok a ↔ parse s .signet = .ok a) ∧
    (∀ network network' a a', parse s network = .ok a → parse s network' = .ok a' → a.script = a'.script) ∧
    ∀ network network' script script', PaysTo s network script → PaysTo s network' script' → script = script' := by
  have hsame : ∀ network network' a a', parse s network = .ok a → parse s network' = .ok a' → a = a' := by
    intro network network' a a' h h'
    have hread := (parse_eq_ok_iff_networks.mp h).1
    rw [(parse_eq_ok_iff_networks.mp h').1] at hread
    exact (Except.ok.inj hread).symm
  refine ⟨fun a h network hne => ?_, fun a => ?_, fun network network' a a' h h' => ?_,
    fun network network' script script' h h' => ?_⟩
  · obtain ⟨hread, hmain⟩ := parse_eq_ok_iff_networks.mp h
    exact ⟨_, parse_of_not_mem hread fun hmem => hne (eq_mainnet_of_mem hmain hmem), rfl⟩
  · rw [parse_eq_ok_iff_networks, parse_eq_ok_iff_networks, testnet_mem_iff]
  · rw [hsame network network' a a' h h']
  · obtain ⟨a, ha, rfl⟩ := h.exists_parse
    obtain ⟨a', ha', rfl⟩ := h'.exists_parse
    rw [hsame network network' a a' ha ha']

/-- A text of the main network and one that testnet and signet share, with what is paid to it on both. -/
theorem parse_apart_samples :
    (parse "bc1pfeessrawgf" .mainnet = .ok (.segwit .main ⟨1, [0x4e, 0x73]⟩) ∧
      ∃ e, parse "bc1pfeessrawgf" .regtest = .error e ∧ e.report.code = .invalidAddress) ∧
    parse "tb1pfees9rn5nz" .signet = .ok (.segwit .test ⟨1, [0x4e, 0x73]⟩) ∧
    PaysTo "tb1pfees9rn5nz" .testnet [0x51, 0x02, 0x4e, 0x73] ∧
    ∀ script, PaysTo "tb1pfees9rn5nz" .signet script → script = [0x51, 0x02, 0x4e, 0x73] := by
  have hmain : parse "bc1pfeessrawgf" .mainnet = .ok (.segwit .main ⟨1, [0x4e, 0x73]⟩) := by decide +kernel
  have htest : parse "tb1pfees9rn5nz" .testnet = .ok (.segwit .test ⟨1, [0x4e, 0x73]⟩) := by decide +kernel
  have hpays : PaysTo "tb1pfees9rn5nz" .testnet [0x51, 0x02, 0x4e, 0x73] := by
    have hbuild : Unsigned.build Unsigned.pairCoins [⟨349000, .address "tb1pfees9rn5nz"⟩] .testnet Unsigned.pairConfig =
        .ok { Unsigned.pair with outputs := [⟨349000, [0x51, 0x02, 0x4e, 0x73]⟩], network := .testnet } := by decide +kernel
    have hrequest : [(⟨349000, .address "tb1pfees9rn5nz"⟩ : OutputRequest)][0]? = some _ := rfl
    exact .built hbuild hrequest rfl rfl rfl
  obtain ⟨hrefused, -, -, -⟩ := parse_apart "bc1pfeessrawgf"
  obtain ⟨-, hshared, -, hpaid⟩ := parse_apart "tb1pfees9rn5nz"
  exact ⟨⟨hmain, hrefused _ hmain .regtest (by decide)⟩, (hshared _).mp htest, hpays,
    fun script h => hpaid .signet .testnet script _ h hpays⟩

end BitcoinAddress

end OfflineSigner
