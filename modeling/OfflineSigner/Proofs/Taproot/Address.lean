import OfflineSigner.Proofs.Address.Bitcoin
import OfflineSigner.Proofs.Taproot

/-!
# Taproot addresses

The text of a Taproot address is read back on the networks of its marker, and is a Taproot address of no others
(`isTaproot_text_program`). Main statement: `address_agrees`, that the address, the script and the output key of an internal key
are about one key.
-/

namespace OfflineSigner.Taproot

open Curve

/-- An output key may be written as a program. -/
theorem allowedLength_program (K : XOnlyKey) :
    Address.Bech32.allowedLength (program K).version (program K).bytes.length = true := by
  rw [program, K.toBytes.length_toList]
  rfl

/-- The text of an output key with a marker is read back on every network with the marker, and refused on the others. -/
theorem parse_text_program (K : XOnlyKey) (m : SegwitMarker) (network : Network) :
    BitcoinAddress.parse (BitcoinAddress.segwit m (program K)).text network =
      if SegwitMarker.ofNetwork network = m then .ok (.segwit m (program K)) else .error (.wrongNetwork network) :=
  BitcoinAddress.parse_text_segwit (show 1 ≤ 16 by decide) (allowedLength_program K) network

/-- The text of an output key with a marker is a Taproot address of exactly the networks with the marker. -/
theorem isTaproot_text_program (K : XOnlyKey) (m : SegwitMarker) (network : Network) :
    BitcoinAddress.isTaproot (BitcoinAddress.segwit m (program K)).text network = true ↔
      SegwitMarker.ofNetwork network = m := by
  have hkind : (BitcoinAddress.segwit m (program K)).kind? = some .p2tr := by
    simp [BitcoinAddress.kind?, program, K.toBytes.length_toList]
  rw [BitcoinAddress.isTaproot, parse_text_program]
  by_cases hm : SegwitMarker.ofNetwork network = m
  · simp [hm, hkind]
  · simp [hm]

/-- The address, the script and the output key of an internal key agree. The text of the address is read on its network as an
address with the script that has version one and the length in front of the output key; the script that is made from any written
form of the internal key is the same, and the output key is the one that commits to the internal key. On other networks the text
is a Taproot address only of those that cannot be told apart. -/
theorem address_agrees {internal : XOnlyKey} {q : OutputKey} (h : outputKey internal = .ok q) (network : Network) :
    ∃ a, address internal network = .ok a ∧ BitcoinAddress.parse a.text network = .ok a ∧
      a.script = 0x51 :: 0x20 :: q.key.toBytes.toList ∧ Commits internal q.key ∧
      (∀ bs ∈ forms internal, (parseInternalKey bs).bind script = .ok (0x51 :: 0x20 :: q.key.toBytes.toList)) ∧
      ∀ other, BitcoinAddress.isTaproot a.text other = true ↔
        other = network ∨ other ∈ [.testnet, .signet] ∧ network ∈ [Network.testnet, Network.signet] := by
  have hcommits := commits_of_outputKey h
  have hscript : script internal = .ok (0x51 :: 0x20 :: q.key.toBytes.toList) := by
    rw [script, h, ← programScript_program]
    rfl
  refine ⟨.segwit (SegwitMarker.ofNetwork network) (program q.key), ?_, ?_, programScript_program q.key, hcommits, ?_, ?_⟩
  · rw [address, h]
    rfl
  · rw [parse_text_program, if_pos rfl]
  · intro bs hbs
    obtain ⟨lifted, y, -, hlifted, -⟩ := hcommits.point
    rw [parseInternalKey_of_mem_forms (Point.onCurve_iff.mpr ⟨lifted, hlifted⟩) hbs, bind_ok, hscript]
  · intro other
    rw [isTaproot_text_program, SegwitMarker.ofNetwork_eq_iff]

/-- The address of the sample key on testnet is one of signet, too, and none of the main network. -/
theorem address_agrees_six :
    ∃ q a, outputKey six.xOnly = .ok q ∧ address six.xOnly .testnet = .ok a ∧
      a.script = 0x51 :: 0x20 :: q.key.toBytes.toList ∧ BitcoinAddress.isTaproot a.text .signet = true ∧
      BitcoinAddress.isTaproot a.text .mainnet = false := by
  obtain ⟨q, hq⟩ := Option.isSome_iff_exists.mp isSome_outputKey_six
  have hq : outputKey six.xOnly = .ok q := toOption_eq_some_iff.mp hq
  obtain ⟨a, ha, -, hscript, -, -, hnetworks⟩ := address_agrees hq .testnet
  refine ⟨q, a, hq, ha, hscript, (hnetworks .signet).mpr (by decide), ?_⟩
  rw [Bool.eq_false_iff, Ne, hnetworks .mainnet]
  decide

end OfflineSigner.Taproot
