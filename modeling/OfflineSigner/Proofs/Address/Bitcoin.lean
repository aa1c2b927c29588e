import OfflineSigner.Address.Bitcoin
import OfflineSigner.Proofs.Address.Bech32
import OfflineSigner.Proofs.Checked
import OfflineSigner.Proofs.Text

/-!
# What is read as an address

The statements that `BitcoinAddress.parse` reads the text of a segwit address as that address, on the networks of its marker
and on no others (`parse_text_segwit`), and that the script of whatever it reads is short (`length_script_of_parse`).
-/

namespace OfflineSigner

namespace Address.Bech32

/-- The visible characters are no blanks. -/
theorem isBlank_of_validMarker {marker : List Char} (h : validMarker marker = true) :
    ∀ c ∈ marker, Text.isBlank c = false := by
  intro c hc
  simp only [validMarker, Bool.and_eq_true, List.all_eq_true, decide_eq_true_eq] at h
  obtain ⟨-, hvisible⟩ := h
  have hrange := hvisible c hc
  simp [Text.isBlank]
  omega

theorem isBlank_digit : ∀ g : Fin 32, Text.isBlank (digit g.val) = false := by decide

/-- A text has no blanks. -/
theorem trimChars_encode {marker : String} {p : Program} (hmarker : Marker marker) (hversion : p.version ≤ 16) :
    Text.trimChars (encode marker p).toList = (encode marker p).toList := by
  apply Text.trimChars_eq_self
  intro c hc
  rw [toList_encode] at hc
  rcases List.mem_append.mp hc with hc | hc
  · exact isBlank_of_validMarker hmarker.valid c hc
  · rcases List.mem_cons.mp hc with rfl | hc
    · rfl
    · obtain ⟨g, hg, rfl⟩ := List.mem_map.mp hc
      exact isBlank_digit ⟨g, textGroups_lt hversion g hg⟩

end Address.Bech32

/-- The markers of the networks are written as markers are. -/
theorem SegwitMarker.marker (m : SegwitMarker) : Address.Bech32.Marker m.text := by
  cases m <;> exact ⟨by decide, by decide, by decide, by decide⟩

theorem SegwitMarker.ofText?_text (m : SegwitMarker) : ofText? m.text = some m := by
  cases m <;> decide

/-- Two networks have one marker when they are one network, or both testnet or signet. -/
theorem SegwitMarker.ofNetwork_eq_iff {network other : Network} :
    ofNetwork other = ofNetwork network ↔
      other = network ∨ other ∈ [.testnet, .signet] ∧ network ∈ [Network.testnet, Network.signet] := by
  cases network <;> cases other <;> decide

namespace BitcoinAddress

/-- The text of a segwit address is read as that address on every network with its marker, and refused on the others. -/
theorem parse_text_segwit {m : SegwitMarker} {p : Address.Bech32.Program} (hversion : p.version ≤ 16)
    (hlength : Address.Bech32.allowedLength p.version p.bytes.length = true) (network : Network) :
    parse (segwit m p).text network =
      if SegwitMarker.ofNetwork network = m then .ok (segwit m p) else .error (.wrongNetwork network) := by
  have hread : read (Address.Bech32.encode m.text p).toList = .ok (segwit m p) := by
    rw [read, Address.Bech32.decode?_encode m.marker hversion hlength]
    dsimp only
    rw [m.ofText?_text]
  have hfits : (segwit m p).fits network = true ↔ SegwitMarker.ofNetwork network = m := by
    rw [fits, beq_iff_eq, eq_comm]
  rw [parse, text, Address.Bech32.trimChars_encode m.marker hversion, hread]
  simp only [ok_bind, hfits]

/-! ## Scripts -/

theorem length_script_keyHash (test : Bool) (hash : FixedBytes 20) : (keyHash test hash).script.length = 25 := by
  simp [script, hash.length_toList]

theorem length_script_scriptHash (test : Bool) (hash : FixedBytes 20) : (scriptHash test hash).script.length = 23 := by
  simp [script, hash.length_toList]

theorem length_script_segwit (marker : SegwitMarker) (program : Address.Bech32.Program) :
    (segwit marker program).script.length = program.bytes.length + 2 := rfl

/-- The script of an address of the older family has at most 25 bytes. -/
theorem length_script_of_ofPayload {payload : Bytes} {a : BitcoinAddress} (h : ofPayload payload = .ok a) :
    a.script.length ≤ 25 := by
  have hkey := fun test hash => Nat.le_of_eq (length_script_keyHash test hash)
  have hscript := fun test hash => (Nat.le_of_eq (length_script_scriptHash test hash)).trans (by decide : 23 ≤ 25)
  unfold ofPayload at h
  split at h
  · split at h
    · cases h
    · split at h
      · cases h
        exact hkey _ _
      · split at h
        · cases h
          exact hscript _ _
        · split at h
          · cases h
            exact hkey _ _
          · split at h
            · cases h
              exact hscript _ _
            · cases h
  · cases h

/-- The script of an address that is read has at most 42 bytes. -/
theorem length_script_of_read {cs : List Char} {a : BitcoinAddress} (h : read cs = .ok a) : a.script.length ≤ 42 := by
  unfold read at h
  split at h
  · rename_i marker program hdecode
    split at h
    · cases h
      have hallowed := Address.Bech32.allowedLength_of_decode? hdecode
      have hle := Address.Bech32.length_le_of_allowedLength hallowed
      rw [length_script_segwit]
      omega
    · cases h
  · split at h
    · cases h
    · split at h
      · exact (length_script_of_ofPayload h).trans (by decide)
      · cases h

theorem length_script_of_parse {s : String} {network : Network} {a : BitcoinAddress} (h : parse s network = .ok a) :
    a.script.length ≤ 42 := by
  obtain ⟨a', hread, h⟩ := bind_eq_ok_iff.mp h
  split at h
  · cases h
    exact length_script_of_read hread
  · cases h

end BitcoinAddress

end OfflineSigner
