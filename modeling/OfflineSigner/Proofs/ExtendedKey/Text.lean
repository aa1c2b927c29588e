import OfflineSigner.Proofs.Address.Base58
import OfflineSigner.Proofs.ExtendedKey.Position

/-!
# The texts of a node tell all of it

What the 78 bytes of a node tell, read at their places (`Fields.ofPayload?`), is what the node says about itself, with the
version of the network and the key that was written (`ofText?_encodeChecked`). The public key of every node that can be reached
is a point of the curve (`Reachable.onCurve`), so its 33 bytes tell it. Main statement: `texts_lose_nothing`.
-/

namespace OfflineSigner

open Curve

/-- A serial number is that of the child that it tells. -/
theorem ChildNumber.serial_ofSerial (n : UInt32) : (ofSerial n).serial = n := by
  have hlt := n.toNat_lt
  apply UInt32.toNat_inj.mp
  rw [toNat_serial]
  by_cases hhardened : 0x80000000 ≤ n.toNat
  · simp only [ofSerial, childCount, hhardened, decide_true, if_true]
    omega
  · simp only [ofSerial, childCount, hhardened, decide_false, Bool.false_eq_true, if_false]
    omega

namespace ExtendedKey

/-! ## What the bytes tell -/

/-- What the text of a node tells. -/
structure Fields where
  version : Nat
  depth : Nat
  parentFingerprint : Bytes
  childNumber : Nat
  chainCode : Bytes
  key : Bytes
  deriving DecidableEq

namespace Fields

/-- The fields of 78 bytes, each at its place. -/
def ofPayload? (bs : Bytes) : Option Fields :=
  if bs.length = 78 then
    some {
      version := Bytes.toNatBE (bs.take 4)
      depth := Bytes.toNatBE ((bs.drop 4).take 1)
      parentFingerprint := (bs.drop 5).take 4
      childNumber := Bytes.toNatBE ((bs.drop 9).take 4)
      chainCode := (bs.drop 13).take 32
      key := bs.drop 45 }
  else none

/-- The fields of a text in base 58 with a checksum. -/
def ofText? (text : String) : Option Fields := (Address.Base58.decodeChecked? text.toList).bind ofPayload?

end Fields

/-- What a node says about itself, with a version and one of its keys. A child number is 2^31 more for a hardened child. -/
def fields (node : ExtendedKey) (version : Nat) (key : Bytes) : Fields where
  version := version
  depth := node.depth.toNat
  parentFingerprint := node.parentFingerprint.toList
  childNumber := if node.childNumber.hardened then node.childNumber.index + 2 ^ 31 else node.childNumber.index
  chainCode := node.chainCode.toList
  key := key

/-- The number of a node's child number is its serial number. -/
theorem childNumber_fields (node : ExtendedKey) (version : Nat) (key : Bytes) :
    (node.fields version key).childNumber = node.childNumber.serial.toNat := node.childNumber.toNat_serial.symm

/-- The bytes of a node tell what it says about itself. -/
theorem ofPayload?_payload (node : ExtendedKey) {version key : Bytes} (hversion : version.length = 4)
    (hkey : key.length = 33) : Fields.ofPayload? (node.payload version key) = some (node.fields version.toNatBE key) := by
  have hlength : (node.payload version key).length = 78 := by
    simp [payload, hversion, hkey, FixedBytes.length_toList, Bytes.length_ofNatBE]
  have hnumber : Bytes.toNatBE (Bytes.ofNatBE 4 node.childNumber.serial.toNat) = node.childNumber.serial.toNat :=
    Bytes.toNatBE_ofNatBE_of_lt node.childNumber.serial.toNat_lt
  have hdepth : Bytes.toNatBE [node.depth] = node.depth.toNat := by simp [Bytes.toNatBE]
  rw [Fields.ofPayload?, if_pos hlength, Option.some_inj, Fields.mk.injEq, childNumber_fields]
  simp [fields, payload, hversion, List.take_append, List.drop_append, FixedBytes.length_toList, Bytes.length_ofNatBE,
    List.drop_of_length_le, hnumber, hdepth]

/-- The text of a node tells what it says about itself. -/
theorem ofText?_encodeChecked (node : ExtendedKey) {version key : Bytes} (hversion : version.length = 4)
    (hkey : key.length = 33) : Fields.ofText? (Address.Base58.encodeChecked (node.payload version key)) =
      some (node.fields version.toNatBE key) := by
  rw [Fields.ofText?, Address.Base58.decodeChecked?_encodeChecked, Option.bind_some, node.ofPayload?_payload hversion hkey]

/-- The text with the public key tells it, with the public version of the network. -/
theorem ofText?_publicText (node : ExtendedKey) (network : Network) :
    Fields.ofText? (node.publicText network) =
      some (node.fields (if network = .mainnet then 0x0488b21e else 0x043587cf) node.publicKey.compressed.toList) := by
  have hkey := node.publicKey.compressed.length_toList
  cases network <;> exact node.ofText?_encodeChecked rfl hkey

/-- The text with the secret key tells it behind a zero byte, with the secret version of the network. -/
theorem exists_secretText {node : ExtendedKey} {d : SecretKey} (h : node.secret = some d) (network : Network) :
    ∃ text, node.secretText network = .ok text ∧
      Fields.ofText? text =
        some (node.fields (if network = .mainnet then 0x0488ade4 else 0x04358394) (0x00 :: d.toBytes.toList)) := by
  have hkey : (0x00 :: d.toBytes.toList).length = 33 := by rw [List.length_cons, d.toBytes.length_toList]
  refine ⟨Address.Base58.encodeChecked (node.payload (version true network) (0x00 :: d.toBytes.toList)), ?_, ?_⟩
  · simp [secretText, h]
  · cases network <;> exact node.ofText?_encodeChecked rfl hkey

/-- There is a text with the secret key unless there is no secret key. -/
theorem missing_iff (node : ExtendedKey) (network : Network) :
    (∃ e, node.secretText network = .error e ∧ e.code = .missingPrivateKey) ↔ node.secret = none := by
  cases h : node.secret with
  | none => simp [secretText, h, Error.code]
  | some d => simp [secretText, h]

/-! ## Nodes that can be reached -/

/-- The nodes that can be reached from a seed, or from the parts of a public node, by children, by paths, and by leaving the
secret key out. The public key of a public node is a point of the curve, and its child number is told by a serial number. -/
inductive Reachable : ExtendedKey → Prop
  | ofSeed {seed : Bytes} {node : ExtendedKey} (h : ofSeed seed = .ok node) : Reachable node
  | ofPublic {K : PublicKey} (hK : K.toPoint.OnCurve) (chainCode : FixedBytes 32) (depth : UInt8)
    (parentFingerprint : FixedBytes 4) (serial : UInt32) :
    Reachable (ofPublic K chainCode depth parentFingerprint (ChildNumber.ofSerial serial))
  | child {node node' : ExtendedKey} {number : ChildNumber} (hnode : Reachable node) (h : node.child number = .ok node') :
    Reachable node'
  | descend {node node' : ExtendedKey} {path : DerivationPath} (hnode : Reachable node) (h : node.descend path = .ok node') :
    Reachable node'
  | neuter {node : ExtendedKey} (hnode : Reachable node) : Reachable node.neuter

/-- The public key of a child is a point of the curve. -/
theorem onCurve_of_child {node node' : ExtendedKey} {number : ChildNumber} (hnode : node.publicKey.toPoint.OnCurve)
    (h : node.child number = .ok node') : node'.publicKey.toPoint.OnCurve := by
  obtain ⟨message, tweak, keys, hkeys, rfl⟩ := exists_childWith h
  change keys.2.toPoint.OnCurve
  unfold childKeys at hkeys
  split at hkeys
  · split at hkeys
    · rename_i d' _
      cases hkeys
      exact d'.onCurve_publicKey
    · cases hkeys
  · split at hkeys
    · rename_i hK
      cases hkeys
      exact PublicKey.onCurve_of_tweak? hnode hK
    · cases hkeys

/-- The public key of a node that can be reached is a point of the curve. -/
theorem Reachable.onCurve {node : ExtendedKey} (h : Reachable node) : node.publicKey.toPoint.OnCurve := by
  induction h with
  | ofSeed h =>
    obtain ⟨d, hkeyed⟩ := keyed_of_ofSeed h
    rw [hkeyed.publicKey]
    exact d.onCurve_publicKey
  | ofPublic hK => exact hK
  | child _ h ih => exact onCurve_of_child ih h
  | descend _ h ih => exact descend_induction (P := fun node => node.publicKey.toPoint.OnCurve) onCurve_of_child ih h
  | neuter _ ih => exact ih

/-! ## Nodes with one text -/

/-- What a node says about itself with its public key is all but its secret key. -/
theorem neuter_eq_of_fields {node node' : ExtendedKey} (hnode : Reachable node) (hnode' : Reachable node')
    {version version' : Nat}
    (h : node.fields version node.publicKey.compressed.toList = node'.fields version' node'.publicKey.compressed.toList) :
    node.neuter = node'.neuter := by
  have hnumber : node.childNumber.serial.toNat = node'.childNumber.serial.toNat := by
    rw [← childNumber_fields, h, childNumber_fields]
  obtain ⟨-, hdepth, hfingerprint, -, hchainCode, hkey⟩ := Fields.mk.inj h
  have hnumber := congrArg ChildNumber.ofSerial (UInt32.toNat_inj.mp hnumber)
  rw [ChildNumber.ofSerial_serial, ChildNumber.ofSerial_serial] at hnumber
  simp only [neuter, mk.injEq, true_and]
  exact ⟨PublicKey.eq_of_compressed hnode.onCurve hnode'.onCurve hkey, FixedBytes.eq_of_toList hchainCode,
    UInt8.toNat_inj.mp hdepth, FixedBytes.eq_of_toList hfingerprint, hnumber⟩

/-- Nodes with one text differ in their secret keys only, and the networks are both the main network or both not. -/
theorem eq_of_publicText {node node' : ExtendedKey} (hnode : Reachable node) (hnode' : Reachable node')
    {network network' : Network} (h : node.publicText network = node'.publicText network') :
    node.neuter = node'.neuter ∧ (network = .mainnet ↔ network' = .mainnet) := by
  have hfields := node.ofText?_publicText network
  rw [h, node'.ofText?_publicText network', Option.some_inj] at hfields
  refine ⟨neuter_eq_of_fields hnode hnode' hfields.symm, ?_⟩
  have hversion := congrArg Fields.version hfields
  simp only [fields] at hversion
  cases network <;> cases network' <;> simp at hversion ⊢

/-- The texts of a node lose nothing. The text with the public key, read in base 58 with its checksum, tells the version of the
network, what the node says about itself and the 33 bytes of the public key. The one with the secret key tells the same with the
secret version and the secret key, and is missing exactly when there is none. A public node with a given serial number has the
child number of that. So nodes with one public text, on any networks, differ in their secret keys only, and both networks are
the main network or none is; leaving the secret key out changes no public text. -/
theorem texts_lose_nothing {node : ExtendedKey} (hnode : Reachable node) :
    (∀ network, Fields.ofText? (node.publicText network) =
      some (node.fields (if network = .mainnet then 0x0488b21e else 0x043587cf) node.publicKey.compressed.toList)) ∧
    (∀ network, (∃ e, node.secretText network = .error e ∧ e.code = .missingPrivateKey) ↔ node.secret = none) ∧
    (∀ network d, node.secret = some d → ∃ text, node.secretText network = .ok text ∧
      Fields.ofText? text =
        some (node.fields (if network = .mainnet then 0x0488ade4 else 0x04358394) (0x00 :: d.toBytes.toList))) ∧
    (∀ n version key, node.childNumber = ChildNumber.ofSerial n → (node.fields version key).childNumber = n.toNat) ∧
    (∀ node', Reachable node' → ∀ network network', node.publicText network = node'.publicText network' →
      node.neuter = node'.neuter ∧ (network = .mainnet ↔ network' = .mainnet)) ∧
    ∀ network, node.neuter.publicText network = node.publicText network := by
  refine ⟨node.ofText?_publicText, node.missing_iff, fun network d h => exists_secretText h network, ?_, ?_, fun _ => rfl⟩
  · intro n version key hnumber
    rw [childNumber_fields, hnumber, ChildNumber.serial_ofSerial]
  · intro node' hnode' network network' h
    exact eq_of_publicText hnode hnode' h

/-- The node that the sample path leads to has a text that is read. -/
theorem texts_lose_nothing_bip32 :
    ∃ master node, ofSeed bip32Seed = .ok master ∧ master.descend normalPath = .ok node ∧
      Fields.ofText? (node.publicText .mainnet) = some (node.fields 0x0488b21e node.publicKey.compressed.toList) ∧
      (∃ text fields, node.secretText .testnet = .ok text ∧ Fields.ofText? text = some fields ∧ fields.version = 0x04358394) := by
  obtain ⟨master, node, hmaster, hnode⟩ := exists_descend_bip32
  obtain ⟨hpublic, -, hsecret, -⟩ := texts_lose_nothing (.descend (.ofSeed hmaster) hnode)
  obtain ⟨d, hkeyed⟩ := keyed_of_ofSeed hmaster
  obtain ⟨d', hkeyed'⟩ := hkeyed.descend hnode
  obtain ⟨text, htext, hfields⟩ := hsecret .testnet d' hkeyed'.secret
  exact ⟨master, node, hmaster, hnode, hpublic .mainnet, text, _, htext, hfields, rfl⟩

end ExtendedKey

end OfflineSigner
