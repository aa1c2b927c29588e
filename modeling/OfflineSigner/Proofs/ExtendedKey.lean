import OfflineSigner.ExtendedKey
import OfflineSigner.Proofs.Checked

/-!
# Nodes with a secret key

What one step down the tree does (`child_of_depth_eq`, `child_of_childMessage`), what a child has from its parent
(`exists_childWith`), and what holds along a path because every step keeps it (`descend_induction`). `Keyed node d` says that `d`
is the secret key of a node and that the node's public key belongs to it. The master node is keyed, a child of a keyed node is,
and so is every node that a path leads to (`keyed_of_derive`).
-/

namespace OfflineSigner.ExtendedKey

open Curve

/-! ## One step -/

/-- The tweak of the child that a message gives, when it is in range. -/
def childTweak? (node : ExtendedKey) (message : Bytes) : Option Scalar :=
  Scalar.ofBytes? ((Hash.hmacSha512 node.chainCode.toList message).toList.take 32)

/-- The child that a message gives, with its keys. -/
def childWith (node : ExtendedKey) (number : ChildNumber) (message : Bytes) (keys : Option SecretKey × PublicKey) :
    ExtendedKey where
  secret := keys.1
  publicKey := keys.2
  chainCode := (Hash.hmacSha512 node.chainCode.toList message).drop 32
  depth := node.depth + 1
  parentFingerprint := node.fingerprint
  childNumber := number

/-- Below the deepest nodes there are none. -/
theorem child_of_depth_eq {node : ExtendedKey} {number : ChildNumber} (h : node.depth = 255) :
    node.child number = .error .depth := by
  unfold ExtendedKey.child
  rw [if_pos h]
  rfl

/-- Without a message there is no child. -/
theorem child_of_childMessage_eq_error {node : ExtendedKey} {number : ChildNumber} {e : Error} (hdepth : node.depth ≠ 255)
    (h : node.childMessage number = .error e) : node.child number = .error e := by
  unfold ExtendedKey.child
  rw [if_neg hdepth, h]
  rfl

/-- A message gives a child when its tweak is in range and the tweaked keys are keys. -/
theorem child_of_childMessage {node : ExtendedKey} {number : ChildNumber} {message : Bytes} (hdepth : node.depth ≠ 255)
    (h : node.childMessage number = .ok message) :
    node.child number = (node.childTweak? message).elim (.error (.tweakRange number)) fun tweak =>
      (node.childKeys number tweak).map (node.childWith number message) := by
  unfold ExtendedKey.child
  rw [if_neg hdepth, h, ok_bind, childTweak?]
  dsimp only
  cases Scalar.ofBytes? ((Hash.hmacSha512 node.chainCode.toList message).toList.take 32) with
  | none => rfl
  | some tweak => cases node.childKeys number tweak <;> rfl

/-- A child is made of a message and of the parent's keys, tweaked. -/
theorem exists_childWith {node node' : ExtendedKey} {number : ChildNumber} (h : node.child number = .ok node') :
    ∃ message tweak keys, node.childKeys number tweak = .ok keys ∧ node' = node.childWith number message keys := by
  by_cases hdepth : node.depth = 255
  · rw [child_of_depth_eq hdepth] at h
    cases h
  · cases hmessage : node.childMessage number with
    | error e =>
      rw [child_of_childMessage_eq_error hdepth hmessage] at h
      cases h
    | ok message =>
      rw [child_of_childMessage hdepth hmessage] at h
      cases htweak : node.childTweak? message with
      | none =>
        rw [htweak] at h
        cases h
      | some tweak =>
        rw [htweak, Option.elim_some] at h
        cases hkeys : node.childKeys number tweak with
        | error e =>
          rw [hkeys] at h
          cases h
        | ok keys =>
          rw [hkeys] at h
          exact ⟨message, tweak, keys, hkeys, (Except.ok.inj h).symm⟩

/-- What every step keeps holds of the node that a path leads to. -/
theorem descend_induction {P : ExtendedKey → Prop}
    (hstep : ∀ {node node' : ExtendedKey} {number : ChildNumber}, P node → node.child number = .ok node' → P node')
    {node node' : ExtendedKey} {path : DerivationPath} (hnode : P node) (h : node.descend path = .ok node') : P node' := by
  unfold descend at h
  -- Along the components, from any node of which it holds.
  generalize path.components = components at h
  induction components generalizing node with
  | nil =>
    cases h
    exact hnode
  | cons number components ih =>
    rw [List.foldlM_cons] at h
    obtain ⟨next, hnext, h⟩ := bind_eq_ok_iff.mp h
    exact ih (hstep hnode hnext) h

/-! ## Keyed nodes -/

/-- Whether a node has a given secret key, and the public key that belongs to it. -/
structure Keyed (node : ExtendedKey) (d : SecretKey) : Prop where
  secret : node.secret = some d
  publicKey : node.publicKey = d.publicKey

/-- The master node is keyed. -/
theorem keyed_of_ofSeed {seed : Bytes} {node : ExtendedKey} (h : ofSeed seed = .ok node) : ∃ d, Keyed node d := by
  unfold ofSeed at h
  split at h
  · cases h
  · dsimp only at h
    split at h
    · cases h
    · rename_i d _
      cases h
      exact ⟨d, rfl, rfl⟩

/-- A keyed node has a message for every child. -/
theorem Keyed.childMessage {node : ExtendedKey} {d : SecretKey} (hkeyed : Keyed node d) (number : ChildNumber) :
    ∃ message, node.childMessage number = .ok message := by
  unfold ExtendedKey.childMessage
  rw [hkeyed.secret]
  split
  · exact ⟨_, rfl⟩
  · exact ⟨_, rfl⟩

/-- The keys of a child of a keyed node belong together. -/
theorem Keyed.childKeys {node : ExtendedKey} {d : SecretKey} (hkeyed : Keyed node d) (number : ChildNumber)
    (tweak : Scalar) : node.childKeys number tweak =
      (d.tweak? tweak).elim (.error (.zeroSecret number)) fun d' => .ok (some d', d'.publicKey) := by
  unfold ExtendedKey.childKeys
  rw [hkeyed.secret]
  dsimp only
  cases d.tweak? tweak <;> rfl

/-- A keyed node that is not among the deepest has a child with a secret key, unless the tweak is out of range or leads to
zero. -/
theorem Keyed.child_cases {node : ExtendedKey} {d : SecretKey} (hkeyed : Keyed node d) (hdepth : node.depth ≠ 255)
    (number : ChildNumber) :
    (∃ e, node.child number = .error e ∧ e.code = .invalidPrivateKeyFound) ∨
      ∃ message d', node.child number = .ok (node.childWith number message (some d', d'.publicKey)) := by
  obtain ⟨message, hmessage⟩ := hkeyed.childMessage number
  rw [child_of_childMessage hdepth hmessage]
  cases node.childTweak? message with
  | none => exact Or.inl ⟨_, rfl, rfl⟩
  | some tweak =>
    rw [Option.elim_some, hkeyed.childKeys]
    cases d.tweak? tweak with
    | none => exact Or.inl ⟨_, rfl, rfl⟩
    | some d' => exact Or.inr ⟨message, d', rfl⟩

/-- A child of a keyed node has a secret key and the public key that belongs to it. -/
theorem Keyed.eq_childWith {node : ExtendedKey} {d : SecretKey} (hkeyed : Keyed node d) {number : ChildNumber}
    {node' : ExtendedKey} (h : node.child number = .ok node') :
    ∃ message d', node' = node.childWith number message (some d', d'.publicKey) := by
  obtain ⟨message, tweak, keys, hkeys, rfl⟩ := exists_childWith h
  rw [hkeyed.childKeys] at hkeys
  cases hd : d.tweak? tweak with
  | none =>
    rw [hd] at hkeys
    cases hkeys
  | some d' =>
    rw [hd] at hkeys
    cases hkeys
    exact ⟨message, d', rfl⟩

/-- A child of a keyed node is keyed. -/
theorem Keyed.child {node : ExtendedKey} {d : SecretKey} (hkeyed : Keyed node d) {number : ChildNumber}
    {node' : ExtendedKey} (h : node.child number = .ok node') : ∃ d', Keyed node' d' := by
  obtain ⟨message, d', rfl⟩ := hkeyed.eq_childWith h
  exact ⟨d', rfl, rfl⟩

/-- The node that a path leads to from a keyed node is keyed. -/
theorem Keyed.descend {node : ExtendedKey} {d : SecretKey} (hkeyed : Keyed node d) {path : DerivationPath}
    {node' : ExtendedKey} (h : node.descend path = .ok node') : ∃ d', Keyed node' d' := by
  refine descend_induction (P := fun node => ∃ d, Keyed node d) ?_ ⟨d, hkeyed⟩ h
  rintro node node' number ⟨d, hkeyed⟩ hchild
  exact hkeyed.child hchild

/-- Every node that a path leads to from a seed is keyed. -/
theorem keyed_of_derive {seed : Bytes} {path : DerivationPath} {node : ExtendedKey} (h : derive seed path = .ok node) :
    ∃ d, Keyed node d := by
  obtain ⟨master, hmaster, h⟩ := bind_eq_ok_iff.mp h
  obtain ⟨d, hkeyed⟩ := keyed_of_ofSeed hmaster
  exact hkeyed.descend h

/-! ## A sample -/

/-- The seed of the first examples of BIP-32. -/
def bip32Seed : Bytes := Bytes.ofNatBE 16 0x000102030405060708090a0b0c0d0e0f

/-- The path `m/0/5`. -/
def normalPath : DerivationPath := ⟨[⟨0, false, by decide⟩, ⟨5, false, by decide⟩], by decide⟩

/-- The path `m/0/5'`. -/
def mixedPath : DerivationPath := ⟨[⟨0, false, by decide⟩, ⟨5, true, by decide⟩], by decide⟩

theorem isSome_descend_bip32 :
    ((ofSeed bip32Seed).toOption.bind fun master => (master.descend normalPath).toOption).isSome = true := by decide +kernel

/-- The seed has a master node, and the path leads from it to a node. -/
theorem exists_descend_bip32 :
    ∃ master node, ofSeed bip32Seed = .ok master ∧ master.descend normalPath = .ok node := by
  obtain ⟨node, hbind⟩ := Option.isSome_iff_exists.mp isSome_descend_bip32
  obtain ⟨master, hmaster, hnode⟩ := Option.bind_eq_some_iff.mp hbind
  exact ⟨master, node, toOption_eq_some_iff.mp hmaster, toOption_eq_some_iff.mp hnode⟩

end OfflineSigner.ExtendedKey
