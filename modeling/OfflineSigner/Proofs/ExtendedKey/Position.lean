import OfflineSigner.Account
import OfflineSigner.Proofs.Curve.Key
import OfflineSigner.Proofs.ExtendedKey

/-!
# Where a node stands in the tree

What a node that a path leads to from a seed says about itself: its keys belong together, its depth is the length of the path,
its child number is the last component, and its parent's fingerprint is that of the node one step before (`Stands`). Main
statement: `derive_stands`, that every seed of an allowed length and every path lead to such a node, unless a key on the way is
out of range; nothing else is reported.
-/

namespace OfflineSigner

open Curve

theorem childCount_pos : 0 < childCount := by decide

namespace ChildNumber

/-- The first child that is not hardened. -/
def zero : ChildNumber := ⟨0, false, childCount_pos⟩

/-- A serial number is not reduced. -/
theorem toNat_serial (number : ChildNumber) :
    number.serial.toNat = if number.hardened then number.index + childCount else number.index := by
  have hlt := number.index_lt
  unfold serial
  refine UInt32.toNat_ofNat_of_lt' ?_
  change _ < 4294967296
  unfold childCount at hlt ⊢
  split <;> omega

/-- The serial number of a child tells its index and whether it is hardened. -/
theorem ofSerial_serial (number : ChildNumber) : ofSerial number.serial = number := by
  have hserial := number.toNat_serial
  obtain ⟨index, hardened, hlt⟩ := number
  unfold ofSerial
  simp only [hserial, mk.injEq]
  cases hardened with
  | false => exact ⟨Nat.mod_eq_of_lt hlt, decide_eq_false (Nat.not_le.mpr hlt)⟩
  | true => exact ⟨by rw [if_pos rfl, Nat.add_mod_right, Nat.mod_eq_of_lt hlt], decide_eq_true (Nat.le_add_left _ _)⟩

end ChildNumber

namespace DerivationPath

/-- The path without its last component. -/
def parent (path : DerivationPath) : DerivationPath :=
  ⟨path.components.dropLast, by rw [List.length_dropLast]; exact (Nat.sub_le _ _).trans path.length_le⟩

/-- The last component of a path. The path of the master node has none, and zero in its place. -/
def last (path : DerivationPath) : ChildNumber := path.components.getLast?.getD ChildNumber.zero

end DerivationPath

namespace ExtendedKey

/-- The depth of a child is one more, and is not reduced. -/
theorem toNat_depth_childWith {node : ExtendedKey} (h : node.depth ≠ 255) (number : ChildNumber) (message : Bytes)
    (keys : Option SecretKey × PublicKey) : (node.childWith number message keys).depth.toNat = node.depth.toNat + 1 := by
  have hlt := node.depth.toNat_lt
  have hne : node.depth.toNat ≠ 255 := fun heq => h (UInt8.toNat_inj.mp heq)
  change (node.depth + 1).toNat = _
  rw [UInt8.toNat_add, UInt8.toNat_one]
  omega

/-- A node that steps are left for is not at the greatest depth. -/
theorem depth_ne_of_le {node : ExtendedKey} {steps : Nat} (h : node.depth.toNat + (steps + 1) ≤ 255) : node.depth ≠ 255 := by
  intro heq
  have hdepth : node.depth.toNat = 255 := congrArg UInt8.toNat heq
  omega

/-- A seed of an allowed length has a master node, unless its key is out of range. -/
theorem ofSeed_cases {seed : Bytes} (hmin : 16 ≤ seed.length) (hmax : seed.length ≤ 64) :
    (∃ e, ofSeed seed = .error e ∧ e.code = .invalidPrivateKeyFound) ∨ ∃ node, ofSeed seed = .ok node := by
  unfold ofSeed
  rw [if_neg (by omega)]
  dsimp only
  split
  · exact Or.inl ⟨_, rfl, rfl⟩
  · exact Or.inr ⟨_, rfl⟩

/-- What the master node says about its place. -/
theorem place_of_ofSeed {seed : Bytes} {node : ExtendedKey} (h : ofSeed seed = .ok node) :
    node.depth = 0 ∧ node.childNumber = ChildNumber.zero ∧ node.parentFingerprint = FixedBytes.replicate 4 0 := by
  unfold ofSeed at h
  split at h
  · cases h
  · dsimp only at h
    split at h
    · cases h
    · have hfirst : ChildNumber.ofSerial 0 = ChildNumber.zero := by decide
      cases h
      exact ⟨rfl, hfirst, rfl⟩

/-- Components that lead no deeper than nodes go lead from a keyed node to a keyed one as many steps deeper, unless a key on
the way is out of range. -/
theorem Keyed.foldlM_cases {node : ExtendedKey} {d : SecretKey} (hkeyed : Keyed node d) (numbers : List ChildNumber)
    (hdepth : node.depth.toNat + numbers.length ≤ 255) :
    (∃ e, numbers.foldlM ExtendedKey.child node = .error e ∧ e.code = .invalidPrivateKeyFound) ∨
      ∃ node' d', numbers.foldlM ExtendedKey.child node = .ok node' ∧ Keyed node' d' ∧
        node'.depth.toNat = node.depth.toNat + numbers.length := by
  induction numbers generalizing node d with
  | nil => exact Or.inr ⟨node, d, rfl, hkeyed, rfl⟩
  | cons number numbers ih =>
    rw [List.length_cons] at hdepth
    have hne := depth_ne_of_le hdepth
    rw [List.foldlM_cons]
    rcases hkeyed.child_cases hne number with ⟨e, he, hcode⟩ | ⟨message, d', hchild⟩
    · exact Or.inl ⟨e, by rw [he, error_bind], hcode⟩
    · have hkeyed' : Keyed (node.childWith number message (some d', d'.publicKey)) d' := ⟨rfl, rfl⟩
      have hdepth' := toNat_depth_childWith hne number message (some d', d'.publicKey)
      rw [hchild, ok_bind]
      rcases ih hkeyed' (by omega) with herror | ⟨last, d'', hlast, hkeyed'', hlength⟩
      · exact Or.inl herror
      · exact Or.inr ⟨last, d'', hlast, hkeyed'', by rw [hlength, hdepth', List.length_cons]; omega⟩

/-- What a child says about its place. -/
theorem Keyed.place_of_child {node node' : ExtendedKey} {d : SecretKey} (hkeyed : Keyed node d) {number : ChildNumber}
    (h : node.child number = .ok node') : node'.childNumber = number ∧ node'.parentFingerprint = node.fingerprint := by
  obtain ⟨message, d', rfl⟩ := hkeyed.eq_childWith h
  exact ⟨rfl, rfl⟩

/-! ## Nodes of a seed -/

/-- The empty path leads to the master node. -/
theorem ofSeed_of_derive {seed : Bytes} {path : DerivationPath} {node : ExtendedKey} (h : derive seed path = .ok node)
    (hnil : path.components = []) : ofSeed seed = .ok node := by
  obtain ⟨master, hmaster, hnode⟩ := bind_eq_ok_iff.mp h
  rw [descend, hnil] at hnode
  cases hnode
  exact hmaster

/-- Every other path leads to a child of the node that it leads to without its last component. -/
theorem child_of_derive {seed : Bytes} {path : DerivationPath} {node : ExtendedKey} (h : derive seed path = .ok node)
    (hne : path.components ≠ []) : ∃ parent, derive seed path.parent = .ok parent ∧ parent.child path.last = .ok node := by
  obtain ⟨master, hmaster, hnode⟩ := bind_eq_ok_iff.mp h
  have hsplit : path.parent.components ++ [path.last] = path.components := by
    rw [DerivationPath.last, List.getLast?_eq_some_getLast hne, Option.getD_some]
    exact List.dropLast_append_getLast hne
  rw [descend, ← hsplit, List.foldlM_append] at hnode
  obtain ⟨parent, hparent, hnode⟩ := bind_eq_ok_iff.mp hnode
  obtain ⟨child, hchild, hend⟩ := bind_eq_ok_iff.mp hnode
  cases hend
  exact ⟨parent, bind_eq_ok_iff.mpr ⟨master, hmaster, hparent⟩, hchild⟩

/-- A seed of an allowed length and a path lead to a keyed node at the depth of the path, unless a key on the way is out of
range. -/
theorem derive_cases {seed : Bytes} (hmin : 16 ≤ seed.length) (hmax : seed.length ≤ 64) (path : DerivationPath) :
    (∃ e, derive seed path = .error e ∧ e.code = .invalidPrivateKeyFound) ∨
      ∃ node d, derive seed path = .ok node ∧ Keyed node d ∧ node.depth.toNat = path.length := by
  unfold derive
  rcases ofSeed_cases hmin hmax with ⟨e, he, hcode⟩ | ⟨master, hmaster⟩
  · exact Or.inl ⟨e, by rw [he, error_bind], hcode⟩
  · obtain ⟨d, hkeyed⟩ := keyed_of_ofSeed hmaster
    have hzero : master.depth.toNat = 0 := congrArg UInt8.toNat (place_of_ofSeed hmaster).1
    have hlength := path.length_le
    rw [hmaster, ok_bind]
    rcases hkeyed.foldlM_cases path.components (by omega) with ⟨e, he, hcode⟩ | ⟨node, d', hnode, hkeyed', hdepth⟩
    · exact Or.inl ⟨e, he, hcode⟩
    · rw [hzero, Nat.zero_add] at hdepth
      exact Or.inr ⟨node, d', hnode, hkeyed', hdepth⟩

/-- What a node that a path leads to from a seed says about itself, with `d` its secret key. -/
structure Stands (seed : Bytes) (path : DerivationPath) (node : ExtendedKey) (d : SecretKey) : Prop where
  secret : node.secret = some d
  pos : 0 < d.scalar.val
  lt : d.scalar.val < groupOrder
  /-- The bytes of the secret key are read as that key. -/
  bytes : SecretKey.ofBytes d.toBytes.toList = .ok d
  publicKey : node.publicKey.toPoint = Point.ofGroup (d.scalar.val • base)
  depth : node.depth.toNat = path.length
  childNumber : node.childNumber = path.last
  serial : ChildNumber.ofSerial node.childNumber.serial = path.last
  /-- The master node has zeros in place of its parent's fingerprint. -/
  master : path.components = [] → node.parentFingerprint = FixedBytes.replicate 4 0
  /-- The parent is the node that the path leads to without its last component. -/
  parent : path.components ≠ [] → ∃ parent, derive seed path.parent = .ok parent ∧
    node.parentFingerprint.toList = (Hash.hash160 parent.publicKey.compressed.toList).toList.take 4

theorem stands_of_derive {seed : Bytes} {path : DerivationPath} {node : ExtendedKey} {d : SecretKey}
    (h : derive seed path = .ok node) (hkeyed : Keyed node d) (hdepth : node.depth.toNat = path.length) :
    Stands seed path node d := by
  have hpoint : node.publicKey.toPoint = Point.ofGroup (d.scalar.val • base) := by
    rw [hkeyed.publicKey, d.ofGroup_nsmul_base]
    rfl
  by_cases hnil : path.components = []
  · obtain ⟨-, hnumber, hfingerprint⟩ := place_of_ofSeed (ofSeed_of_derive h hnil)
    have hlast : node.childNumber = path.last := by rw [hnumber, DerivationPath.last, hnil]; rfl
    exact ⟨hkeyed.secret, d.val_pos, d.scalar.isLt, d.ofBytes_toBytes, hpoint, hdepth, hlast,
      (ChildNumber.ofSerial_serial _).trans hlast, fun _ => hfingerprint, fun hne => absurd hnil hne⟩
  · obtain ⟨parent, hparent, hchild⟩ := child_of_derive h hnil
    obtain ⟨d', hkeyed'⟩ := keyed_of_derive hparent
    obtain ⟨hlast, hfingerprint⟩ := hkeyed'.place_of_child hchild
    refine ⟨hkeyed.secret, d.val_pos, d.scalar.isLt, d.ofBytes_toBytes, hpoint, hdepth, hlast,
      (ChildNumber.ofSerial_serial _).trans hlast, fun hnil' => absurd hnil' hnil, fun _ => ⟨parent, hparent, ?_⟩⟩
    rw [hfingerprint]
    rfl

/-- Every seed of an allowed length and every path, however it was made, lead to a node that says where it stands, unless a key
on the way is out of range; nothing else is reported, and the secret key of the node can be taken out. -/
theorem derive_stands {seed : Bytes} (hmin : 16 ≤ seed.length) (hmax : seed.length ≤ 64) (path : DerivationPath) :
    (∃ e, derive seed path = .error e ∧ e.code = .invalidPrivateKeyFound) ∨
      ∃ node d, derive seed path = .ok node ∧ Stands seed path node d ∧ node.seededSecret = .ok d := by
  rcases derive_cases hmin hmax path with herror | ⟨node, d, hnode, hkeyed, hdepth⟩
  · exact Or.inl herror
  · refine Or.inr ⟨node, d, hnode, stands_of_derive hnode hkeyed hdepth, ?_⟩
    rw [seededSecret, hkeyed.secret]

/-- The sample path leads to a node that says where it stands. -/
theorem derive_stands_bip32 :
    ∃ node d, derive bip32Seed normalPath = .ok node ∧ Stands bip32Seed normalPath node d := by
  obtain ⟨master, node, hmaster, hnode⟩ := exists_descend_bip32
  have hderive : derive bip32Seed normalPath = .ok node := bind_eq_ok_iff.mpr ⟨master, hmaster, hnode⟩
  have hmin : 16 ≤ bip32Seed.length := by decide
  have hmax : bip32Seed.length ≤ 64 := by decide
  rcases derive_stands hmin hmax normalPath with ⟨e, he, -⟩ | ⟨node', d, hnode', hstands, -⟩
  · rw [hderive] at he
    cases he
  · exact ⟨node', d, hnode', hstands⟩

end ExtendedKey

end OfflineSigner
