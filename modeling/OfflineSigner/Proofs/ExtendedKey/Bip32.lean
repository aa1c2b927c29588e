import OfflineSigner.Proofs.Curve.Key
import OfflineSigner.Proofs.ExtendedKey.Position

/-!
# Derivation by the rules of BIP-32

The rules themselves, on numbers and in the group of the curve: a key is a number, a child's key is the left half of a keyed
hash added to it modulo the order, and a result is invalid when that half is out of range or the sum is zero (`Bip32.derive`).
Along a path that is valid throughout, the key is the master key and all the left halves added up (`Bip32.key_of_walk`).
`Follows node d r` says that a node of the tree, with the secret key `d`, is the node `r` of the rules; one step keeps this, or
fails where the rules do. Main statement: `derive_refines`, for every seed and every path.
-/

namespace OfflineSigner

open Curve

/-! ## The rules -/

namespace Bip32

/-- A node: its key, which is a number, and its chain code. -/
structure Node where
  key : Nat
  chainCode : Bytes

/-- What the rules declare invalid. -/
inductive Invalid where
  /-- A master key that is zero or not below the order. -/
  | master
  /-- A child whose hash has a left half that is not below the order. -/
  | tweak (number : ChildNumber)
  /-- A child whose key is zero. -/
  | zero (number : ChildNumber)

/-- The left half of a keyed hash, a number. -/
def left (i : FixedBytes 64) : Nat := Bytes.toNatBE (i.toList.take 32)

/-- The right half of a keyed hash, a chain code. -/
def right (i : FixedBytes 64) : Bytes := i.toList.drop 32

/-- The written form of a point: the parity of its second coordinate, and its first coordinate. -/
def pointBytes : Point → Bytes
  | .infinity => []
  | .affine x y => (if y.val % 2 = 0 then 0x02 else 0x03) :: Bytes.ofNatBE 32 x.val

/-- The master node of a seed, valid or not. -/
def master (seed : Bytes) : Node :=
  let i := Hash.hmacSha512 (Text.utf8 "Bitcoin seed") seed
  ⟨left i, right i⟩

theorem key_master (seed : Bytes) :
    (master seed).key = Bytes.toNatBE ((Hash.hmacSha512 (Text.utf8 "Bitcoin seed") seed).toList.take 32) := rfl

theorem chainCode_master (seed : Bytes) :
    (master seed).chainCode = ((Hash.hmacSha512 (Text.utf8 "Bitcoin seed") seed).drop 32).toList := rfl

/-- What is hashed for a child: a zero byte and the key for a hardened one, the public point for another, and then the index,
which is `2 ^ 31` more for a hardened one. -/
noncomputable def Node.message (node : Node) (number : ChildNumber) : Bytes :=
  if number.hardened then 0x00 :: Bytes.ofNatBE 32 node.key ++ Bytes.ofNatBE 4 (number.index + 2 ^ 31)
  else pointBytes (Point.ofGroup (node.key • base)) ++ Bytes.ofNatBE 4 number.index

/-- The hash of a child. -/
noncomputable def Node.hash (node : Node) (number : ChildNumber) : FixedBytes 64 :=
  Hash.hmacSha512 node.chainCode (node.message number)

/-- What is added to the key for a child. -/
noncomputable def Node.tweak (node : Node) (number : ChildNumber) : Nat := left (node.hash number)

/-- A child, valid or not. -/
noncomputable def Node.child (node : Node) (number : ChildNumber) : Node :=
  ⟨(node.tweak number + node.key) % groupOrder, right (node.hash number)⟩

theorem Node.key_child (node : Node) (number : ChildNumber) :
    (node.child number).key = (node.tweak number + node.key) % groupOrder := rfl

/-- The node that child numbers lead to, or the first invalid result with its step, when the first child is step `place`. -/
noncomputable def walk (place : Nat) (node : Node) : List ChildNumber → Except (Nat × Invalid) Node
  | [] => .ok node
  | number :: numbers =>
    if groupOrder ≤ node.tweak number then .error (place, .tweak number)
    else if (node.child number).key = 0 then .error (place, .zero number)
    else walk (place + 1) (node.child number) numbers

/-- The node that child numbers lead to from a seed, or the first invalid result with its step. The master node is step zero. -/
noncomputable def derive (seed : Bytes) (numbers : List ChildNumber) : Except (Nat × Invalid) Node :=
  if (master seed).key = 0 ∨ groupOrder ≤ (master seed).key then .error (0, .master) else walk 1 (master seed) numbers

/-- All that is added to the key along child numbers, not reduced. -/
noncomputable def tweaks (node : Node) : List ChildNumber → List Nat
  | [] => []
  | number :: numbers => node.tweak number :: tweaks (node.child number) numbers

/-- How an invalid result is reported. -/
def Invalid.report : Invalid → ExtendedKey.Error
  | .master => .masterRange
  | .tweak number => .tweakRange number
  | .zero number => .zeroSecret number

/-- The key at the end is the first key and all that is added to it, reduced once. -/
theorem key_of_walk {place : Nat} {node r : Node} {numbers : List ChildNumber} (h : walk place node numbers = .ok r)
    (hlt : node.key < groupOrder) : r.key = (node.key + (tweaks node numbers).sum) % groupOrder := by
  induction numbers generalizing place node with
  | nil =>
    cases h
    rw [tweaks, List.sum_nil, Nat.add_zero, Nat.mod_eq_of_lt hlt]
  | cons number numbers ih =>
    rw [walk] at h
    split at h
    · cases h
    · split at h
      · cases h
      · have hnext : (node.child number).key < groupOrder := Nat.mod_lt _ (by decide)
        rw [ih h hnext, tweaks, List.sum_cons, node.key_child, Nat.mod_add_mod]
        congr 1
        omega

/-- No step before the first one is invalid. -/
theorem le_of_walk {place last : Nat} {node : Node} {numbers : List ChildNumber} {fault : Invalid}
    (h : walk place node numbers = .error (last, fault)) : place ≤ last := by
  induction numbers generalizing place node with
  | nil => cases h
  | cons number numbers ih =>
    rw [walk] at h
    split at h
    · cases h
      exact Nat.le_refl _
    · split at h
      · cases h
        exact Nat.le_refl _
      · exact Nat.le_of_succ_le (ih h)

/-- The steps are valid up to the one that is not. -/
theorem walk_take_iff {place last : Nat} {node : Node} {numbers : List ChildNumber} {fault : Invalid}
    (h : walk place node numbers = .error (last, fault)) (n : Nat) :
    (∃ r, walk place node (numbers.take n) = .ok r) ↔ place + n ≤ last := by
  -- The shorter path takes the same steps from the same nodes, so the induction is on both at once.
  induction numbers generalizing place node n with
  | nil => cases h
  | cons number numbers ih =>
    cases n with
    | zero => exact iff_of_true ⟨node, rfl⟩ (le_of_walk h)
    | succ n =>
      rw [walk] at h
      rw [List.take_succ_cons, walk]
      split at h
      · rename_i htweak
        cases h
        rw [if_pos htweak]
        simp
      · rename_i htweak
        split at h
        · rename_i hzero
          cases h
          rw [if_neg htweak, if_pos hzero]
          simp
        · rename_i hzero
          rw [if_neg htweak, if_neg hzero, ih h]
          omega

/-- The key at the end of a path is the master key and all that is added to it, reduced once. -/
theorem key_of_derive {seed : Bytes} {numbers : List ChildNumber} {r : Node} (h : derive seed numbers = .ok r) :
    r.key = ((master seed).key + (tweaks (master seed) numbers).sum) % groupOrder := by
  unfold derive at h
  split at h
  · cases h
  · exact key_of_walk h (by omega)

/-- Where a result is invalid, exactly the paths that end before its step lead to a node. -/
theorem derive_take_iff {seed : Bytes} {numbers : List ChildNumber} {last : Nat} {fault : Invalid}
    (h : derive seed numbers = .error (last, fault)) (n : Nat) :
    (∃ r, derive seed (numbers.take n) = .ok r) ↔ n < last := by
  unfold derive at h ⊢
  split at h
  · rename_i hmaster
    cases h
    rw [if_pos hmaster]
    simp
  · rename_i hmaster
    rw [if_neg hmaster, walk_take_iff h]
    omega

end Bip32

/-! ## Nodes that follow the rules -/

namespace DerivationPath

/-- The path of the first components. -/
def take (n : Nat) (path : DerivationPath) : DerivationPath :=
  ⟨path.components.take n, (List.length_take_le' n _).trans path.length_le⟩

end DerivationPath

namespace ExtendedKey

/-- The written form of a public key is that of its point. -/
theorem toList_compressed (d : SecretKey) :
    d.publicKey.compressed.toList = Bip32.pointBytes (Point.ofGroup (d.scalar.val • base)) := by
  rw [d.ofGroup_nsmul_base]
  simp [PublicKey.compressed, Bip32.pointBytes, SecretKey.xOnly, PublicKey.xOnly, FieldElement.isEven, FieldElement.toBytes,
    FixedBytes.ofNatBE]

/-- Whether a node has the secret key `d` and is a node of the rules. -/
structure Follows (node : ExtendedKey) (d : SecretKey) (r : Bip32.Node) : Prop where
  keyed : Keyed node d
  key : d.scalar.val = r.key
  chainCode : node.chainCode.toList = r.chainCode

namespace Follows

variable {node : ExtendedKey} {d : SecretKey} {r : Bip32.Node}

/-- What is hashed for a child is what the rules say. -/
theorem childMessage (h : Follows node d r) (number : ChildNumber) :
    node.childMessage number = .ok (r.message number) := by
  unfold ExtendedKey.childMessage Bip32.Node.message
  rw [number.toNat_serial, h.keyed.secret, h.keyed.publicKey, toList_compressed, h.key]
  cases number.hardened with
  | false => rfl
  | true =>
    have hbytes : d.toBytes.toList = Bytes.ofNatBE 32 r.key := by rw [← h.key]; rfl
    simp only [if_true, hbytes]
    rfl

/-- What is added to the key is what the rules say, when it is in range. -/
theorem childTweak? (h : Follows node d r) (number : ChildNumber) :
    node.childTweak? (r.message number) =
      if hlt : r.tweak number < groupOrder then some ⟨r.tweak number, hlt⟩ else none := by
  unfold ExtendedKey.childTweak?
  rw [h.chainCode]
  rfl

/-- A step whose left half is out of range fails. -/
theorem child_of_tweak (h : Follows node d r) (hdepth : node.depth ≠ 255) {number : ChildNumber}
    (htweak : groupOrder ≤ r.tweak number) : node.child number = .error (.tweakRange number) := by
  rw [child_of_childMessage hdepth (h.childMessage number), h.childTweak?, dif_neg (Nat.not_lt.mpr htweak)]
  rfl

/-- A step in range is a step of the secret key. -/
theorem child_eq (h : Follows node d r) (hdepth : node.depth ≠ 255) {number : ChildNumber}
    (htweak : r.tweak number < groupOrder) :
    node.child number = (d.tweak? ⟨r.tweak number, htweak⟩).elim (.error (.zeroSecret number)) fun d' =>
      .ok (node.childWith number (r.message number) (some d', d'.publicKey)) := by
  rw [child_of_childMessage hdepth (h.childMessage number), h.childTweak?, dif_pos htweak, Option.elim_some,
    h.keyed.childKeys]
  cases d.tweak? ⟨r.tweak number, htweak⟩ <;> rfl

/-- The tweaked scalar is the key of the rules' child. -/
theorem val_add (h : Follows node d r) {number : ChildNumber} (htweak : r.tweak number < groupOrder) :
    (d.scalar + ⟨r.tweak number, htweak⟩ : Scalar).val = (r.child number).key := by
  rw [Fin.val_add, h.key, Nat.add_comm, r.key_child]

/-- A step that leads to zero fails. -/
theorem child_of_zero (h : Follows node d r) (hdepth : node.depth ≠ 255) {number : ChildNumber}
    (htweak : r.tweak number < groupOrder) (hzero : (r.child number).key = 0) :
    node.child number = .error (.zeroSecret number) := by
  have hscalar : d.scalar + ⟨r.tweak number, htweak⟩ = (0 : Scalar) := Fin.ext ((h.val_add htweak).trans hzero)
  rw [h.child_eq hdepth htweak, SecretKey.tweak?_eq_none hscalar, Option.elim_none]

/-- A valid step leads to a node that follows the rules, one step deeper. -/
theorem exists_child (h : Follows node d r) (hdepth : node.depth ≠ 255) {number : ChildNumber}
    (htweak : r.tweak number < groupOrder) (hzero : (r.child number).key ≠ 0) :
    ∃ node' d', node.child number = .ok node' ∧ Follows node' d' (r.child number) ∧
      node'.depth.toNat = node.depth.toNat + 1 := by
  have hne : d.scalar + ⟨r.tweak number, htweak⟩ ≠ (0 : Scalar) := by
    intro heq
    exact hzero ((h.val_add htweak).symm.trans (congrArg Fin.val heq))
  obtain ⟨d', hd', hscalar⟩ := SecretKey.exists_tweak? hne
  have hchild := h.child_eq hdepth htweak
  rw [hd', Option.elim_some] at hchild
  have hchainCode : (node.childWith number (r.message number) (some d', d'.publicKey)).chainCode.toList =
      (r.child number).chainCode := by
    rw [ExtendedKey.childWith, h.chainCode]
    rfl
  exact ⟨_, d', hchild, ⟨⟨rfl, rfl⟩, by rw [hscalar, h.val_add], hchainCode⟩, toNat_depth_childWith hdepth _ _ _⟩

/-- Child numbers lead where the rules lead, or fail where the rules declare a result invalid. -/
theorem walk (h : Follows node d r) (place : Nat) (numbers : List ChildNumber)
    (hdepth : node.depth.toNat + numbers.length ≤ 255) :
    (∀ r', Bip32.walk place r numbers = .ok r' →
      ∃ node' d', numbers.foldlM ExtendedKey.child node = .ok node' ∧ Follows node' d' r') ∧
    ∀ last fault, Bip32.walk place r numbers = .error (last, fault) →
      numbers.foldlM ExtendedKey.child node = .error fault.report := by
  induction numbers generalizing node d r place with
  | nil =>
    refine ⟨fun r' hr' => ?_, nofun⟩
    cases hr'
    exact ⟨node, d, rfl, h⟩
  | cons number numbers ih =>
    rw [List.length_cons] at hdepth
    have hne := depth_ne_of_le hdepth
    rw [Bip32.walk, List.foldlM_cons]
    split
    · rename_i htweak
      refine ⟨nofun, fun last fault hfault => ?_⟩
      cases hfault
      rw [h.child_of_tweak hne htweak, error_bind]
      rfl
    · rename_i htweak
      have htweak := Nat.not_le.mp htweak
      split
      · rename_i hzero
        refine ⟨nofun, fun last fault hfault => ?_⟩
        cases hfault
        rw [h.child_of_zero hne htweak hzero, error_bind]
        rfl
      · rename_i hzero
        obtain ⟨node', d', hchild, hfollows, hdepth'⟩ := h.exists_child hne htweak hzero
        rw [hchild, ok_bind]
        exact ih hfollows (place + 1) (by omega)

end Follows

/-! ## Nodes of a seed -/

theorem length_take_hmacSha512 (key message : Bytes) : ((Hash.hmacSha512 key message).toList.take 32).length = 32 := by
  rw [List.length_take, FixedBytes.length_toList]
  rfl

/-- A valid master node follows the rules. -/
theorem follows_of_ofSeed {seed : Bytes} (hmin : 16 ≤ seed.length) (hmax : seed.length ≤ 64)
    (hpos : 0 < (Bip32.master seed).key) (hlt : (Bip32.master seed).key < groupOrder) :
    ∃ node d, ofSeed seed = .ok node ∧ Follows node d (Bip32.master seed) ∧ node.depth.toNat = 0 := by
  rw [Bip32.key_master] at hpos hlt
  obtain ⟨d, hbytes, hval⟩ := SecretKey.exists_of_bytes (length_take_hmacSha512 _ _) hpos hlt
  rw [← Bip32.key_master] at hval
  unfold ofSeed
  rw [if_neg (by omega)]
  dsimp only
  rw [SecretKey.ofBytes_eq_ok_iff.mpr hbytes]
  exact ⟨_, d, rfl, ⟨⟨rfl, rfl⟩, hval, (Bip32.chainCode_master seed).symm⟩, rfl⟩

/-- Without a valid master node there is none. -/
theorem ofSeed_of_master {seed : Bytes} (hmin : 16 ≤ seed.length) (hmax : seed.length ≤ 64)
    (h : (Bip32.master seed).key = 0 ∨ groupOrder ≤ (Bip32.master seed).key) : ofSeed seed = .error .masterRange := by
  unfold ofSeed
  rw [if_neg (by omega)]
  dsimp only
  split
  · rfl
  · rename_i d hd
    have hkey := congrArg Bytes.toNatBE (SecretKey.ofBytes_eq_ok_iff.mp hd)
    rw [SecretKey.toBytes, Scalar.toNatBE_toBytes, ← Bip32.key_master] at hkey
    rcases h with hzero | hle
    · exact absurd (hkey.trans hzero) d.val_pos.ne'
    · exact absurd (hle.trans_eq hkey.symm) (Nat.not_le.mpr d.scalar.isLt)

/-- A seed of an allowed length and a path lead where the rules lead, or fail as the rules do. -/
theorem derive_of_rules {seed : Bytes} (hmin : 16 ≤ seed.length) (hmax : seed.length ≤ 64) (path : DerivationPath) :
    (∀ r, Bip32.derive seed path.components = .ok r → ∃ node d, derive seed path = .ok node ∧ Follows node d r) ∧
    ∀ last fault, Bip32.derive seed path.components = .error (last, fault) → derive seed path = .error fault.report := by
  unfold derive Bip32.derive
  split
  · rename_i hmaster
    refine ⟨nofun, fun last fault hfault => ?_⟩
    cases hfault
    rw [ofSeed_of_master hmin hmax hmaster, error_bind]
    rfl
  · rename_i hmaster
    obtain ⟨master, d, hmaster, hfollows, hzero⟩ := follows_of_ofSeed hmin hmax (by omega) (by omega)
    have hlength := path.length_le
    rw [hmaster, ok_bind]
    exact hfollows.walk 1 path.components (by omega)

/-- A path leads to a node exactly when the rules lead to one. -/
theorem exists_derive_iff {seed : Bytes} (hmin : 16 ≤ seed.length) (hmax : seed.length ≤ 64) (path : DerivationPath) :
    (∃ node, derive seed path = .ok node) ↔ ∃ r, Bip32.derive seed path.components = .ok r := by
  obtain ⟨hok, herror⟩ := derive_of_rules hmin hmax path
  constructor
  · rintro ⟨node, hnode⟩
    cases hrules : Bip32.derive seed path.components with
    | ok r => exact ⟨r, rfl⟩
    | error fault =>
      rw [herror fault.1 fault.2 hrules] at hnode
      cases hnode
  · rintro ⟨r, hr⟩
    obtain ⟨node, d, hnode, -⟩ := hok r hr
    exact ⟨node, hnode⟩

/-- Derivation goes by the rules. Where they lead to a node there is that node: its secret key is the rules' key, which is the
master key and all that is added to it along the path, reduced once, and its chain code is theirs. Where they declare a result
invalid that is reported, and exactly the paths that end before that step lead to a node; no step is taken in another's
place. -/
theorem derive_refines {seed : Bytes} (hmin : 16 ≤ seed.length) (hmax : seed.length ≤ 64) (path : DerivationPath) :
    (∀ r, Bip32.derive seed path.components = .ok r →
      (∃ node d, derive seed path = .ok node ∧ node.secret = some d ∧ d.scalar.val = r.key ∧
        node.chainCode.toList = r.chainCode) ∧
      r.key = ((Bip32.master seed).key + (Bip32.tweaks (Bip32.master seed) path.components).sum) % groupOrder) ∧
    ∀ last fault, Bip32.derive seed path.components = .error (last, fault) →
      derive seed path = .error fault.report ∧ ∀ n, (∃ node, derive seed (path.take n) = .ok node) ↔ n < last := by
  obtain ⟨hok, herror⟩ := derive_of_rules hmin hmax path
  constructor
  · intro r hr
    obtain ⟨node, d, hnode, hfollows⟩ := hok r hr
    exact ⟨⟨node, d, hnode, hfollows.keyed.secret, hfollows.key, hfollows.chainCode⟩, Bip32.key_of_derive hr⟩
  · intro last fault hfault
    refine ⟨herror last fault hfault, fun n => ?_⟩
    rw [exists_derive_iff hmin hmax]
    exact Bip32.derive_take_iff hfault n

/-- The rules lead to the node of the sample path. -/
theorem derive_refines_bip32 :
    ∃ r node d, Bip32.derive bip32Seed normalPath.components = .ok r ∧ derive bip32Seed normalPath = .ok node ∧
      node.secret = some d ∧ d.scalar.val = r.key ∧ node.chainCode.toList = r.chainCode := by
  obtain ⟨master, node, hmaster, hnode⟩ := exists_descend_bip32
  have hderive : derive bip32Seed normalPath = .ok node := bind_eq_ok_iff.mpr ⟨master, hmaster, hnode⟩
  have hmin : 16 ≤ bip32Seed.length := by decide
  have hmax : bip32Seed.length ≤ 64 := by decide
  obtain ⟨hok, -⟩ := derive_refines hmin hmax normalPath
  obtain ⟨r, hr⟩ := (exists_derive_iff hmin hmax normalPath).mp ⟨node, hderive⟩
  obtain ⟨⟨node', d, hnode', hsecret, hkey, hchainCode⟩, -⟩ := hok r hr
  exact ⟨r, node', d, hr, hnode', hsecret, hkey, hchainCode⟩

end ExtendedKey

end OfflineSigner
