import OfflineSigner.Address.Base58
import OfflineSigner.Curve.Key
import OfflineSigner.Hex
import OfflineSigner.Network
import OfflineSigner.Path

/-!
# The key tree

A seed gives a master node, and each node gives its children: the keyed hash of the parent's key and the child number
yields a tweak for the key and a chain code for the next step. Nodes without a secret key have the children that are not
hardened. A step whose tweak is out of range fails; no other child is taken in its place.
-/

namespace OfflineSigner

open Curve

/-- A node of the key tree. -/
structure ExtendedKey where
  /-- The secret key, of which a public node has none. -/
  secret : Option SecretKey
  publicKey : PublicKey
  chainCode : FixedBytes 32
  depth : UInt8
  parentFingerprint : FixedBytes 4
  childNumber : ChildNumber
  deriving DecidableEq

namespace ExtendedKey

/-- Why there is no such node. -/
inductive Error where
  | seedLength (length : Nat)
  | masterRange
  | depth
  | hardenedOfPublic (child : ChildNumber)
  | tweakRange (child : ChildNumber)
  | zeroSecret (child : ChildNumber)
  | infinitePublic (child : ChildNumber)
  | publicOnly
  deriving DecidableEq

/-- The wording of a fault. -/
def Error.message : Error → String
  | .seedLength length => (Failure.seedLength length).message
  | .masterRange => "Master key is zero or not below the curve order"
  | .depth => "Derivation depth exceeds 255"
  | .hardenedOfPublic child => s!"Hardened child {child.text} requires a private parent"
  | .tweakRange child => s!"Derived IL at child {child.text} is not below the curve order"
  | .zeroSecret child => s!"Derived key at child {child.text} is zero"
  | .infinitePublic child => s!"Derived public key at child {child.text} is the point at infinity"
  | .publicOnly => "Public-only node has no xprv"

/-- The kind of failure that a fault is. -/
def Error.code : Error → FailureCode
  | .seedLength _ => .invalidSeedLength
  | .depth => .invalidDerivationPath
  | .hardenedOfPublic _ => .invalidDerivationPath
  | .publicOnly => .missingPrivateKey
  | _ => .invalidPrivateKeyFound

/-- A fault as it is reported. -/
def Error.report (e : Error) : Failure := ⟨e.code, e.message, none⟩

/-- The first four bytes of the hash of the public key. -/
def fingerprint (node : ExtendedKey) : FixedBytes 4 :=
  (Hash.hash160 node.publicKey.compressed.toList).take 4 (by decide)

/-- The master node of a seed of 16 to 64 bytes. -/
def ofSeed (seed : Bytes) : Except Error ExtendedKey :=
  if seed.length < 16 ∨ 64 < seed.length then .error (.seedLength seed.length)
  else
    let i := Hash.hmacSha512 (Text.utf8 "Bitcoin seed") seed
    match SecretKey.ofBytes (i.toList.take 32) with
    | .error _ => .error .masterRange
    | .ok d => .ok {
        secret := some d
        publicKey := d.publicKey
        chainCode := i.drop 32
        depth := 0
        parentFingerprint := FixedBytes.replicate 4 0
        childNumber := ChildNumber.ofSerial 0 }

/-- A node without a secret key. -/
def ofPublic (publicKey : PublicKey) (chainCode : FixedBytes 32) (depth : UInt8) (parentFingerprint : FixedBytes 4)
    (childNumber : ChildNumber) : ExtendedKey :=
  { secret := none, publicKey, chainCode, depth, parentFingerprint, childNumber }

/-- What is hashed for a child: the secret key for a hardened one, the public key for another, and the serial number. -/
def childMessage (node : ExtendedKey) (child : ChildNumber) : Except Error Bytes :=
  let serial := Bytes.ofNatBE 4 child.serial.toNat
  if child.hardened then
    match node.secret with
    | some d => .ok (0x00 :: d.toBytes.toList ++ serial)
    | none => .error (.hardenedOfPublic child)
  else .ok (node.publicKey.compressed.toList ++ serial)

/-- The keys of a child: both are tweaked, and a public node has only the one. -/
def childKeys (node : ExtendedKey) (child : ChildNumber) (tweak : Scalar) :
    Except Error (Option SecretKey × PublicKey) :=
  match node.secret with
  | some d =>
    match d.tweak? tweak with
    | some d' => .ok (some d', d'.publicKey)
    | none => .error (.zeroSecret child)
  | none =>
    match node.publicKey.tweak? tweak with
    | some K => .ok (none, K)
    | none => .error (.infinitePublic child)

/-- A child of a node. -/
def child (node : ExtendedKey) (child : ChildNumber) : Except Error ExtendedKey := do
  if node.depth = 255 then throw .depth
  let i := Hash.hmacSha512 node.chainCode.toList (← node.childMessage child)
  match Scalar.ofBytes? (i.toList.take 32) with
  | none => .error (.tweakRange child)
  | some tweak =>
    let (secret, publicKey) ← node.childKeys child tweak
    return {
      secret, publicKey
      chainCode := i.drop 32
      depth := node.depth + 1
      parentFingerprint := node.fingerprint
      childNumber := child }

/-- The node that a path leads to from a node. -/
def descend (node : ExtendedKey) (path : DerivationPath) : Except Error ExtendedKey :=
  path.components.foldlM ExtendedKey.child node

/-- The node without its secret key. -/
def neuter (node : ExtendedKey) : ExtendedKey := { node with secret := none }

/-- The node that a path leads to from the master node of a seed. -/
def derive (seed : Bytes) (path : DerivationPath) : Except Error ExtendedKey := do
  (← ofSeed seed).descend path

/-- The version bytes of the text of a node. -/
def version (secret : Bool) (network : Network) : Bytes :=
  match secret, network.isTest with
  | true, false => [0x04, 0x88, 0xad, 0xe4]
  | true, true => [0x04, 0x35, 0x83, 0x94]
  | false, false => [0x04, 0x88, 0xb2, 0x1e]
  | false, true => [0x04, 0x35, 0x87, 0xcf]

/-- The 78 bytes of a node with one of its keys. -/
def payload (node : ExtendedKey) (version key : Bytes) : Bytes :=
  version ++ node.depth :: node.parentFingerprint.toList ++ Bytes.ofNatBE 4 node.childNumber.serial.toNat ++
    node.chainCode.toList ++ key

/-- The text of a node with its public key. -/
def publicText (node : ExtendedKey) (network : Network) : String :=
  Address.Base58.encodeChecked (node.payload (version false network) node.publicKey.compressed.toList)

/-- The text of a node with its secret key. -/
def secretText (node : ExtendedKey) (network : Network) : Except Error String :=
  match node.secret with
  | none => .error .publicOnly
  | some d => .ok (Address.Base58.encodeChecked (node.payload (version true network) (0x00 :: d.toBytes.toList)))

/-- A line for diagnostics, which tells whether there is a secret key and shows neither it nor the chain code. -/
def describe (node : ExtendedKey) : String :=
  let secret := if node.secret.isSome then "true" else "false"
  s!"HdKey \x7b public_key: \"{Hex.encode node.publicKey.compressed.toList}\", has_private_key: {secret}, " ++
    s!"depth: {node.depth}, parent_fingerprint: \"{Hex.encode node.parentFingerprint.toList}\", " ++
    s!"child_number: \"{node.childNumber.text}\" \x7d"

end ExtendedKey

end OfflineSigner
