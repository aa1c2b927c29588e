import OfflineSigner.Bytes

/-!
# Segwit address texts

A marker for humans, the separator `1`, and groups of five bits in a fixed alphabet: the witness version, the program, and
six groups of checksum. Version zero has one checksum constant and the later versions another.
-/

namespace OfflineSigner.Address.Bech32

/-- A witness version and program. -/
structure Program where
  version : Nat
  bytes : Bytes
  deriving DecidableEq

/-- The characters of the groups in rising order. -/
def alphabet : List Char := "qpzry9x8gf2tvdw0s3jn54khce6mua7l".toList

/-- The character of a group of five bits. -/
def digit (n : Nat) : Char := alphabet.getD (n % 32) 'q'

/-- The value of a character in either case. -/
def value? (c : Char) : Option Nat := alphabet.idxOf? c.toLower

/-- The constants of the checksum polynomial, by the bits that are shifted out. -/
def generators : List Nat := [0x3b6a57b2, 0x26508e6d, 0x1ea119fa, 0x3d4233dd, 0x2a1462b3]

/-- The checksum register after one more group. -/
def step (register group : Nat) : Nat :=
  let top := register >>> 25
  ((generators.zipIdx).map fun (g, i) => if top.testBit i then g else 0).foldl (· ^^^ ·)
    ((register % 0x2000000 * 32) ^^^ group)

/-- The register after all groups. -/
def register (groups : List Nat) : Nat := groups.foldl step 1

/-- The marker as groups: the upper bits of each character, a zero, and the lower bits of each character. -/
def markerGroups (marker : List Char) : List Nat :=
  marker.map (·.toLower.toNat / 32) ++ 0 :: marker.map (·.toLower.toNat % 32)

/-- What the register has to be in the end. -/
def constant (version : Nat) : Nat := if version = 0 then 1 else 0x2bc830a3

/-- The checksum groups for a marker and the groups after it. -/
def checksum (marker : List Char) (groups : List Nat) (version : Nat) : List Nat :=
  let r := register (markerGroups marker ++ groups ++ List.replicate 6 0) ^^^ constant version
  [r >>> 25 % 32, r >>> 20 % 32, r >>> 15 % 32, r >>> 10 % 32, r >>> 5 % 32, r % 32]

/-- The bits of a number below `2 ^ width`, highest first. -/
def bits : (width : Nat) → (n : Nat) → List Bool
  | 0, _ => []
  | width + 1, n => n.testBit width :: bits width n

/-- The number that bits write, highest first. -/
def ofBits (bs : List Bool) : Nat := bs.foldl (fun n b => 2 * n + b.toNat) 0

/-- Bits cut into groups of five, the last one filled up with zeros. -/
def groupsOfBits : List Bool → List Nat
  | b₀ :: b₁ :: b₂ :: b₃ :: b₄ :: rest => ofBits [b₀, b₁, b₂, b₃, b₄] :: groupsOfBits rest
  | [] => []
  | rest => [ofBits (rest ++ List.replicate (5 - rest.length) false)]

/-- Bits cut into bytes; what is left over at the end stands apart. -/
def bytesOfBits : List Bool → Bytes × List Bool
  | b₀ :: b₁ :: b₂ :: b₃ :: b₄ :: b₅ :: b₆ :: b₇ :: rest =>
    let (bs, left) := bytesOfBits rest
    (UInt8.ofNat (ofBits [b₀, b₁, b₂, b₃, b₄, b₅, b₆, b₇]) :: bs, left)
  | rest => ([], rest)

/-- A byte string as groups of five bits. -/
def toGroups (bs : Bytes) : List Nat := groupsOfBits (bs.flatMap fun b => bits 8 b.toNat)

/-- The byte string that groups write. At most four bits may be left over, all zero. -/
def ofGroups? (gs : List Nat) : Option Bytes :=
  let (bs, left) := bytesOfBits (gs.flatMap (bits 5))
  if left.length ≤ 4 ∧ left.all (! ·) then some bs else none

/-- The text of a program under a marker. -/
def encode (marker : String) (p : Program) : String :=
  let groups := p.version :: toGroups p.bytes
  String.ofList (marker.toList ++ '1' :: (groups ++ checksum marker.toList groups p.version).map digit)

/-- Whether a program of the version can have the length. -/
def allowedLength (version length : Nat) : Bool :=
  if version = 0 then length == 20 || length == 32 else version ≤ 16 && 2 ≤ length && length ≤ 40

/-- The text cut at its last separator. -/
def splitLast (cs : List Char) : Option (List Char × List Char) :=
  let data := (cs.reverse.takeWhile (· ≠ '1')).reverse
  if data.length < cs.length then some (cs.take (cs.length - data.length - 1), data) else none

/-- Whether a marker has an allowed length and visible ASCII characters only. -/
def validMarker (marker : List Char) : Bool :=
  1 ≤ marker.length && marker.length ≤ 83 && marker.all fun c => 33 ≤ c.toNat && c.toNat ≤ 126

/-- The marker, in lower case, and the program that a text writes. Texts may be in upper or in lower case, not in both,
and no longer than ninety characters. -/
def decode? (cs : List Char) : Option (String × Program) := do
  if 90 < cs.length ∨ (cs.any Char.isUpper ∧ cs.any Char.isLower) then none
  else
    let (marker, data) ← splitLast cs
    let groups ← data.mapM value?
    let version ← groups.head?
    if validMarker marker ∧ 7 ≤ groups.length ∧ version ≤ 16 ∧
        register (markerGroups marker ++ groups) = constant version then
      let bytes ← ofGroups? (groups.drop 1).dropLast.dropLast.dropLast.dropLast.dropLast.dropLast
      if allowedLength version bytes.length then
        some (String.ofList (marker.map Char.toLower), ⟨version, bytes⟩)
      else none
    else none

end OfflineSigner.Address.Bech32
