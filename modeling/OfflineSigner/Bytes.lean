/-!
# Byte strings

Byte strings as lists, their readings as numbers in base 256, and byte strings of a known length. The two fixed-width
writers give exactly as many bytes as asked (`Bytes.length_ofNatBE`, `Bytes.length_ofNatLE`), so a record laid out from
them has a known size.
-/

namespace OfflineSigner

/-- A string of bytes. -/
abbrev Bytes := List UInt8

namespace Bytes

/-- The number that a byte string writes in base 256, most significant byte first. -/
def toNatBE (bs : Bytes) : Nat := bs.foldl (fun n b => 256 * n + b.toNat) 0

/-- The lowest `width` digits of a number in base 256, most significant first. -/
def ofNatBE : (width : Nat) → (n : Nat) → Bytes
  | 0, _ => []
  | width + 1, n => ofNatBE width (n / 256) ++ [UInt8.ofNat n]

/-- The lowest `width` digits of a number in base 256, least significant first. -/
def ofNatLE : (width : Nat) → (n : Nat) → Bytes
  | 0, _ => []
  | width + 1, n => UInt8.ofNat n :: ofNatLE width (n / 256)

/-- The number that a byte string writes in base 256, least significant byte first. -/
def toNatLE : Bytes → Nat
  | [] => 0
  | b :: bs => b.toNat + 256 * toNatLE bs

/-- A byte string without its leading zero bytes. -/
def trimZeros (bs : Bytes) : Bytes := bs.dropWhile (· == 0)

/-- Bytewise exclusive or, as long as the shorter string. -/
def xor (as bs : Bytes) : Bytes := List.zipWith (· ^^^ ·) as bs

/-- The string cut into pieces of `size` bytes; the last piece holds what is left. A zero `size` leaves one piece. -/
def chunks (size : Nat) (bs : Bytes) : List Bytes :=
  go bs.length bs
where
  /-- At most `fuel` further pieces. -/
  go : Nat → Bytes → List Bytes
    | 0, _ => []
    | fuel + 1, rest => if rest.isEmpty then [] else rest.take size :: go fuel (rest.drop size)

@[simp] theorem length_ofNatBE (width n : Nat) : (ofNatBE width n).length = width := by
  induction width generalizing n with
  | zero => rfl
  | succ width ih => simp [ofNatBE, ih]

@[simp] theorem length_ofNatLE (width n : Nat) : (ofNatLE width n).length = width := by
  induction width generalizing n with
  | zero => rfl
  | succ width ih => simp [ofNatLE, ih]

end Bytes

/-- A byte string of exactly `n` bytes. -/
structure FixedBytes (n : Nat) where
  /-- The bytes, in order. -/
  toList : Bytes
  length_toList : toList.length = n
  deriving DecidableEq

namespace FixedBytes

/-- The byte string as one of known length, when its length is the one asked for. -/
def ofList? (n : Nat) (bs : Bytes) : Option (FixedBytes n) :=
  if h : bs.length = n then some ⟨bs, h⟩ else none

/-- A number in `n` bytes, most significant first, modulo `256 ^ n`. -/
def ofNatBE (n k : Nat) : FixedBytes n := ⟨Bytes.ofNatBE n k, Bytes.length_ofNatBE n k⟩

/-- The number that the bytes write, most significant first. -/
def toNatBE {n : Nat} (bs : FixedBytes n) : Nat := bs.toList.toNatBE

/-- `n` equal bytes. -/
def replicate (n : Nat) (b : UInt8) : FixedBytes n := ⟨List.replicate n b, List.length_replicate⟩

/-- The first `m` bytes. -/
def take {n : Nat} (m : Nat) (bs : FixedBytes n) (h : m ≤ n) : FixedBytes m :=
  ⟨bs.toList.take m, by rw [List.length_take, bs.length_toList]; exact Nat.min_eq_left h⟩

/-- What is left after the first `m` bytes. -/
def drop {n : Nat} (m : Nat) (bs : FixedBytes n) : FixedBytes (n - m) :=
  ⟨bs.toList.drop m, by rw [List.length_drop, bs.length_toList]⟩

/-- The bytes of the first string followed by those of the second. -/
def append {m n : Nat} (as : FixedBytes m) (bs : FixedBytes n) : FixedBytes (m + n) :=
  ⟨as.toList ++ bs.toList, by rw [List.length_append, as.length_toList, bs.length_toList]⟩

@[simp] theorem ofList?_toList {n : Nat} (bs : FixedBytes n) : ofList? n bs.toList = some bs := by
  simp [ofList?, bs.length_toList]

end FixedBytes

/-- A hash or message digest of 32 bytes. -/
abbrev Digest := FixedBytes 32

end OfflineSigner
