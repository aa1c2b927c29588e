import OfflineSigner.Bytes

/-!
# RIPEMD-160

Each block of sixteen 32-bit words goes through two lines of eighty rounds; the two results and the register before them
are added crosswise.
-/

namespace OfflineSigner.Hash.Ripemd160

/-- The register of five words. -/
structure State where
  (a b c d e : UInt32)

/-- The register before the first block. -/
def initial : State := ⟨0x67452301, 0xefcdab89, 0x98badcfe, 0x10325476, 0xc3d2e1f0⟩

/-- The word read in each round of the left line. -/
def leftOrder : List Nat := [
  0, 1, 2, 3, 4, 5, 6, 7, 8, 9, 10, 11, 12, 13, 14, 15,
  7, 4, 13, 1, 10, 6, 15, 3, 12, 0, 9, 5, 2, 14, 11, 8,
  3, 10, 14, 4, 9, 15, 8, 1, 2, 7, 0, 6, 13, 11, 5, 12,
  1, 9, 11, 10, 0, 8, 12, 4, 13, 3, 7, 15, 14, 5, 6, 2,
  4, 0, 5, 9, 7, 12, 2, 10, 14, 1, 3, 8, 11, 6, 15, 13]

/-- The word read in each round of the right line. -/
def rightOrder : List Nat := [
  5, 14, 7, 0, 9, 2, 11, 4, 13, 6, 15, 8, 1, 10, 3, 12,
  6, 11, 3, 7, 0, 13, 5, 10, 14, 15, 8, 12, 4, 9, 1, 2,
  15, 5, 1, 3, 7, 14, 6, 9, 11, 8, 12, 2, 10, 0, 4, 13,
  8, 6, 4, 1, 3, 11, 15, 0, 5, 12, 2, 13, 9, 7, 10, 14,
  12, 15, 10, 4, 1, 5, 8, 7, 6, 2, 13, 14, 0, 3, 9, 11]

/-- The turn of each round of the left line. -/
def leftTurns : List UInt32 := [
  11, 14, 15, 12, 5, 8, 7, 9, 11, 13, 14, 15, 6, 7, 9, 8,
  7, 6, 8, 13, 11, 9, 7, 15, 7, 12, 15, 9, 11, 7, 13, 12,
  11, 13, 6, 7, 14, 9, 13, 15, 14, 8, 13, 6, 5, 12, 7, 5,
  11, 12, 14, 15, 14, 15, 9, 8, 9, 14, 5, 6, 8, 6, 5, 12,
  9, 15, 5, 11, 6, 8, 13, 12, 5, 12, 13, 14, 11, 8, 5, 6]

/-- The turn of each round of the right line. -/
def rightTurns : List UInt32 := [
  8, 9, 9, 11, 13, 15, 15, 5, 7, 7, 8, 11, 14, 14, 12, 6,
  9, 13, 15, 7, 12, 8, 9, 11, 7, 7, 12, 7, 6, 15, 13, 11,
  9, 7, 15, 11, 8, 6, 6, 14, 12, 13, 5, 14, 13, 13, 7, 5,
  15, 5, 8, 11, 14, 14, 6, 14, 6, 9, 12, 9, 12, 5, 15, 8,
  8, 5, 12, 9, 12, 5, 14, 6, 8, 13, 6, 5, 15, 13, 11, 11]

/-- The mixing function of the `j`-th group of sixteen rounds. -/
def mix (j : Nat) (x y z : UInt32) : UInt32 :=
  match j with
  | 0 => x ^^^ y ^^^ z
  | 1 => (x &&& y) ||| (~~~x &&& z)
  | 2 => (x ||| ~~~y) ^^^ z
  | 3 => (x &&& z) ||| (y &&& ~~~z)
  | _ => x ^^^ (y ||| ~~~z)

/-- The constant of the `j`-th group of rounds of the left line. -/
def leftConstant (j : Nat) : UInt32 :=
  match j with
  | 0 => 0
  | 1 => 0x5a827999
  | 2 => 0x6ed9eba1
  | 3 => 0x8f1bbcdc
  | _ => 0xa953fd4e

/-- The constant of the `j`-th group of rounds of the right line. -/
def rightConstant (j : Nat) : UInt32 :=
  match j with
  | 0 => 0x50a28be6
  | 1 => 0x5c4dd124
  | 2 => 0x6d703ef3
  | 3 => 0x7a6d76e9
  | _ => 0

/-- A word turned left by `n` places, for `0 < n < 32`. -/
def rotateLeft (x n : UInt32) : UInt32 := (x <<< n) ||| (x >>> (32 - n))

/-- One round: `f` is the value of the mixing function and `x` the word and constant that are added. -/
def round (s : State) (f x turn : UInt32) : State :=
  ⟨s.e, rotateLeft (s.a + f + x) turn + s.e, s.b, rotateLeft s.c 10, s.d⟩

/-- The eighty rounds of one line over the words of a block. `group` maps the number of a group of rounds to the number
of its mixing function. -/
def line (s : State) (block : List UInt32) (order : List Nat) (turns : List UInt32) (group : Nat → Nat)
    (constant : Nat → UInt32) : State :=
  ((List.range 80).zip (order.zip turns)).foldl (fun s (i, word, turn) =>
    round s (mix (group (i / 16)) s.b s.c s.d) (block.getD word 0 + constant (i / 16)) turn) s

/-- The register after one block of sixteen words. -/
def compress (s : State) (block : List UInt32) : State :=
  let l := line s block leftOrder leftTurns id leftConstant
  let r := line s block rightOrder rightTurns (4 - ·) rightConstant
  ⟨s.b + l.c + r.d, s.c + l.d + r.e, s.d + l.e + r.a, s.e + l.a + r.b, s.a + l.b + r.c⟩

/-- The message, a one bit, zeros, and the message's length in bits, up to a whole number of blocks. -/
def pad (message : Bytes) : Bytes :=
  message ++ 0x80 :: List.replicate ((119 - message.length % 64) % 64) 0 ++ Bytes.ofNatLE 8 (8 * message.length)

/-- The words of a block, least significant byte first. -/
def words (block : Bytes) : List UInt32 := (block.chunks 4).map fun w => UInt32.ofNat w.toNatLE

/-- The register as bytes. -/
def State.digest (s : State) : FixedBytes 20 :=
  let word (x : UInt32) := Bytes.ofNatLE 4 x.toNat
  ⟨word s.a ++ word s.b ++ word s.c ++ word s.d ++ word s.e, by simp [word]⟩

end Ripemd160

/-- The RIPEMD-160 digest of a message. -/
def ripemd160 (message : Bytes) : FixedBytes 20 :=
  (((Ripemd160.pad message).chunks 64).foldl (fun s block => Ripemd160.compress s (Ripemd160.words block))
    Ripemd160.initial).digest

end OfflineSigner.Hash
