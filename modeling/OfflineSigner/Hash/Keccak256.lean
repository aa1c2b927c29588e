import OfflineSigner.Bytes

/-!
# Keccak-256

The sponge over twenty-five 64-bit lanes, with 136 bytes taken in at a time, in the form used by EVM chains: the padding
starts with a one byte. Lane `5 * y + x` stands at column `x` of row `y`.
-/

namespace OfflineSigner.Hash.Keccak256

/-- The lanes, row by row. -/
abbrev State := List UInt64

/-- The constants added to the first lane, one a round. -/
def roundConstants : List UInt64 := [
  0x0000000000000001, 0x0000000000008082, 0x800000000000808a, 0x8000000080008000,
  0x000000000000808b, 0x0000000080000001, 0x8000000080008081, 0x8000000000008009,
  0x000000000000008a, 0x0000000000000088, 0x0000000080008009, 0x000000008000000a,
  0x000000008000808b, 0x800000000000008b, 0x8000000000008089, 0x8000000000008003,
  0x8000000000008002, 0x8000000000000080, 0x000000000000800a, 0x800000008000000a,
  0x8000000080008081, 0x8000000000008080, 0x0000000080000001, 0x8000000080008008]

/-- How far each lane is turned, in the order of the lanes. -/
def turns : List UInt64 := [
  0, 1, 62, 28, 27, 36, 44, 6, 55, 20, 3, 10, 43, 25, 39, 41, 45, 15, 21, 8, 18, 2, 61, 56, 14]

/-- Which turned lane comes to stand at each place. -/
def sources : List Nat := [
  0, 6, 12, 18, 24, 3, 9, 10, 16, 22, 1, 7, 13, 19, 20, 4, 5, 11, 17, 23, 2, 8, 14, 15, 21]

/-- A word turned left by `n` places. -/
def rotateLeft (x n : UInt64) : UInt64 := if n = 0 then x else (x <<< n) ||| (x >>> (64 - n))

/-- Each lane with the parities of the two columns beside its own added. -/
def theta (s : State) : State :=
  match s with
  | [a₀, a₁, a₂, a₃, a₄, b₀, b₁, b₂, b₃, b₄, c₀, c₁, c₂, c₃, c₄, d₀, d₁, d₂, d₃, d₄, e₀, e₁, e₂, e₃, e₄] =>
    let p₀ := a₀ ^^^ b₀ ^^^ c₀ ^^^ d₀ ^^^ e₀
    let p₁ := a₁ ^^^ b₁ ^^^ c₁ ^^^ d₁ ^^^ e₁
    let p₂ := a₂ ^^^ b₂ ^^^ c₂ ^^^ d₂ ^^^ e₂
    let p₃ := a₃ ^^^ b₃ ^^^ c₃ ^^^ d₃ ^^^ e₃
    let p₄ := a₄ ^^^ b₄ ^^^ c₄ ^^^ d₄ ^^^ e₄
    let q₀ := p₄ ^^^ rotateLeft p₁ 1
    let q₁ := p₀ ^^^ rotateLeft p₂ 1
    let q₂ := p₁ ^^^ rotateLeft p₃ 1
    let q₃ := p₂ ^^^ rotateLeft p₄ 1
    let q₄ := p₃ ^^^ rotateLeft p₀ 1
    [a₀ ^^^ q₀, a₁ ^^^ q₁, a₂ ^^^ q₂, a₃ ^^^ q₃, a₄ ^^^ q₄, b₀ ^^^ q₀, b₁ ^^^ q₁, b₂ ^^^ q₂, b₃ ^^^ q₃, b₄ ^^^ q₄,
      c₀ ^^^ q₀, c₁ ^^^ q₁, c₂ ^^^ q₂, c₃ ^^^ q₃, c₄ ^^^ q₄, d₀ ^^^ q₀, d₁ ^^^ q₁, d₂ ^^^ q₂, d₃ ^^^ q₃, d₄ ^^^ q₄,
      e₀ ^^^ q₀, e₁ ^^^ q₁, e₂ ^^^ q₂, e₃ ^^^ q₃, e₄ ^^^ q₄]
  | _ => s

/-- The lanes turned and moved to their new places. -/
def move (s : State) : State :=
  let turned := (List.zipWith rotateLeft s turns).toArray
  sources.map fun i => turned.getD i 0

/-- Each lane with the product of the next lanes of its row added. -/
def chi : State → State
  | x₀ :: x₁ :: x₂ :: x₃ :: x₄ :: rest =>
    (x₀ ^^^ (~~~x₁ &&& x₂)) :: (x₁ ^^^ (~~~x₂ &&& x₃)) :: (x₂ ^^^ (~~~x₃ &&& x₄)) ::
      (x₃ ^^^ (~~~x₄ &&& x₀)) :: (x₄ ^^^ (~~~x₀ &&& x₁)) :: chi rest
  | rest => rest

/-- One round with its constant. -/
def round (s : State) (constant : UInt64) : State :=
  match chi (move (theta s)) with
  | x :: rest => (x ^^^ constant) :: rest
  | [] => []

/-- The twenty-four rounds. -/
def permute (s : State) : State := roundConstants.foldl round s

/-- The message, a one bit, zeros and a last one bit, up to a whole number of blocks of 136 bytes. -/
def pad (message : Bytes) : Bytes :=
  match 136 - message.length % 136 with
  | 1 => message ++ [0x81]
  | n => message ++ 0x01 :: List.replicate (n - 2) 0 ++ [0x80]

/-- The lanes of a block, least significant byte first; the lanes that a block does not reach are zero. -/
def lanes (block : Bytes) : State :=
  (block.chunks 8).map (fun w => UInt64.ofNat w.toNatLE) ++ List.replicate 8 0

/-- The state after one more block. -/
def absorb (s : State) (block : Bytes) : State := permute (List.zipWith (· ^^^ ·) s (lanes block))

/-- The first four lanes as bytes. -/
def squeeze (s : State) : Digest :=
  let lane (i : Nat) := Bytes.ofNatLE 8 (s.getD i 0).toNat
  ⟨lane 0 ++ lane 1 ++ lane 2 ++ lane 3, by simp [lane]⟩

end Keccak256

/-- The Keccak-256 digest of a message. -/
def keccak256 (message : Bytes) : Digest :=
  Keccak256.squeeze (((Keccak256.pad message).chunks 136).foldl Keccak256.absorb (List.replicate 25 0))

end OfflineSigner.Hash
