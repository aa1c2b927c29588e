import OfflineSigner.Hash.Composed

/-!
# Base58 with a checksum

A byte string as a number in base 58, with one `1` for each zero byte in front, and four bytes of hash at its end.
-/

namespace OfflineSigner.Address.Base58

/-- The digits in rising order. -/
def alphabet : List Char := "123456789ABCDEFGHJKLMNPQRSTUVWXYZabcdefghijkmnopqrstuvwxyz".toList

/-- The character of a digit. -/
def digit (n : Nat) : Char := alphabet.getD (n % 58) '1'

/-- The value of a digit; other characters have none. -/
def value? (c : Char) : Option Nat := alphabet.idxOf? c

/-- The lowest `width` digits of a number in base 58, highest first. -/
def digits : (width : Nat) → (n : Nat) → List Nat
  | 0, _ => []
  | width + 1, n => digits width (n / 58) ++ [n % 58]

/-- A byte string in base 58. Two digits hold more than one byte, which bounds the width. -/
def encode (bs : Bytes) : List Char :=
  List.replicate (bs.takeWhile (· == 0)).length '1' ++
    ((digits (2 * bs.length) bs.toNatBE).dropWhile (· == 0)).map digit

/-- The byte string that a text writes in base 58; none when a character is no digit. -/
def decode? (cs : List Char) : Option Bytes := do
  let ds ← cs.mapM value?
  let n := ds.foldl (fun n d => 58 * n + d) 0
  return List.replicate (cs.takeWhile (· == '1')).length 0 ++ (Bytes.ofNatBE cs.length n).trimZeros

/-- The first four bytes of the twofold hash. -/
def checksum (bs : Bytes) : Bytes := (Hash.doubleSha256 bs).toList.take 4

/-- A byte string with its checksum in base 58. -/
def encodeChecked (bs : Bytes) : String := String.ofList (encode (bs ++ checksum bs))

/-- The byte string that a text writes in base 58 with the right checksum. -/
def decodeChecked? (cs : List Char) : Option Bytes := do
  let bs ← decode? cs
  if bs.length < 4 then none
  else
    let payload := bs.take (bs.length - 4)
    if bs.drop (bs.length - 4) = checksum payload then some payload else none

end OfflineSigner.Address.Base58
