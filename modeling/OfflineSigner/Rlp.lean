import OfflineSigner.Bytes

/-!
# RLP

Items are byte strings and lists of items. A short item has a header of one byte that gives its length, a longer one a
header that gives the length of its length; a single byte below `0x80` has none. Numbers are byte strings without zeros in
front.
-/

namespace OfflineSigner.Rlp

/-- An item. -/
inductive Item where
  | bytes (bs : Bytes)
  | list (items : List Item)
  deriving Inhabited

/-- The number as a byte string without zeros in front, for numbers below `256 ^ width`. -/
def numberBytes (width n : Nat) : Bytes := (Bytes.ofNatBE width n).trimZeros

/-- A payload behind its header. Payloads shorter than 56 bytes have the length in the header's only byte; of longer ones
that byte gives the length of the length. -/
def withHeader (short long : Nat) (payload : Bytes) : Bytes :=
  if payload.length < 56 then UInt8.ofNat (short + payload.length) :: payload
  else
    let length := numberBytes 8 payload.length
    UInt8.ofNat (long + length.length) :: length ++ payload

/-- A byte string as an item. -/
def encodeBytes (bs : Bytes) : Bytes :=
  match bs with
  | [b] => if b < 0x80 then [b] else withHeader 0x80 0xb7 [b]
  | _ => withHeader 0x80 0xb7 bs

/-- A number of 64 bits as an item. -/
def encodeUInt64 (n : UInt64) : Bytes := encodeBytes (numberBytes 8 n.toNat)

/-- A number of 256 bits as an item. -/
def encodeWord (n : BitVec 256) : Bytes := encodeBytes (numberBytes 32 n.toNat)

/-- Items that are encoded already as a list item. -/
def encodeList (encoded : List Bytes) : Bytes := withHeader 0xc0 0xf7 encoded.flatten

mutual

/-- An item with everything below it. -/
def Item.encode : Item → Bytes
  | .bytes bs => encodeBytes bs
  | .list items => encodeList (Item.encodeAll items)

/-- Items one by one. -/
def Item.encodeAll : List Item → List Bytes
  | [] => []
  | item :: items => item.encode :: Item.encodeAll items

end

/-- The encoded items of a list that is still being filled, in order. -/
structure Fields where
  encoded : List Bytes := []

namespace Fields

/-- The list with one more item that is encoded already. -/
def raw (fields : Fields) (item : Bytes) : Fields := ⟨fields.encoded ++ [item]⟩

/-- The list with one more byte string. -/
def bytes (fields : Fields) (bs : Bytes) : Fields := fields.raw (encodeBytes bs)

/-- The list with one more number of 64 bits. -/
def uint64 (fields : Fields) (n : UInt64) : Fields := fields.raw (encodeUInt64 n)

/-- The list with one more number of 256 bits. -/
def word (fields : Fields) (n : BitVec 256) : Fields := fields.raw (encodeWord n)

/-- The number of items. -/
def length (fields : Fields) : Nat := fields.encoded.length

/-- The finished list. -/
def finish (fields : Fields) : Bytes := encodeList fields.encoded

end Fields

end OfflineSigner.Rlp
