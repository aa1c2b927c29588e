import OfflineSigner.Evm.Fee
import OfflineSigner.Proofs.Curve.Ecdsa
import OfflineSigner.Proofs.Rlp.Decode
import OfflineSigner.Address.Evm

/-!
# What a signed transaction says by itself

A decoder of signed transactions that knows nothing of the one that was signed (`Wire.decode?`). From what it finds the payload
that was signed is rebuilt (`Wire.payload`), and the address of the signer is computed (`Wire.sender`). The readers of single
items read back what is written, and a list of items that is not too long is read back as a whole (`ofList?_encode`).
-/

namespace OfflineSigner.Evm

open Curve

/-- Everything that a signed transaction says. -/
structure Wire where
  nonce : UInt64
  fee : Fee
  gasLimit : UInt64
  recipient : EvmAddress
  value : Word
  data : Bytes
  chainId : UInt64
  accessList : List Rlp.Item
  /-- Whether the nonce's point has an odd second coordinate. -/
  odd : Bool
  r : Word
  s : Word

namespace Wire

/-! ## The decoder -/

/-- A number of at most `width` bytes, without zeros in front. -/
def number? (width : Nat) : Rlp.Item → Option Nat
  | .bytes bs => if bs.length ≤ width ∧ bs.head? ≠ some 0 then some bs.toNatBE else none
  | .list _ => none

/-- A number of 64 bits. -/
def uint64? (item : Rlp.Item) : Option UInt64 := (number? 8 item).map UInt64.ofNat

/-- A number of 256 bits. -/
def word? (item : Rlp.Item) : Option Word := (number? 32 item).map (BitVec.ofNat 256)

/-- An address. -/
def address? : Rlp.Item → Option EvmAddress
  | .bytes bs => FixedBytes.ofList? 20 bs
  | .list _ => none

/-- A byte string. -/
def bytes? : Rlp.Item → Option Bytes
  | .bytes bs => some bs
  | .list _ => none

/-- A list of items. -/
def list? : Rlp.Item → Option (List Rlp.Item)
  | .bytes _ => none
  | .list items => some items

/-- The chain id and the parity in the `v` of a legacy transaction: 27 and 28 are without chain id, the others are 35 more than
twice the chain id and the parity. -/
def chain? (v : UInt64) : Option (UInt64 × Bool) :=
  if v = 27 ∨ v = 28 then some (0, v == 28)
  else if 35 ≤ v.toNat then some (UInt64.ofNat ((v.toNat - 35) / 2), (v.toNat - 35) % 2 == 1)
  else none

/-- The parity in the `v` of a transaction with a capped fee. -/
def parity? (v : UInt64) : Option Bool := if v = 0 ∨ v = 1 then some (v == 1) else none

/-- A legacy transaction from its nine items. -/
def ofLegacyItems? : List Rlp.Item → Option Wire
  | [nonce, gasPrice, gasLimit, recipient, value, data, v, r, s] => do
    let (chainId, odd) ← chain? (← uint64? v)
    return {
      nonce := ← uint64? nonce
      fee := .legacy (← word? gasPrice)
      gasLimit := ← uint64? gasLimit
      recipient := ← address? recipient
      value := ← word? value
      data := ← bytes? data
      chainId
      accessList := []
      odd
      r := ← word? r
      s := ← word? s }
  | _ => none

/-- A transaction with a capped fee from its twelve items. -/
def ofCappedItems? : List Rlp.Item → Option Wire
  | [chainId, nonce, priority, maxFee, gasLimit, recipient, value, data, accessList, v, r, s] => do
    return {
      nonce := ← uint64? nonce
      fee := .capped (← word? maxFee) (← word? priority)
      gasLimit := ← uint64? gasLimit
      recipient := ← address? recipient
      value := ← word? value
      data := ← bytes? data
      chainId := ← uint64? chainId
      accessList := ← list? accessList
      odd := ← parity? (← uint64? v)
      r := ← word? r
      s := ← word? s }
  | _ => none

/-- The list in front, read as a transaction, and what follows it. -/
def ofList? (read? : List Rlp.Item → Option Wire) (bs : Bytes) : Option (Wire × Bytes) :=
  match Rlp.decode? bs with
  | some (.list items, rest) => (read? items).map fun wire => (wire, rest)
  | _ => none

/-- The signed transaction in front, and what follows it: twelve items behind the byte `0x02`, or nine items. -/
def decode? : Bytes → Option (Wire × Bytes)
  | [] => none
  | b :: rest => if b = 0x02 then ofList? ofCappedItems? rest else ofList? ofLegacyItems? (b :: rest)

/-- A number as an item. -/
def number (width n : Nat) : Rlp.Item := .bytes (Rlp.numberBytes width n)

/-- The bytes that were signed, from what the signed transaction says. -/
def payload (wire : Wire) : Bytes :=
  match wire.fee with
  | .legacy gasPrice =>
    let fields := [number 8 wire.nonce.toNat, number 32 gasPrice.toNat, number 8 wire.gasLimit.toNat,
      .bytes wire.recipient.toList, number 32 wire.value.toNat, .bytes wire.data]
    let chain := if wire.chainId = 0 then [] else [number 8 wire.chainId.toNat, .bytes [], .bytes []]
    (Rlp.Item.list (fields ++ chain)).encode
  | .capped maxFee priority =>
    0x02 :: (Rlp.Item.list [number 8 wire.chainId.toNat, number 8 wire.nonce.toNat, number 32 priority.toNat,
      number 32 maxFee.toNat, number 8 wire.gasLimit.toNat, .bytes wire.recipient.toList, number 32 wire.value.toNat,
      .bytes wire.data, .list wire.accessList]).encode

/-- The recovery id that a parity means. -/
def recoveryId (odd : Bool) : Fin 4 := if odd then ⟨1, by decide⟩ else ⟨0, by decide⟩

/-- The signature. -/
def signature (wire : Wire) : Ecdsa.Signature :=
  ⟨Scalar.ofNat wire.r.toNat, Scalar.ofNat wire.s.toNat, recoveryId wire.odd⟩

/-- The address whose key made the signature. -/
def sender (wire : Wire) : Except KeyFault EvmAddress :=
  (Ecdsa.recover wire.signature (Hash.keccak256 wire.payload)).map EvmAddress.ofPublicKey

/-! ## Items and their readings -/

/-- A number is read from the one item that is written for it. -/
theorem number?_eq_some_iff {width n : Nat} {item : Rlp.Item} :
    number? width item = some n ↔ n < 256 ^ width ∧ item = number width n := by
  constructor
  · intro h
    cases item with
    | list items => cases h
    | bytes bs =>
      rw [number?] at h
      split at h
      · rename_i hbs
        rw [← Option.some.inj h, number, Rlp.numberBytes_toNatBE hbs.1 hbs.2]
        exact ⟨(Bytes.toNatBE_lt bs).trans_le (Nat.pow_le_pow_right (by decide) hbs.1), rfl⟩
      · cases h
  · rintro ⟨hlt, rfl⟩
    rw [number, number?, if_pos ⟨Rlp.length_numberBytes_le width n, Rlp.head?_numberBytes width n⟩,
      Rlp.toNatBE_numberBytes, Nat.mod_eq_of_lt hlt]

@[simp] theorem uint64?_number (n : UInt64) : uint64? (number 8 n.toNat) = some n := by
  rw [uint64?, number?_eq_some_iff.mpr ⟨n.toNat_lt, rfl⟩, Option.map_some, UInt64.ofNat_toNat]

@[simp] theorem word?_number (n : Word) : word? (number 32 n.toNat) = some n := by
  rw [word?, number?_eq_some_iff.mpr ⟨n.isLt.trans_le (by decide), rfl⟩, Option.map_some, BitVec.ofNat_toNat, BitVec.setWidth_eq]

@[simp] theorem address?_bytes (a : EvmAddress) : address? (.bytes a.toList) = some a := FixedBytes.ofList?_toList a

@[simp] theorem bytes?_bytes (bs : Bytes) : bytes? (.bytes bs) = some bs := rfl

@[simp] theorem list?_list (items : List Rlp.Item) : list? (.list items) = some items := rfl

theorem encode_uint64 (n : UInt64) : (number 8 n.toNat).encode = Rlp.encodeUInt64 n := by
  rw [number, Rlp.Item.encode, Rlp.encodeUInt64]

theorem encode_word (n : Word) : (number 32 n.toNat).encode = Rlp.encodeWord n := by
  rw [number, Rlp.Item.encode, Rlp.encodeWord]

/-! ## Lists of items -/

/-- The items of a list are read back from it, and nothing is left. -/
theorem ofList?_encode {read? : List Rlp.Item → Option Wire} {items : List Rlp.Item} {wire : Wire}
    (hlong : (Rlp.Item.list items).encode.length < 2 ^ 64) (hread : read? items = some wire) :
    ofList? read? (Rlp.Item.list items).encode = some (wire, []) := by
  have hdecode := Rlp.decode?_encode (.list items) hlong []
  rw [List.append_nil] at hdecode
  rw [ofList?, hdecode]
  dsimp only
  rw [hread]
  rfl

/-- A number takes at most 41 bytes. -/
theorem length_number_le {width : Nat} (hwidth : width ≤ 32) (n : Nat) : (number width n).encode.length ≤ 41 := by
  have hn := Rlp.length_numberBytes_le width n
  have he := Rlp.length_encodeBytes_le (Rlp.numberBytes width n)
  rw [number, Rlp.Item.encode]
  omega

theorem length_address_le (a : EvmAddress) : (Rlp.Item.bytes a.toList).encode.length ≤ 41 := by
  have ha := Rlp.length_encodeBytes_le a.toList
  rw [a.length_toList] at ha
  rw [Rlp.Item.encode]
  omega

/-- Short items around one byte string are not too long to be decoded. -/
theorem length_list_lt {front back : List Rlp.Item} {data : Bytes} (hfront : ∀ item ∈ front, item.encode.length ≤ 41)
    (hback : ∀ item ∈ back, item.encode.length ≤ 41) (hcount : front.length + back.length ≤ 12)
    (hdata : data.length < 2 ^ 63) : (Rlp.Item.list (front ++ .bytes data :: back)).encode.length < 2 ^ 64 := by
  have h₁ := Rlp.length_encodeAll_le hfront
  have h₂ := Rlp.length_encodeAll_le hback
  have h₃ := Rlp.length_encodeBytes_le data
  rw [Rlp.Item.encode]
  refine (Rlp.length_encodeList_le _).trans_lt ?_
  rw [Rlp.encodeAll_append, List.flatten_append, Rlp.Item.encodeAll, List.flatten_cons, Rlp.Item.encode, List.length_append,
    List.length_append]
  omega

end Wire

end OfflineSigner.Evm
