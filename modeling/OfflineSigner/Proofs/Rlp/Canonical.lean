import OfflineSigner.Proofs.Rlp.Decode

/-!
# One encoding for each item

The other half of the statements about the strict decoder: whatever it reads is what `Item.encode` writes, followed by what it
leaves (`eq_of_decode?`). So an item that is not too long has exactly one form that is read as it, from the front of any string
(`decode?_eq_some_iff`). The first byte of a header is the number that the sizes add up to, and no sum is too large for a byte
(`toNat_head?_withHeader`).
-/

namespace OfflineSigner.Rlp

/-! ## The first byte -/

/-- What the first byte of a header says: the length itself, or the length of the length, above where that kind starts. -/
def leadNumber (short long length : Nat) : Nat :=
  if length < 56 then short + length else long + (numberBytes 8 length).length

/-- The first byte of a header is not reduced. -/
theorem toNat_head?_withHeader {short long : Nat} (hshort : short + 55 < 256) (hlong : long + 8 < 256) (payload : Bytes) :
    (withHeader short long payload).head?.map UInt8.toNat = some (leadNumber short long payload.length) := by
  have hdigits := length_numberBytes_le 8 payload.length
  unfold withHeader leadNumber
  split
  · rw [List.head?_cons, Option.map_some, UInt8.toNat_ofNat_of_lt' (by change _ < 256; omega)]
  · rw [List.cons_append, List.head?_cons, Option.map_some, UInt8.toNat_ofNat_of_lt' (by change _ < 256; omega)]

/-! ## Items -/

/-- What is read as a run of items is how they are written. -/
theorem eq_of_decodeAll? {bs : Bytes} {items : List Item} (h : decodeAll? bs = some items) :
    bs = (Item.encodeAll items).flatten := by
  -- Along the decoder's recursion: a list's payload is read before what follows the list.
  fun_induction decodeAll? bs generalizing items with
  | case1 bs hchunk hempty =>
    cases h
    exact List.isEmpty_iff.mp hempty
  | case2 => cases h
  | case3 bs payload rest hchunk ih =>
    obtain ⟨others, hothers, rfl⟩ := Option.map_eq_some_iff.mp h
    rw [Item.encodeAll, List.flatten_cons, ← ih hothers]
    exact eq_of_chunk? hchunk
  | case4 => cases h
  | case5 bs payload rest hchunk below hbelow ihpayload ihrest =>
    obtain ⟨others, hothers, rfl⟩ := Option.map_eq_some_iff.mp h
    rw [Item.encodeAll, List.flatten_cons, ← ihrest hothers, Item.encode, encodeList, ← ihpayload hbelow]
    exact eq_of_chunk? hchunk

/-- What is read as an item is how the item is written. -/
theorem eq_of_decode? {bs rest : Bytes} {item : Item} (h : decode? bs = some (item, rest)) : bs = item.encode ++ rest := by
  unfold decode? at h
  split at h
  · cases h
  · rename_i hchunk
    cases h
    exact eq_of_chunk? hchunk
  · rename_i payload after hchunk
    obtain ⟨items, hitems, he⟩ := Option.map_eq_some_iff.mp h
    cases he
    rw [Item.encode, encodeList, ← eq_of_decodeAll? hitems]
    exact eq_of_chunk? hchunk

/-- An item that is not too long is read from the strings that start with its encoding, and from no others. -/
theorem decode?_eq_some_iff {item : Item} (hlong : item.encode.length < 2 ^ 64) {bs rest : Bytes} :
    decode? bs = some (item, rest) ↔ bs = item.encode ++ rest := by
  constructor
  · exact eq_of_decode?
  · rintro rfl
    exact decode?_encode item hlong rest

/-- Items tell where they end: two strings that start with an item and agree have the same item and the same rest. -/
theorem Item.encode_append_inj {x y : Item} (hx : x.encode.length < 2 ^ 64) (hy : y.encode.length < 2 ^ 64) {r s : Bytes}
    (h : x.encode ++ r = y.encode ++ s) : x = y ∧ r = s := by
  have hread := decode?_encode x hx r
  rw [h, decode?_encode y hy s] at hread
  cases hread
  exact ⟨rfl, rfl⟩

end OfflineSigner.Rlp
