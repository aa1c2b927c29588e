import OfflineSigner.Proofs.Rlp.Boundary

/-!
# Reading items back

A strict decoder for items, and statements that it reads back what `Item.encode` writes. The decoder takes lengths only in their
shortest form, and no header in front of a single byte below `0x80`, so the payload that it finds is written in the one way that
it read (`eq_of_chunk?`); that also bounds its recursion. An item is read back from the front of any string (`decode?_encode`),
and a run of items from the whole of it (`decodeAll?_encodeAll`); this needs lengths that eight bytes can hold.
-/

namespace OfflineSigner.Rlp

/-! ## The decoder -/

/-- The first `n` bytes and what follows them, if there are as many. -/
def split? (n : Nat) (bs : Bytes) : Option (Bytes × Bytes) :=
  if n ≤ bs.length then some (bs.take n, bs.drop n) else none

/-- A payload whose length stands in front of it in `width` bytes, and what follows. The length has no zeros in front, and is not
one that fits in the header's first byte. -/
def long? (width : Nat) (bs : Bytes) : Option (Bytes × Bytes) :=
  match split? width bs with
  | none => none
  | some (digits, rest) =>
    if digits.head? = some 0 ∨ digits.toNatBE < 56 then none else split? digits.toNatBE rest

/-- Whether a byte string is its own item. -/
def isBare : Bytes → Bool
  | [b] => b < 0x80
  | _ => false

/-- The payload of an item, of which a list is not yet read. -/
inductive Chunk where
  | bytes (payload : Bytes)
  | list (payload : Bytes)

/-- The payload of the item in front, and what follows it. -/
def chunk? : Bytes → Option (Chunk × Bytes)
  | [] => none
  | b :: rest =>
    if b.toNat < 0x80 then some (.bytes [b], rest)
    else if b.toNat < 0xb8 then
      match split? (b.toNat - 0x80) rest with
      | none => none
      | some (payload, rest) => if isBare payload then none else some (.bytes payload, rest)
    else if b.toNat < 0xc0 then (long? (b.toNat - 0xb7) rest).map (Prod.map .bytes id)
    else if b.toNat < 0xf8 then (split? (b.toNat - 0xc0) rest).map (Prod.map .list id)
    else (long? (b.toNat - 0xf7) rest).map (Prod.map .list id)

/-! ## What is read is what is written -/

/-- The two parts of a string, the first of the length that was asked for. -/
theorem eq_append_of_split? {n : Nat} {bs payload rest : Bytes} (h : split? n bs = some (payload, rest)) :
    bs = payload ++ rest ∧ payload.length = n := by
  unfold split? at h
  split at h
  · rename_i hle
    cases h
    exact ⟨(List.take_append_drop n bs).symm, List.length_take_of_le hle⟩
  · cases h

theorem isBare_eq_true_iff {bs : Bytes} : isBare bs = true ↔ ∃ b, bs = [b] ∧ b < 0x80 := by
  cases bs with
  | nil => simp [isBare]
  | cons b tail => cases tail <;> simp [isBare]

/-- A byte string that is not its own item stands behind a header. -/
theorem encodeBytes_of_isBare_eq_false {bs : Bytes} (h : isBare bs = false) : encodeBytes bs = withHeader 0x80 0xb7 bs :=
  encodeBytes_eq_withHeader fun b hb hlt => by simp [hb, isBare, hlt] at h

/-- A payload as the encoder writes it. -/
def Chunk.encode : Chunk → Bytes
  | .bytes payload => encodeBytes payload
  | .list payload => withHeader 0xc0 0xf7 payload

/-- The length in front of a long payload is its length in the shortest form. -/
theorem eq_append_of_long? {width : Nat} (hwidth : width ≤ 8) {bs payload rest : Bytes}
    (h : long? width bs = some (payload, rest)) :
    bs = numberBytes 8 payload.length ++ (payload ++ rest) ∧ (numberBytes 8 payload.length).length = width ∧
      56 ≤ payload.length := by
  unfold long? at h
  split at h
  · cases h
  · rename_i digits after hdigits
    obtain ⟨rfl, hlength⟩ := eq_append_of_split? hdigits
    split at h
    · cases h
    · rename_i hform
      obtain ⟨hzero, hshort⟩ := not_or.mp hform
      obtain ⟨rfl, hpayload⟩ := eq_append_of_split? h
      have hnumber : numberBytes 8 payload.length = digits := by
        rw [hpayload]
        exact numberBytes_toNatBE (hlength.trans_le hwidth) hzero
      rw [hnumber]
      exact ⟨rfl, hlength, by omega⟩

/-- A short payload behind the byte that gives its length. -/
theorem withHeader_of_length_eq {short long : Nat} {b : UInt8} {payload : Bytes} (hshort : short ≤ b.toNat)
    (hlt : b.toNat < short + 56) (h : payload.length = b.toNat - short) :
    withHeader short long payload = b :: payload := by
  have hsum : short + payload.length = b.toNat := by omega
  rw [withHeader, if_pos (by omega), hsum, UInt8.ofNat_toNat]

/-- A long payload behind the byte that gives the length of its length. -/
theorem withHeader_of_length_numberBytes_eq {short long : Nat} {b : UInt8} {payload : Bytes} (hlong : long ≤ b.toNat)
    (h : (numberBytes 8 payload.length).length = b.toNat - long) (hge : 56 ≤ payload.length) :
    withHeader short long payload = b :: (numberBytes 8 payload.length ++ payload) := by
  have hsum : long + (numberBytes 8 payload.length).length = b.toNat := by omega
  rw [withHeader, if_neg (by omega)]
  dsimp only
  rw [hsum, UInt8.ofNat_toNat, List.cons_append]

/-- What is read as a payload is how the payload is written. -/
theorem eq_of_chunk? {bs rest : Bytes} {chunk : Chunk} (h : chunk? bs = some (chunk, rest)) : bs = chunk.encode ++ rest := by
  cases bs with
  | nil => cases h
  | cons b tail =>
    have hb := b.toNat_lt
    rw [chunk?] at h
    split at h
    · rename_i hbare
      cases h
      rw [Chunk.encode, encodeBytes_singleton (UInt8.lt_iff_toNat_lt.mpr hbare), List.singleton_append]
    split at h
    · split at h
      · cases h
      · rename_i payload after hsplit
        split at h
        · cases h
        · rename_i hbare
          cases h
          obtain ⟨rfl, hlength⟩ := eq_append_of_split? hsplit
          rw [Chunk.encode, encodeBytes_of_isBare_eq_false (Bool.eq_false_iff.mpr hbare),
            withHeader_of_length_eq (by omega) (by omega) hlength, List.cons_append]
    split at h
    · obtain ⟨⟨payload, after⟩, hlong, he⟩ := Option.map_eq_some_iff.mp h
      cases he
      obtain ⟨rfl, hdigits, hge⟩ := eq_append_of_long? (by omega) hlong
      have hbare : isBare payload = false := by
        refine Bool.eq_false_iff.mpr fun hbare => ?_
        obtain ⟨c, rfl, -⟩ := isBare_eq_true_iff.mp hbare
        exact absurd hge (by simp)
      rw [Chunk.encode, encodeBytes_of_isBare_eq_false hbare, withHeader_of_length_numberBytes_eq (by omega) hdigits hge,
        List.cons_append, List.append_assoc]
      rfl
    split at h
    · obtain ⟨⟨payload, after⟩, hsplit, he⟩ := Option.map_eq_some_iff.mp h
      cases he
      obtain ⟨rfl, hlength⟩ := eq_append_of_split? hsplit
      rw [Chunk.encode, withHeader_of_length_eq (by omega) (by omega) hlength, List.cons_append]
      rfl
    · obtain ⟨⟨payload, after⟩, hlong, he⟩ := Option.map_eq_some_iff.mp h
      cases he
      obtain ⟨rfl, hdigits, hge⟩ := eq_append_of_long? (by omega) hlong
      rw [Chunk.encode, withHeader_of_length_numberBytes_eq (by omega) hdigits hge, List.cons_append, List.append_assoc]
      rfl

/-- A header takes one byte to nine. -/
theorem length_header (short long length : Nat) :
    0 < (header short long length).length ∧ (header short long length).length ≤ 9 := by
  have hdigits := length_numberBytes_le 8 length
  unfold header
  split
  · rw [List.length_singleton]
    decide
  · rw [List.length_cons]
    omega

theorem length_lt_withHeader (short long : Nat) (payload : Bytes) :
    payload.length < (withHeader short long payload).length := by
  have hheader := length_header short long payload.length
  rw [withHeader_eq, List.length_append]
  omega

theorem length_encodeBytes_ge (bs : Bytes) : bs.length ≤ (encodeBytes bs).length := by
  unfold encodeBytes
  split
  · split
    · exact Nat.le_refl _
    · exact (length_lt_withHeader _ _ _).le
  · exact (length_lt_withHeader _ _ _).le

theorem length_encodeList_ge (encoded : List Bytes) : encoded.flatten.length ≤ (encodeList encoded).length :=
  (length_lt_withHeader _ _ _).le

theorem encodeBytes_ne_nil (bs : Bytes) : encodeBytes bs ≠ [] := by
  by_cases h : ∃ b, bs = [b] ∧ b < 0x80
  · obtain ⟨b, rfl, hb⟩ := h
    rw [encodeBytes_singleton hb]
    exact List.cons_ne_nil _ _
  · rw [encodeBytes_eq_withHeader fun b hb hlt => h ⟨b, hb, hlt⟩]
    exact List.ne_nil_of_length_pos (Nat.zero_lt_of_lt (length_lt_withHeader _ _ _))

/-- What follows an item is shorter than the whole, and so is the payload of a list. -/
theorem length_of_chunk? {bs rest : Bytes} {chunk : Chunk} (h : chunk? bs = some (chunk, rest)) :
    rest.length < bs.length ∧ ∀ payload, chunk = .list payload → payload.length < bs.length := by
  rw [eq_of_chunk? h, List.length_append]
  cases chunk with
  | bytes payload =>
    have hpos := List.length_pos_iff.mpr (encodeBytes_ne_nil payload)
    exact ⟨by rw [Chunk.encode]; omega, nofun⟩
  | list payload =>
    have hlt := length_lt_withHeader 0xc0 0xf7 payload
    refine ⟨by rw [Chunk.encode]; omega, fun payload' hlist => ?_⟩
    cases hlist
    rw [Chunk.encode]
    omega

/-! ## Items -/

/-- The items of a string that holds nothing else. -/
def decodeAll? (bs : Bytes) : Option (List Item) :=
  match _h : chunk? bs with
  | none => if bs.isEmpty then some [] else none
  | some (.bytes payload, rest) => (decodeAll? rest).map (.bytes payload :: ·)
  | some (.list payload, rest) =>
    match decodeAll? payload with
    | none => none
    | some items => (decodeAll? rest).map (.list items :: ·)
termination_by bs.length
decreasing_by
  · exact (length_of_chunk? _h).1
  · exact (length_of_chunk? _h).2 payload rfl
  · exact (length_of_chunk? _h).1

/-- The item in front, and what follows it. -/
def decode? (bs : Bytes) : Option (Item × Bytes) :=
  match chunk? bs with
  | none => none
  | some (.bytes payload, rest) => some (.bytes payload, rest)
  | some (.list payload, rest) => (decodeAll? payload).map fun items => (.list items, rest)

/-! ## What is written is read back -/

@[simp] theorem split?_append (payload rest : Bytes) : split? payload.length (payload ++ rest) = some (payload, rest) := by
  simp [split?]

/-- A length in its shortest form, and the payload behind it. -/
theorem long?_append {payload : Bytes} (hshort : 56 ≤ payload.length) (hlong : payload.length < 2 ^ 64) (rest : Bytes) :
    long? (numberBytes 8 payload.length).length (numberBytes 8 payload.length ++ (payload ++ rest)) =
      some (payload, rest) := by
  have hvalue : Bytes.toNatBE (numberBytes 8 payload.length) = payload.length := by
    rw [toNatBE_numberBytes]
    exact Nat.mod_eq_of_lt hlong
  rw [long?, split?_append]
  dsimp only
  rw [hvalue, if_neg, split?_append]
  rintro (hzero | hlt)
  · exact head?_numberBytes 8 payload.length hzero
  · omega

/-- A number that eight bytes hold has no bytes only when it is zero. -/
theorem length_numberBytes_pos {n : Nat} (hpos : 0 < n) (hlt : n < 2 ^ 64) : 0 < (numberBytes 8 n).length := by
  refine List.length_pos_iff.mpr fun hnil => ?_
  have hvalue := toNatBE_numberBytes 8 n
  rw [hnil, Bytes.toNatBE_nil, Nat.mod_eq_of_lt (by omega)] at hvalue
  omega

/-- The header of a byte string is read back with the string. -/
theorem chunk?_withHeader_bytes {payload : Bytes} (hbare : isBare payload = false) (hlong : payload.length < 2 ^ 64)
    (rest : Bytes) : chunk? (withHeader 0x80 0xb7 payload ++ rest) = some (.bytes payload, rest) := by
  have hdigits := length_numberBytes_le 8 payload.length
  unfold withHeader
  split
  · have hfirst : (UInt8.ofNat (0x80 + payload.length)).toNat = 0x80 + payload.length :=
      UInt8.toNat_ofNat_of_lt' (by change _ < 256; omega)
    rw [List.cons_append, chunk?, hfirst, if_neg (by omega), if_pos (by omega), Nat.add_sub_cancel_left, split?_append]
    simp [hbare]
  · have hpos := length_numberBytes_pos (by omega) hlong
    have hfirst : (UInt8.ofNat (0xb7 + (numberBytes 8 payload.length).length)).toNat =
        0xb7 + (numberBytes 8 payload.length).length := UInt8.toNat_ofNat_of_lt' (by change _ < 256; omega)
    rw [List.cons_append, List.cons_append, List.append_assoc, chunk?, hfirst, if_neg (by omega), if_neg (by omega),
      if_pos (by omega), Nat.add_sub_cancel_left, long?_append (by omega) hlong]
    rfl

/-- The header of a list is read back with the payload of the list. -/
theorem chunk?_withHeader_list {payload : Bytes} (hlong : payload.length < 2 ^ 64) (rest : Bytes) :
    chunk? (withHeader 0xc0 0xf7 payload ++ rest) = some (.list payload, rest) := by
  have hdigits := length_numberBytes_le 8 payload.length
  unfold withHeader
  split
  · have hfirst : (UInt8.ofNat (0xc0 + payload.length)).toNat = 0xc0 + payload.length :=
      UInt8.toNat_ofNat_of_lt' (by change _ < 256; omega)
    rw [List.cons_append, chunk?, hfirst, if_neg (by omega), if_neg (by omega), if_neg (by omega), if_pos (by omega),
      Nat.add_sub_cancel_left, split?_append]
    rfl
  · have hpos := length_numberBytes_pos (by omega) hlong
    have hfirst : (UInt8.ofNat (0xf7 + (numberBytes 8 payload.length).length)).toNat =
        0xf7 + (numberBytes 8 payload.length).length := UInt8.toNat_ofNat_of_lt' (by change _ < 256; omega)
    rw [List.cons_append, List.cons_append, List.append_assoc, chunk?, hfirst, if_neg (by omega), if_neg (by omega),
      if_neg (by omega), if_neg (by omega), Nat.add_sub_cancel_left, long?_append (by omega) hlong]
    rfl

/-- A byte string is read back from its item. -/
theorem chunk?_encodeBytes {bs : Bytes} (hlong : bs.length < 2 ^ 64) (rest : Bytes) :
    chunk? (encodeBytes bs ++ rest) = some (.bytes bs, rest) := by
  unfold encodeBytes
  split
  · rename_i b
    split
    · rename_i hlt
      have hlt : b.toNat < 0x80 := UInt8.lt_iff_toNat_lt.mp hlt
      rw [List.singleton_append, chunk?, if_pos hlt]
    · rename_i hge
      exact chunk?_withHeader_bytes (by simpa [isBare] using hge) hlong rest
  · rename_i hne
    refine chunk?_withHeader_bytes (Bool.eq_false_iff.mpr fun hbare => ?_) hlong rest
    obtain ⟨b, hb, -⟩ := isBare_eq_true_iff.mp hbare
    exact hne b hb

/-- The payload of a list is read back from the list. -/
theorem chunk?_encodeList {encoded : List Bytes} (hlong : encoded.flatten.length < 2 ^ 64) (rest : Bytes) :
    chunk? (encodeList encoded ++ rest) = some (.list encoded.flatten, rest) :=
  chunk?_withHeader_list hlong rest

theorem length_withHeader_le (short long : Nat) (payload : Bytes) :
    (withHeader short long payload).length ≤ payload.length + 9 := by
  have hheader := length_header short long payload.length
  rw [withHeader_eq, List.length_append]
  omega

theorem length_encodeBytes_le (bs : Bytes) : (encodeBytes bs).length ≤ bs.length + 9 := by
  unfold encodeBytes
  split
  · split
    · exact Nat.le_add_right _ _
    · exact length_withHeader_le _ _ _
  · exact length_withHeader_le _ _ _

theorem length_encodeList_le (encoded : List Bytes) : (encodeList encoded).length ≤ encoded.flatten.length + 9 :=
  length_withHeader_le _ _ _

theorem encodeAll_append (xs ys : List Item) : Item.encodeAll (xs ++ ys) = Item.encodeAll xs ++ Item.encodeAll ys := by
  induction xs with
  | nil => rfl
  | cons x xs ih => rw [List.cons_append, Item.encodeAll, Item.encodeAll, ih, List.cons_append]

/-- Items with a bound on the length of each. -/
theorem length_encodeAll_le {items : List Item} {bound : Nat} (h : ∀ item ∈ items, item.encode.length ≤ bound) :
    (Item.encodeAll items).flatten.length ≤ bound * items.length := by
  induction items with
  | nil => exact Nat.zero_le _
  | cons item items ih =>
    have hitem := h item List.mem_cons_self
    have hitems := ih fun other hother => h other (List.mem_cons_of_mem item hother)
    rw [Item.encodeAll, List.flatten_cons, List.length_append, List.length_cons, Nat.mul_succ]
    omega

mutual

/-- An item in front of others is read first, and the others after it. -/
theorem decodeAll?_encode_append (item : Item) (hlong : item.encode.length < 2 ^ 64) (rest : Bytes) :
    decodeAll? (item.encode ++ rest) = (decodeAll? rest).map (item :: ·) := by
  cases item with
  | bytes bs =>
    have hbs := length_encodeBytes_ge bs
    rw [Item.encode] at hlong ⊢
    rw [decodeAll?, chunk?_encodeBytes (by omega)]
  | list items =>
    have hitems := length_encodeList_ge (Item.encodeAll items)
    rw [Item.encode] at hlong ⊢
    rw [decodeAll?, chunk?_encodeList (by omega)]
    dsimp only
    rw [decodeAll?_encodeAll items (by omega)]

/-- A run of items is read back, and nothing is left. -/
theorem decodeAll?_encodeAll (items : List Item) (hlong : (Item.encodeAll items).flatten.length < 2 ^ 64) :
    decodeAll? (Item.encodeAll items).flatten = some items := by
  cases items with
  | nil => simp [Item.encodeAll, decodeAll?, chunk?]
  | cons item items =>
    rw [Item.encodeAll, List.flatten_cons, List.length_append] at hlong
    rw [Item.encodeAll, List.flatten_cons, decodeAll?_encode_append item (by omega),
      decodeAll?_encodeAll items (by omega)]
    rfl

end

/-- An item is read back from the front of any string, with what follows it. -/
theorem decode?_encode (item : Item) (hlong : item.encode.length < 2 ^ 64) (rest : Bytes) :
    decode? (item.encode ++ rest) = some (item, rest) := by
  cases item with
  | bytes bs =>
    have hbs := length_encodeBytes_ge bs
    rw [Item.encode] at hlong ⊢
    rw [decode?, chunk?_encodeBytes (by omega)]
  | list items =>
    have hitems := length_encodeList_ge (Item.encodeAll items)
    rw [Item.encode] at hlong ⊢
    rw [decode?, chunk?_encodeList (by omega)]
    dsimp only
    rw [decodeAll?_encodeAll items (by omega)]
    rfl

end OfflineSigner.Rlp
