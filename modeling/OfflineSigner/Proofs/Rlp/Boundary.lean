import OfflineSigner.Proofs.Bytes

/-!
# Where an item ends

Statements about `Rlp.withHeader`, `Rlp.encodeBytes`, `Rlp.encodeUInt64` and `Rlp.encodeWord`: an item tells where it ends, so
two strings that start with an item and agree have the same item and the same rest. The header holds the length in at most
eight bytes, so this needs the items, or what follows them, to be shorter than `headerReach`; nothing is asked of the other
part. Main statements: `withHeader_append_inj`, `encodeBytes_append_inj`, `encodeUInt64_append_inj`, `encodeWord_append_inj`.
-/

namespace OfflineSigner.Rlp

/-- Payloads with one header and different lengths differ in length by at least this much: the eight bytes of a length tell
lengths below `2 ^ 64` apart, and a length that they cannot hold can only be mistaken for one of at most 55. -/
def headerReach : Nat := 2 ^ 64 - 55

/-- The header of a payload of a given length. -/
def header (short long length : Nat) : Bytes :=
  if length < 56 then [UInt8.ofNat (short + length)]
  else UInt8.ofNat (long + (numberBytes 8 length).length) :: numberBytes 8 length

theorem withHeader_eq (short long : Nat) (payload : Bytes) :
    withHeader short long payload = header short long payload.length ++ payload := by
  unfold withHeader header
  split <;> simp

/-- A number of eight bytes without zeros in front is empty only for multiples of `2 ^ 64`. -/
theorem dvd_of_numberBytes_eq_nil {n : Nat} (h : numberBytes 8 n = []) : 2 ^ 64 ∣ n := by
  have := toNatBE_numberBytes 8 n
  rw [h, Bytes.toNatBE_nil] at this
  exact Nat.dvd_of_mod_eq_zero this.symm

/-- Two headers in front of anything agree only when they are one header; their lengths are then one length, or far apart. -/
theorem header_append_inj {short long : Nat} (hs : long = short + 55) (hl : long + 8 < 256) {m n : Nat} {r s : Bytes}
    (h : header short long m ++ r = header short long n ++ s) :
    r = s ∧ (m = n ∨ m + headerReach ≤ n ∨ n + headerReach ≤ m) := by
  have hm := length_numberBytes_le 8 m
  have hn := length_numberBytes_le 8 n
  have byte : ∀ x y : Nat, x < 256 → y < 256 → UInt8.ofNat x = UInt8.ofNat y → x = y := by
    intro x y hx hy hxy
    have := congrArg UInt8.toNat hxy
    simpa [Nat.mod_eq_of_lt hx, Nat.mod_eq_of_lt hy] using this
  -- A short header equals a long one only for 55 bytes on the one side and no length bytes on the other.
  have mixed : ∀ {m n : Nat} {r s : Bytes}, m < 56 → ¬n < 56 → (numberBytes 8 n).length ≤ 8 →
      UInt8.ofNat (short + m) :: r = UInt8.ofNat (long + (numberBytes 8 n).length) :: (numberBytes 8 n ++ s) →
      r = s ∧ m + headerReach ≤ n := by
    intro m n r s h₁ h₂ hlen h
    obtain ⟨hb, ht⟩ := List.cons.inj h
    have hb := byte _ _ (by omega) (by omega) hb
    have hnil : numberBytes 8 n = [] := List.eq_nil_of_length_eq_zero (by omega)
    rw [hnil, List.nil_append] at ht
    obtain ⟨k, hk⟩ := dvd_of_numberBytes_eq_nil hnil
    exact ⟨ht, by rw [headerReach]; omega⟩
  unfold header at h
  split at h <;> split at h
  · obtain ⟨hb, ht⟩ := List.cons.inj h
    exact ⟨ht, Or.inl (by have := byte _ _ (by omega) (by omega) hb; omega)⟩
  · rename_i h₁ h₂
    obtain ⟨ht, hle⟩ := mixed h₁ h₂ hn h
    exact ⟨ht, Or.inr (Or.inl hle)⟩
  · rename_i h₁ h₂
    obtain ⟨ht, hle⟩ := mixed h₂ h₁ hm h.symm
    exact ⟨ht.symm, Or.inr (Or.inr hle)⟩
  · obtain ⟨hb, ht⟩ := List.cons.inj h
    have hb := byte _ _ (by omega) (by omega) hb
    obtain ⟨hnum, ht⟩ := List.append_inj ht (by omega)
    have hmod := congrArg Bytes.toNatBE hnum
    rw [toNatBE_numberBytes, toNatBE_numberBytes] at hmod
    exact ⟨ht, by rw [headerReach]; omega⟩

/-- A payload behind its header tells where it ends, among payloads within reach, or in front of rests within reach. -/
theorem withHeader_append_inj {short long : Nat} (hs : long = short + 55) (hl : long + 8 < 256) {p q r s : Bytes}
    (hreach : (p.length < headerReach ∧ q.length < headerReach) ∨ (r.length < headerReach ∧ s.length < headerReach))
    (h : withHeader short long p ++ r = withHeader short long q ++ s) : p = q ∧ r = s := by
  rw [withHeader_eq, withHeader_eq, List.append_assoc, List.append_assoc] at h
  obtain ⟨ht, hlen⟩ := header_append_inj hs hl h
  have htotal := congrArg List.length ht
  rw [List.length_append, List.length_append] at htotal
  exact List.append_inj ht (by omega)

/-! ## Byte strings and numbers -/

/-- A byte below `0x80` is its own item. -/
theorem encodeBytes_singleton {b : UInt8} (h : b < 0x80) : encodeBytes [b] = [b] := by simp [encodeBytes, h]

/-- Every other byte string stands behind a header. -/
theorem encodeBytes_eq_withHeader {bs : Bytes} (h : ∀ b, bs = [b] → ¬b < 0x80) :
    encodeBytes bs = withHeader 0x80 0xb7 bs := by
  unfold encodeBytes
  split
  · rename_i b
    rw [if_neg (h b rfl)]
  · rfl

/-- A header starts with a byte that is not below the one for an empty payload. -/
theorem header_eq_cons {short long : Nat} (hs : long = short + 55) (hl : long + 8 < 256) (n : Nat) :
    ∃ b tail, header short long n = b :: tail ∧ short ≤ b.toNat := by
  have hn := length_numberBytes_le 8 n
  unfold header
  split
  · exact ⟨_, _, rfl, by rw [UInt8.toNat_ofNat', Nat.mod_eq_of_lt (by omega)]; omega⟩
  · exact ⟨_, _, rfl, by rw [UInt8.toNat_ofNat', Nat.mod_eq_of_lt (by omega)]; omega⟩

/-- A byte below `0x80` starts no payload with a header. -/
theorem singleton_append_ne_withHeader {b : UInt8} (h : b < 0x80) (p r s : Bytes) :
    [b] ++ r ≠ withHeader 0x80 0xb7 p ++ s := by
  have hlong : (0xb7 : Nat) = 0x80 + 55 := rfl
  obtain ⟨c, tail, hc, hle⟩ := header_eq_cons hlong (by decide) p.length
  rw [withHeader_eq, hc]
  intro he
  have hbc := (List.cons.inj he).1
  subst hbc
  have : b.toNat < 0x80 := UInt8.lt_iff_toNat_lt.mp h
  omega

/-- A byte string as an item tells where it ends. -/
theorem encodeBytes_append_inj {p q r s : Bytes}
    (hreach : (p.length < headerReach ∧ q.length < headerReach) ∨ (r.length < headerReach ∧ s.length < headerReach))
    (h : encodeBytes p ++ r = encodeBytes q ++ s) : p = q ∧ r = s := by
  by_cases hp : ∃ b, p = [b] ∧ b < 0x80 <;> by_cases hq : ∃ b, q = [b] ∧ b < 0x80
  · obtain ⟨b, rfl, hb⟩ := hp
    obtain ⟨c, rfl, hc⟩ := hq
    rw [encodeBytes_singleton hb, encodeBytes_singleton hc] at h
    exact List.append_inj h rfl
  · obtain ⟨b, rfl, hb⟩ := hp
    rw [encodeBytes_singleton hb, encodeBytes_eq_withHeader fun c hc hlt => hq ⟨c, hc, hlt⟩] at h
    exact absurd h (singleton_append_ne_withHeader hb _ _ _)
  · obtain ⟨c, rfl, hc⟩ := hq
    rw [encodeBytes_singleton hc, encodeBytes_eq_withHeader fun b hb hlt => hp ⟨b, hb, hlt⟩] at h
    exact absurd h.symm (singleton_append_ne_withHeader hc _ _ _)
  · rw [encodeBytes_eq_withHeader fun b hb hlt => hp ⟨b, hb, hlt⟩,
      encodeBytes_eq_withHeader fun c hc hlt => hq ⟨c, hc, hlt⟩] at h
    exact withHeader_append_inj rfl (by decide) hreach h

/-- A number of at most 32 bytes as an item tells where it ends. -/
theorem encodeNumber_append_inj {width m n : Nat} (hw : width ≤ 32) (hm : m < 256 ^ width) (hn : n < 256 ^ width)
    {r s : Bytes} (h : encodeBytes (numberBytes width m) ++ r = encodeBytes (numberBytes width n) ++ s) :
    m = n ∧ r = s := by
  have hlm := length_numberBytes_le width m
  have hln := length_numberBytes_le width n
  obtain ⟨hb, ht⟩ := encodeBytes_append_inj (Or.inl ⟨by rw [headerReach]; omega, by rw [headerReach]; omega⟩) h
  exact ⟨numberBytes_inj hm hn hb, ht⟩

theorem encodeUInt64_append_inj {m n : UInt64} {r s : Bytes} (h : encodeUInt64 m ++ r = encodeUInt64 n ++ s) :
    m = n ∧ r = s := by
  obtain ⟨hb, ht⟩ := encodeNumber_append_inj (by decide) m.toNat_lt n.toNat_lt h
  exact ⟨UInt64.toNat_inj.mp hb, ht⟩

theorem encodeWord_append_inj {m n : BitVec 256} {r s : Bytes} (h : encodeWord m ++ r = encodeWord n ++ s) :
    m = n ∧ r = s := by
  obtain ⟨hb, ht⟩ := encodeNumber_append_inj (by decide) (m.isLt.trans_le (by decide)) (n.isLt.trans_le (by decide)) h
  exact ⟨BitVec.eq_of_toNat_eq hb, ht⟩

/-- Bytes of one known length as an item tell where they end. -/
theorem encodeFixed_append_inj {n : Nat} (hn : n < headerReach) {as bs : FixedBytes n} {r s : Bytes}
    (h : encodeBytes as.toList ++ r = encodeBytes bs.toList ++ s) : as = bs ∧ r = s := by
  obtain ⟨hb, ht⟩ := encodeBytes_append_inj (Or.inl ⟨by rwa [as.length_toList], by rwa [bs.length_toList]⟩) h
  cases as
  cases bs
  subst hb
  exact ⟨rfl, ht⟩

/-- A number of 64 bits takes at most nine bytes. -/
theorem length_encodeUInt64_le (n : UInt64) : (encodeUInt64 n).length ≤ 9 := by
  have hn := length_numberBytes_le 8 n.toNat
  have hw : (withHeader 0x80 0xb7 (numberBytes 8 n.toNat)).length = (numberBytes 8 n.toNat).length + 1 := by
    rw [withHeader, if_pos (by omega), List.length_cons]
  unfold encodeUInt64
  by_cases h : ∃ b, numberBytes 8 n.toNat = [b] ∧ b < 0x80
  · obtain ⟨b, hb, hlt⟩ := h
    rw [hb, encodeBytes_singleton hlt]
    simp
  · rw [encodeBytes_eq_withHeader fun b hb hlt => h ⟨b, hb, hlt⟩, hw]
    omega

/-! ## Lists -/

/-- Two finished lists that agree have the same encoded items, run together. -/
theorem encodeList_inj {xs ys : List Bytes} (h : encodeList xs = encodeList ys) : xs.flatten = ys.flatten := by
  have h' : withHeader 0xc0 0xf7 xs.flatten ++ [] = withHeader 0xc0 0xf7 ys.flatten ++ [] := by
    rw [List.append_nil, List.append_nil]
    exact h
  exact (withHeader_append_inj rfl (by decide) (Or.inr ⟨by decide, by decide⟩) h').1

/-- A list starts with a byte of at least `0xc0`. -/
theorem encodeList_eq_cons (xs : List Bytes) : ∃ b tail, encodeList xs = b :: tail ∧ 0xc0 ≤ b.toNat := by
  have hlong : (0xf7 : Nat) = 0xc0 + 55 := rfl
  obtain ⟨b, tail, h, hle⟩ := header_eq_cons hlong (by decide) xs.flatten.length
  exact ⟨b, tail ++ xs.flatten, by rw [encodeList, withHeader_eq, h, List.cons_append], hle⟩

end OfflineSigner.Rlp
