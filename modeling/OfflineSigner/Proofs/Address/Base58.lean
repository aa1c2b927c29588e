import OfflineSigner.Address.Base58
import OfflineSigner.Proofs.Bytes
import OfflineSigner.Proofs.Text

/-!
# Texts in base 58 are read back

The statements that `Base58.decode?` reads what `Base58.encode` writes (`decode?_encode`), and so with a checksum
(`decodeChecked?_encodeChecked`). The characters are those of the number's digits behind one zero for each zero byte in front
(`encode_eq`). Both ways the number is held without loss: two digits hold more than a byte, and a byte holds more than a digit.
-/

namespace OfflineSigner.Address.Base58

/-! ## Digits -/

/-- A digit is read back, and only that of zero is a `1`. -/
theorem digit_spec : ∀ d : Fin 58, value? (digit d.val) = some d.val ∧ (digit d.val = '1' ↔ d.val = 0) := by decide

/-- Digits are read back from their characters. -/
theorem mapM_value?_digit {ds : List Nat} (h : ∀ d ∈ ds, d < 58) : (ds.map digit).mapM value? = some ds :=
  mapM_map_of_forall fun d hd => (digit_spec ⟨d, h d hd⟩).1

/-- A width holds the number modulo its power of 58. -/
theorem ofDigits_digits (width n : Nat) : Text.ofDigits 58 (digits width n) = n % 58 ^ width := by
  induction width generalizing n with
  | zero => simp [digits, Text.ofDigits, Nat.mod_one]
  | succ width ih => rw [digits, Text.ofDigits_snoc, ih, pow_succ', Nat.mod_mul, Nat.add_comm]

theorem digits_lt (width n : Nat) : ∀ d ∈ digits width n, d < 58 := by
  induction width generalizing n with
  | zero => simp [digits]
  | succ width ih =>
    intro d hd
    rcases List.mem_append.mp hd with hd | hd
    · exact ih (n / 58) d hd
    · rw [List.mem_singleton.mp hd]
      exact Nat.mod_lt n (by decide)

/-! ## Byte strings -/

/-- The digits of the number that a byte string writes, without zeros in front. -/
def significant (bs : Bytes) : List Nat := (digits (2 * bs.length) bs.toNatBE).dropWhile (· == 0)

/-- How many zero bytes are in front of a byte string. -/
def zeros (bs : Bytes) : Nat := (bs.takeWhile (· == 0)).length

theorem significant_lt (bs : Bytes) : ∀ d ∈ significant bs, d < 58 := by
  intro d hd
  exact digits_lt _ _ d ((List.dropWhile_sublist _).mem hd)

/-- Two digits hold more than a byte. -/
theorem ofDigits_significant (bs : Bytes) : Text.ofDigits 58 (significant bs) = bs.toNatBE := by
  have hlt : bs.toNatBE < 58 ^ (2 * bs.length) := by
    rw [pow_mul]
    exact bs.toNatBE_lt.trans_le (Nat.pow_le_pow_left (by decide) bs.length)
  rw [significant, Text.ofDigits_dropWhile, ofDigits_digits, Nat.mod_eq_of_lt hlt]

theorem encode_eq (bs : Bytes) : encode bs = (List.replicate (zeros bs) 0 ++ significant bs).map digit := by
  rw [List.map_append, List.map_replicate]
  rfl

/-- As many characters `1` are in front as zero bytes. -/
theorem length_takeWhile_encode (bs : Bytes) : ((encode bs).takeWhile (· == '1')).length = zeros bs := by
  have hhead : ((significant bs).map digit).takeWhile (· == '1') = [] := by
    have hfirst := List.head?_dropWhile_not (· == 0) (digits (2 * bs.length) bs.toNatBE)
    cases hds : significant bs with
    | nil => rfl
    | cons d ds =>
      have hd := (digit_spec ⟨d, significant_lt bs d (by rw [hds]; exact List.mem_cons_self)⟩).2
      rw [significant] at hds
      rw [hds] at hfirst
      simp at hfirst hd
      simp [hd, hfirst]
  rw [encode_eq, List.map_append, List.map_replicate, List.takeWhile_append_of_pos, hhead]
  · simp
  · intro c hc
    rw [List.eq_of_mem_replicate hc]
    rfl

/-- The bytes behind the zeros in front are those that the number needs; a byte holds more than a digit. -/
theorem trimZeros_ofNatBE (bs : Bytes) : (Bytes.ofNatBE (encode bs).length bs.toNatBE).trimZeros = bs.trimZeros := by
  have hlt : bs.toNatBE < 256 ^ (encode bs).length := by
    have hle : (significant bs).length ≤ (encode bs).length := by simp [encode_eq]
    calc bs.toNatBE = Text.ofDigits 58 (significant bs) := (ofDigits_significant bs).symm
      _ < 58 ^ (significant bs).length := Text.ofDigits_lt (significant_lt bs)
      _ ≤ 256 ^ (significant bs).length := Nat.pow_le_pow_left (by decide) _
      _ ≤ 256 ^ (encode bs).length := Nat.pow_le_pow_right (by decide) hle
  refine Bytes.toNatBE_inj_of_head (Bytes.head?_trimZeros _) (Bytes.head?_trimZeros _) ?_
  rw [Bytes.toNatBE_trimZeros, Bytes.toNatBE_trimZeros, Bytes.toNatBE_ofNatBE_of_lt hlt]

/-- A byte string is its zeros in front and what is left without them. -/
theorem replicate_append_trimZeros (bs : Bytes) : List.replicate (zeros bs) 0 ++ bs.trimZeros = bs := by
  have hzero : ∀ b ∈ bs.takeWhile (· == 0), b = 0 := by
    intro b hb
    simpa using List.mem_takeWhile_imp hb
  have hzeros : bs.takeWhile (· == 0) = List.replicate (zeros bs) 0 := List.eq_replicate_of_mem hzero
  rw [← hzeros]
  exact List.takeWhile_append_dropWhile

/-- A byte string is read back from its characters. -/
theorem decode?_encode (bs : Bytes) : decode? (encode bs) = some bs := by
  have hdigits : ∀ d ∈ List.replicate (zeros bs) 0 ++ significant bs, d < 58 := by
    intro d hd
    rcases List.mem_append.mp hd with hd | hd
    · rw [List.eq_of_mem_replicate hd]
      decide
    · exact significant_lt bs d hd
  have hread := mapM_value?_digit hdigits
  rw [← encode_eq] at hread
  have hvalue := Text.ofDigits_replicate_append 58 (zeros bs) (significant bs)
  rw [ofDigits_significant] at hvalue
  unfold Text.ofDigits at hvalue
  simp only [decode?, hread, Option.bind_eq_bind, Option.bind_some, hvalue, length_takeWhile_encode, trimZeros_ofNatBE,
    replicate_append_trimZeros]
  rfl

/-- A byte string is read back from its text with a checksum. -/
theorem decodeChecked?_encodeChecked (bs : Bytes) : decodeChecked? (encodeChecked bs).toList = some bs := by
  have hchecksum : (checksum bs).length = 4 := by simp [checksum, FixedBytes.length_toList]
  have hlength : (bs ++ checksum bs).length - 4 = bs.length := by
    rw [List.length_append, hchecksum, Nat.add_sub_cancel]
  have hlong : ¬(bs ++ checksum bs).length < 4 := by
    rw [List.length_append, hchecksum]
    omega
  unfold decodeChecked?
  rw [encodeChecked, String.toList_ofList, decode?_encode, Option.bind_eq_bind, Option.bind_some, if_neg hlong]
  dsimp only
  rw [hlength, List.take_left, List.drop_left, if_pos rfl]

end OfflineSigner.Address.Base58
