import OfflineSigner.Rlp
import Mathlib.Tactic.Linarith
import Mathlib.Tactic.Ring

/-!
# Numbers in base 256

Statements about `Bytes.toNatBE`, `Bytes.ofNatBE` and `Rlp.numberBytes`: a fixed width holds every number below its power of
256 (`Bytes.toNatBE_ofNatBE`, and `Bytes.toNatLE_ofNatLE` in the other order), byte strings of one length are told apart by
their numbers (`Bytes.toNatBE_inj`), and a number is told apart by its bytes without zeros in front (`Rlp.numberBytes_inj`).
-/

namespace OfflineSigner

/-- Pieces of one width take their number times the width. -/
theorem length_flatMap_of_forall {α β : Type} {f : α → List β} {width : Nat} {as : List α}
    (h : ∀ a ∈ as, (f a).length = width) : (as.flatMap f).length = width * as.length := by
  induction as with
  | nil => rfl
  | cons a as ih =>
    rw [List.flatMap_cons, List.length_append, h a List.mem_cons_self, ih fun a' ha' => h a' (List.mem_cons_of_mem a ha'),
      List.length_cons]
    ring

/-- What is written for each member of a list is read back when it is for every member alone. -/
theorem mapM_map_of_forall {α β : Type} {write : α → β} {read : β → Option α} {as : List α}
    (h : ∀ a ∈ as, read (write a) = some a) : (as.map write).mapM read = some as := by
  induction as with
  | nil => rfl
  | cons a as ih =>
    rw [List.map_cons, List.mapM_cons, h a List.mem_cons_self, ih fun a' ha' => h a' (List.mem_cons_of_mem a ha')]
    rfl

namespace FixedBytes

theorem eq_of_toList {n : Nat} {a b : FixedBytes n} (h : a.toList = b.toList) : a = b := by
  cases a
  cases b
  cases h
  rfl

theorem ofList?_eq_some_iff {n : Nat} {bs : Bytes} {a : FixedBytes n} : ofList? n bs = some a ↔ a.toList = bs := by
  constructor
  · intro h
    unfold ofList? at h
    split at h
    · cases h
      rfl
    · cases h
  · rintro rfl
    exact a.ofList?_toList

end FixedBytes

namespace Bytes

@[simp] theorem toNatBE_nil : toNatBE [] = 0 := rfl

/-- Digits in front weigh as much as the digits behind them can hold. -/
theorem foldl_toNatBE (bs : Bytes) (n : Nat) :
    bs.foldl (fun n b => 256 * n + b.toNat) n = n * 256 ^ bs.length + toNatBE bs := by
  induction bs generalizing n with
  | nil => simp
  | cons b bs ih =>
    rw [toNatBE, List.foldl_cons, List.foldl_cons, ih, ih (256 * 0 + b.toNat), List.length_cons, pow_succ]
    ring

theorem toNatBE_append (as bs : Bytes) : toNatBE (as ++ bs) = toNatBE as * 256 ^ bs.length + toNatBE bs := by
  rw [toNatBE, List.foldl_append, foldl_toNatBE]
  rfl

theorem toNatBE_cons (b : UInt8) (bs : Bytes) : toNatBE (b :: bs) = b.toNat * 256 ^ bs.length + toNatBE bs := by
  have h := toNatBE_append [b] bs
  have hb : toNatBE [b] = b.toNat := by simp [toNatBE]
  rwa [hb] at h

theorem toNatBE_lt (bs : Bytes) : toNatBE bs < 256 ^ bs.length := by
  induction bs with
  | nil => simp
  | cons b bs ih =>
    have hb : b.toNat + 1 ≤ 256 := b.toNat_lt
    have hm := Nat.mul_le_mul_right (256 ^ bs.length) hb
    rw [toNatBE_cons, List.length_cons, pow_succ]
    linarith

/-- A fixed width holds the number modulo its power of 256. -/
theorem toNatBE_ofNatBE (width n : Nat) : toNatBE (ofNatBE width n) = n % 256 ^ width := by
  induction width generalizing n with
  | zero => simp [ofNatBE, Nat.mod_one]
  | succ width ih =>
    have hb : toNatBE [UInt8.ofNat n] = n % 256 := by simp [toNatBE]
    rw [ofNatBE, toNatBE_append, ih, hb, List.length_singleton, pow_one, pow_succ', Nat.mod_mul, add_comm,
      Nat.mul_comm]

theorem toNatBE_ofNatBE_of_lt {width n : Nat} (h : n < 256 ^ width) : toNatBE (ofNatBE width n) = n := by
  rw [toNatBE_ofNatBE, Nat.mod_eq_of_lt h]

/-- Byte strings of one length are told apart by their numbers. -/
theorem toNatBE_inj {as bs : Bytes} (hl : as.length = bs.length) (h : toNatBE as = toNatBE bs) : as = bs := by
  induction as generalizing bs with
  | nil => exact (List.eq_nil_of_length_eq_zero hl.symm).symm
  | cons a as ih =>
    obtain ⟨b, bs, rfl⟩ := List.exists_cons_of_length_eq_add_one hl.symm
    have hl' : as.length = bs.length := by simpa using hl
    rw [toNatBE_cons, toNatBE_cons, hl'] at h
    have ha := toNatBE_lt as
    have hb := toNatBE_lt bs
    rw [hl'] at ha
    have hpos : 0 < 256 ^ bs.length := Nat.pos_of_ne_zero (by simp)
    have hdiv : ∀ x y : Nat, y < 256 ^ bs.length → (x * 256 ^ bs.length + y) / 256 ^ bs.length = x := by
      intro x y hy
      rw [Nat.add_comm, Nat.add_mul_div_right _ _ hpos, Nat.div_eq_of_lt hy, Nat.zero_add]
    have hq : a.toNat = b.toNat := by rw [← hdiv a.toNat _ ha, h, hdiv _ _ hb]
    rw [UInt8.toNat_inj.mp hq, ih hl' (by rw [hq] at h; omega)]

/-- Writing what was read gives the bytes back. -/
theorem ofNatBE_toNatBE (bs : Bytes) : ofNatBE bs.length (toNatBE bs) = bs :=
  toNatBE_inj (length_ofNatBE _ _) (toNatBE_ofNatBE_of_lt (toNatBE_lt bs))

/-- A fixed width holds the number modulo its power of 256 in the other order, too. -/
theorem toNatLE_ofNatLE (width n : Nat) : toNatLE (ofNatLE width n) = n % 256 ^ width := by
  induction width generalizing n with
  | zero => simp [ofNatLE, toNatLE, Nat.mod_one]
  | succ width ih =>
    have hb : (UInt8.ofNat n).toNat = n % 256 := UInt8.toNat_ofNat'
    rw [ofNatLE, toNatLE, ih, hb, pow_succ', Nat.mod_mul]

theorem toNatLE_ofNatLE_of_lt {width n : Nat} (h : n < 256 ^ width) : toNatLE (ofNatLE width n) = n := by
  rw [toNatLE_ofNatLE, Nat.mod_eq_of_lt h]

theorem toNatLE_lt (bs : Bytes) : toNatLE bs < 256 ^ bs.length := by
  induction bs with
  | nil => simp [toNatLE]
  | cons b bs ih =>
    have hb := b.toNat_lt
    rw [toNatLE, List.length_cons, pow_succ]
    omega

/-- Writing what was read gives the bytes back. -/
theorem ofNatLE_toNatLE (bs : Bytes) : ofNatLE bs.length (toNatLE bs) = bs := by
  induction bs with
  | nil => rfl
  | cons b bs ih =>
    have hb := b.toNat_lt
    have hfirst : UInt8.ofNat (b.toNat + 256 * toNatLE bs) = b := by
      apply UInt8.toNat_inj.mp
      rw [UInt8.toNat_ofNat']
      omega
    have hrest : (b.toNat + 256 * toNatLE bs) / 256 = toNatLE bs := by omega
    rw [toNatLE, List.length_cons, ofNatLE, hfirst, hrest, ih]

/-- Zeros in front do not count. -/
theorem toNatBE_trimZeros (bs : Bytes) : toNatBE (trimZeros bs) = toNatBE bs := by
  induction bs with
  | nil => rfl
  | cons b bs ih =>
    by_cases hb : b = 0
    · subst hb
      rw [toNatBE_cons, ← ih]
      simp [trimZeros]
    · simp [trimZeros, hb]

theorem length_trimZeros_le (bs : Bytes) : (trimZeros bs).length ≤ bs.length :=
  (List.dropWhile_sublist _).length_le

/-- After trimming no zero is in front. -/
theorem head?_trimZeros (bs : Bytes) : (trimZeros bs).head? ≠ some 0 := by
  intro h
  have := List.head?_dropWhile_not (· == (0 : UInt8)) bs
  rw [trimZeros] at h
  simp [h] at this

/-- Byte strings without zeros in front are told apart by their numbers. -/
theorem toNatBE_inj_of_head {as bs : Bytes} (ha : as.head? ≠ some 0) (hb : bs.head? ≠ some 0)
    (h : toNatBE as = toNatBE bs) : as = bs := by
  -- A first byte that is not zero makes the number at least the power of 256 that the other string stays below.
  have key : ∀ as bs : Bytes, as.head? ≠ some 0 → toNatBE as = toNatBE bs → as.length ≤ bs.length := by
    intro as bs ha h
    cases as with
    | nil => simp
    | cons a as =>
      by_contra hlt
      have ha0 : 1 ≤ a.toNat := by
        rcases Nat.eq_zero_or_pos a.toNat with h0 | h0
        · exact absurd (UInt8.toNat_inj.mp (h0 : a.toNat = (0 : UInt8).toNat)) (by simpa using ha)
        · exact h0
      have h1 := Nat.mul_le_mul_right (256 ^ as.length) ha0
      have h2 := toNatBE_lt bs
      have h3 : 256 ^ bs.length ≤ 256 ^ as.length := Nat.pow_le_pow_right (by decide) (by simp at hlt; omega)
      rw [toNatBE_cons] at h
      omega
  exact toNatBE_inj (le_antisymm (key as bs ha h) (key bs as hb h.symm)) h

end Bytes

namespace Rlp

theorem toNatBE_numberBytes (width n : Nat) : (numberBytes width n).toNatBE = n % 256 ^ width := by
  rw [numberBytes, Bytes.toNatBE_trimZeros, Bytes.toNatBE_ofNatBE]

theorem length_numberBytes_le (width n : Nat) : (numberBytes width n).length ≤ width := by
  have := Bytes.length_trimZeros_le (Bytes.ofNatBE width n)
  rwa [Bytes.length_ofNatBE] at this

theorem head?_numberBytes (width n : Nat) : (numberBytes width n).head? ≠ some 0 := Bytes.head?_trimZeros _

/-- A byte string without zeros in front is the one that writes its number. -/
theorem numberBytes_toNatBE {width : Nat} {bs : Bytes} (hlength : bs.length ≤ width) (hhead : bs.head? ≠ some 0) :
    numberBytes width bs.toNatBE = bs := by
  have hlt : bs.toNatBE < 256 ^ width := bs.toNatBE_lt.trans_le (Nat.pow_le_pow_right (by decide) hlength)
  refine Bytes.toNatBE_inj_of_head (head?_numberBytes width _) hhead ?_
  rw [toNatBE_numberBytes, Nat.mod_eq_of_lt hlt]

/-- Numbers below the width's power of 256 are told apart by their bytes. -/
theorem numberBytes_inj {width m n : Nat} (hm : m < 256 ^ width) (hn : n < 256 ^ width)
    (h : numberBytes width m = numberBytes width n) : m = n := by
  have := congrArg Bytes.toNatBE h
  rwa [toNatBE_numberBytes, toNatBE_numberBytes, Nat.mod_eq_of_lt hm, Nat.mod_eq_of_lt hn] at this

end Rlp

end OfflineSigner
