import OfflineSigner.Curve.Modular
import Mathlib.Data.ZMod.Basic
import Mathlib.Algebra.Field.ZMod
import Mathlib.Tactic.LinearCombination
import Mathlib.Tactic.Linarith
import Mathlib.Tactic.Ring

/-!
# Powers and inverses modulo a number

Statements about `Modular.pow` and `Modular.inverse` in `ZMod m`: squaring and multiplying gives the power (`cast_pow`), and
Euclid's algorithm gives the inverse when the two numbers have no common factor (`cast_inverse`), within the number of
divisions that `Modular.inverse` allows itself.
-/

namespace OfflineSigner.Curve.Modular

/-! ## Powers -/

/-- Squaring and multiplying over enough bits gives the power. -/
theorem cast_powBits (m bits base exponent : Nat) (h : exponent < 2 ^ bits) :
    (powBits m bits base exponent : ZMod m) = (base : ZMod m) ^ exponent := by
  induction bits generalizing base exponent with
  | zero =>
    have : exponent = 0 := by simpa using h
    simp [powBits, this]
  | succ bits ih =>
    have hrest : (powBits m bits (base * base % m) (exponent / 2) : ZMod m) = (base : ZMod m) ^ (2 * (exponent / 2)) := by
      rw [ih _ _ (by rw [pow_succ] at h; omega), ZMod.natCast_mod, Nat.cast_mul, ← pow_two, ← pow_mul]
    have hdiv := Nat.div_add_mod exponent 2
    rw [powBits]
    split
    · rename_i hodd
      rw [ZMod.natCast_mod, Nat.cast_mul, hrest, ← pow_succ']
      congr 1
      omega
    · rw [hrest]
      congr 1
      omega

/-- The power is the power. -/
theorem cast_pow (m base exponent : Nat) : (pow m base exponent : ZMod m) = (base : ZMod m) ^ exponent :=
  cast_powBits m _ base exponent Nat.lt_log2_self

/-! ## Inverses -/

/-- A step of Euclid's algorithm keeps what its numbers stand for. -/
theorem cast_step {m : Nat} (hm : 0 < m) (q t t' : Nat) :
    (((t + (m - q * t' % m)) % m : Nat) : ZMod m) = (t : ZMod m) - q * t' := by
  have hle : q * t' % m ≤ m := (Nat.mod_lt _ hm).le
  rw [ZMod.natCast_mod, Nat.cast_add, Nat.cast_sub hle, ZMod.natCast_mod, ZMod.natCast_self, Nat.cast_mul]
  ring

/-- The product of the two numbers at least halves with each division. -/
theorem two_mul_mod_le {r r' : Nat} (h0 : r' ≠ 0) (h : r' < r) : 2 * (r' * (r % r')) ≤ r * r' := by
  have hlt : r % r' < r' := Nat.mod_lt _ (Nat.pos_of_ne_zero h0)
  have hle : r' + r % r' ≤ r := by
    have hdm := Nat.div_add_mod r r'
    have hq : 1 ≤ r / r' := Nat.div_pos h.le (Nat.pos_of_ne_zero h0)
    have := Nat.mul_le_mul_left r' hq
    omega
  have : 2 * (r % r') ≤ r := by omega
  calc 2 * (r' * (r % r')) = r' * (2 * (r % r')) := by ring
    _ ≤ r' * r := Nat.mul_le_mul_left r' this
    _ = r * r' := Nat.mul_comm _ _

/-- While `t a` is `r` and `t' a` is `r'`, the answer times `a` is the greatest common divisor, when there are divisions left
for the size of the two numbers. -/
theorem cast_euclid {m : Nat} (hm : 0 < m) (a : ZMod m) (steps r r' t t' : Nat) (hlt : r' < r) (hfuel : r * r' < 2 ^ steps)
    (h : (t : ZMod m) * a = r) (h' : (t' : ZMod m) * a = r') : (euclid m steps r r' t t' : ZMod m) * a = r.gcd r' := by
  induction steps generalizing r r' t t' with
  | zero =>
    have h0 : r' = 0 := by
      rcases Nat.mul_eq_zero.mp (by omega : r * r' = 0) with h | h
      · omega
      · exact h
    rw [euclid, h0, Nat.gcd_zero_right, h]
  | succ steps ih =>
    by_cases h0 : r' = 0
    · rw [euclid, if_pos h0, h0, Nat.gcd_zero_right, h]
    · have hmod : (((t + (m - r / r' * t' % m)) % m : Nat) : ZMod m) * a = (r % r' : Nat) := by
        have hr : (r : ZMod m) = r' * (r / r' : Nat) + (r % r' : Nat) := by
          rw [← Nat.cast_mul, ← Nat.cast_add, Nat.div_add_mod]
        rw [cast_step hm]
        linear_combination h - (r / r' : Nat) * h' + hr
      have hhalf := two_mul_mod_le h0 hlt
      rw [euclid, if_neg h0, ih r' (r % r') _ _ (Nat.mod_lt _ (Nat.pos_of_ne_zero h0)) (by rw [pow_succ] at hfuel; omega)
        h' hmod, Nat.gcd_comm, ← Nat.gcd_rec, Nat.gcd_comm]

/-- The inverse times the number is one, when the number has no factor in common with the modulus. -/
theorem cast_inverse_mul {m a : Nat} (ha : a < m) (hco : m.gcd a = 1) : (inverse m a : ZMod m) * a = 1 := by
  have hm : m < 2 ^ (m.log2 + 1) := Nat.lt_log2_self
  have hfuel : m * a < 2 ^ (2 * m.log2 + 4) := by
    calc m * a ≤ m * m := Nat.mul_le_mul_left m ha.le
      _ < 2 ^ (m.log2 + 1) * 2 ^ (m.log2 + 1) := Nat.mul_lt_mul'' hm hm
      _ = 2 ^ (2 * m.log2 + 2) := by rw [← pow_add]; congr 1; omega
      _ ≤ 2 ^ (2 * m.log2 + 4) := Nat.pow_le_pow_right (by decide) (by omega)
  have := cast_euclid (by omega) (a : ZMod m) _ m a 0 1 ha hfuel (by simp) (by simp)
  rw [inverse, this, hco, Nat.cast_one]

/-- For a prime modulus the inverse is that of the field; zero has zero. -/
theorem cast_inverse {m a : Nat} [Fact m.Prime] (ha : a < m) : (inverse m a : ZMod m) = (a : ZMod m)⁻¹ := by
  have hm : m.Prime := Fact.out
  rcases Nat.eq_zero_or_pos a with rfl | hpos
  · have hsteps : inverse m 0 = 0 := by simp [inverse, euclid]
    rw [hsteps, Nat.cast_zero, inv_zero]
  · have hco : m.gcd a = 1 := (Nat.Prime.coprime_iff_not_dvd hm).mpr (Nat.not_dvd_of_pos_of_lt hpos ha)
    exact eq_inv_of_mul_eq_one_left (cast_inverse_mul ha hco)

end OfflineSigner.Curve.Modular
