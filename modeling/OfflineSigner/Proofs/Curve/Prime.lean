import OfflineSigner.Curve.Field
import OfflineSigner.Proofs.Curve.Modular
import Mathlib.Data.List.Prime
import Mathlib.NumberTheory.LucasPrimality
import Mathlib.Tactic.NormNum.Prime

/-!
# The two moduli are prime

The prime of the field and the order of the group are shown prime by Lucas's test: a number `a` whose power `p - 1` is one
modulo `p`, and whose powers `(p - 1) / q` are not, for the primes `q` that make up `p - 1`. The large ones among those primes
pass the same test (`prime_of_lucas`), in a chain that ends at primes that are small enough to try all divisors.
-/

namespace OfflineSigner.Curve

/-- Lucas's test of `p` with the number `a`, given the primes that make up `p - 1`. -/
def lucas (p a : Nat) (factors : List Nat) : Bool :=
  factors.prod == p - 1 && Modular.pow p a (p - 1) % p == 1 % p &&
    factors.all fun q => Modular.pow p a ((p - 1) / q) % p != 1 % p

/-- A power is one in `ZMod p` exactly when its residue is that of one. -/
theorem pow_eq_one_iff_residue (p a n : Nat) : (a : ZMod p) ^ n = 1 ↔ Modular.pow p a n % p = 1 % p := by
  rw [← Modular.cast_pow, ← Nat.cast_one, ZMod.natCast_eq_natCast_iff']

/-- A number that passes Lucas's test with prime factors is prime. -/
theorem prime_of_lucas {p : Nat} (a : Nat) (factors : List Nat) (hf : ∀ q ∈ factors, q.Prime)
    (h : lucas p a factors = true) : p.Prime := by
  simp only [lucas, Bool.and_eq_true, beq_iff_eq, List.all_eq_true, bne_iff_ne] at h
  obtain ⟨⟨hprod, hfull⟩, hpart⟩ := h
  refine lucas_primality p a ((pow_eq_one_iff_residue p a _).mpr hfull) ?_
  intro q hq hdvd
  have hmem : q ∈ factors := by
    rw [← hprod] at hdvd
    obtain ⟨f, hmem, hqf⟩ := (Prime.dvd_prod_iff hq.prime).mp hdvd
    rwa [(Nat.prime_dvd_prime_iff_eq hq (hf f hmem)).mp hqf]
  intro hone
  exact hpart q hmem ((pow_eq_one_iff_residue p a _).mp hone)

/-- Of the primes that make up a number, those above a bound are given and the others are tried. -/
theorem forall_prime_append {small large : List Nat} (hs : ∀ q ∈ small, q.Prime) (hl : ∀ q ∈ large, q.Prime) :
    ∀ q ∈ small ++ large, q.Prime :=
  fun q hq => (List.mem_append.mp hq).elim (hs q) (hl q)

/-- The prime of the field is prime. -/
theorem prime_fieldPrime : fieldPrime.Prime := by
  have h₁ : Nat.Prime 255515944373312847190720520512484175977 :=
    prime_of_lucas 3 [2, 2, 2, 7, 7, 11, 1627, 2657, 4423, 41201, 96557, 7240687, 107590001]
      (by norm_num) (by decide +kernel)
  have h₂ : Nat.Prime 173378833005251801 :=
    prime_of_lucas 6 [2, 2, 2, 5, 5, 2621, 24809, 13331831] (by norm_num) (by decide +kernel)
  have h₃ : Nat.Prime 22149492674086928081353 :=
    prime_of_lucas 5 ([2, 2, 2, 3, 5323] ++ [173378833005251801])
      (forall_prime_append (by norm_num) (by simpa using h₂)) (by decide +kernel)
  have h₄ : Nat.Prime 132896956044521568488119 :=
    prime_of_lucas 6 ([2, 3] ++ [22149492674086928081353])
      (forall_prime_append (by norm_num) (by simpa using h₃)) (by decide +kernel)
  have h₅ : Nat.Prime 205115282021455665897114700593932402728804164701536103180137503955397371 :=
    prime_of_lucas 10
      ([2, 3, 5, 29, 29, 31, 7723] ++ [132896956044521568488119, 255515944373312847190720520512484175977])
      (forall_prime_append (by norm_num) (by simpa using ⟨h₄, h₁⟩)) (by decide +kernel)
  exact prime_of_lucas 3
    ([2, 3, 7, 13441] ++ [205115282021455665897114700593932402728804164701536103180137503955397371])
    (forall_prime_append (by norm_num) (by simpa using h₅)) (by decide +kernel)

/-- The order of the group is prime. -/
theorem prime_groupOrder : groupOrder.Prime := by
  have h₁ : Nat.Prime 174723607534414371449 :=
    prime_of_lucas 3 [2, 2, 2, 17, 59, 4051, 120233, 44706919] (by norm_num) (by decide +kernel)
  have h₂ : Nat.Prime 107361793816595537 :=
    prime_of_lucas 3 [2, 2, 2, 2, 16699, 85831, 4681609] (by norm_num) (by decide +kernel)
  have h₃ : Nat.Prime 297159362677 :=
    prime_of_lucas 2 [2, 2, 3, 3, 11, 461, 1627771] (by norm_num) (by decide +kernel)
  have h₄ : Nat.Prime 545358713 :=
    prime_of_lucas 5 [2, 2, 2, 41, 59, 28181] (by norm_num) (by decide +kernel)
  have h₅ : Nat.Prime 29047611873442575647497758179 :=
    prime_of_lucas 2 ([2, 293, 305873] ++ [545358713, 297159362677])
      (forall_prime_append (by norm_num) (by simpa using ⟨h₄, h₃⟩)) (by decide +kernel)
  have h₆ : Nat.Prime 341948486974166000522343609283189 :=
    prime_of_lucas 2 ([2, 2, 3, 3, 3, 109] ++ [29047611873442575647497758179])
      (forall_prime_append (by norm_num) (by simpa using h₅)) (by decide +kernel)
  exact prime_of_lucas 7
    ([2, 2, 2, 2, 2, 2, 3, 149, 631] ++
      [107361793816595537, 174723607534414371449, 341948486974166000522343609283189])
    (forall_prime_append (by norm_num) (by simpa using ⟨h₂, h₁, h₆⟩)) (by decide +kernel)

instance fact_prime_fieldPrime : Fact fieldPrime.Prime := ⟨prime_fieldPrime⟩

instance fact_prime_groupOrder : Fact groupOrder.Prime := ⟨prime_groupOrder⟩

end OfflineSigner.Curve
