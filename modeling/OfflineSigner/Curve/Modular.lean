/-!
# Arithmetic modulo a number

Powers by repeated squaring and inverses by Euclid's algorithm. Both keep every intermediate value below the modulus.
-/

namespace OfflineSigner.Curve.Modular

/-- `base ^ exponent` modulo `m`, for exponents below `2 ^ bits`: one squaring a bit, lowest bit first. -/
def powBits (m : Nat) : (bits : Nat) → (base exponent : Nat) → Nat
  | 0, _, _ => 1 % m
  | bits + 1, base, exponent =>
    let rest := powBits m bits (base * base % m) (exponent / 2)
    if exponent % 2 = 1 then base * rest % m else rest

/-- `base ^ exponent` modulo `m`. -/
def pow (m base exponent : Nat) : Nat := powBits m (exponent.log2 + 1) base exponent

/-- Euclid's algorithm on `r` and `r'`, in at most `steps` divisions. The numbers `t` and `t'` keep `t * a ≡ r` and
`t' * a ≡ r'` modulo `m`; the answer is the `t` of the last divisor. -/
def euclid (m : Nat) : (steps r r' t t' : Nat) → Nat
  | 0, _, _, t, _ => t
  | steps + 1, r, r', t, t' =>
    if r' = 0 then t else euclid m steps r' (r % r') t' ((t + (m - r / r' * t' % m)) % m)

/-- A number whose product with `a` is the greatest common divisor of `a` and `m`, modulo `m`: the inverse of `a` when
the two have no common factor. Two divisions at least halve the divisor, which bounds the number of steps. -/
def inverse (m a : Nat) : Nat := euclid m (2 * m.log2 + 4) m a 0 1

end OfflineSigner.Curve.Modular
