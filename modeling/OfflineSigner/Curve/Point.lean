import OfflineSigner.Curve.Field

/-!
# Points of the curve

Points in affine coordinates with the chord and tangent rules, and multiples of a point as sums of its doublings.
-/

namespace OfflineSigner.Curve

/-- A point: the neutral one at infinity, or one with two coordinates. -/
inductive Point where
  | infinity
  | affine (x y : FieldElement)
  deriving DecidableEq

namespace Point

/-- Whether the coordinates satisfy the equation of the curve. -/
def OnCurve : Point → Prop
  | .infinity => True
  | .affine x y => y * y = x * x * x + 7

instance : DecidablePred OnCurve
  | .infinity => .isTrue trivial
  | .affine x y => inferInstanceAs (Decidable (y * y = x * x * x + 7))

/-- The point with the opposite second coordinate. -/
def neg : Point → Point
  | .infinity => .infinity
  | .affine x y => .affine x (-y)

/-- The third point on the line of slope `m` through a point and one with first coordinate `x'`, reflected. -/
def third (m x y x' : FieldElement) : Point :=
  let x'' := m * m - x - x'
  .affine x'' (m * (x - x'') - y)

/-- The sum of two points: through the chord, or through the tangent when they are one point. Points with the same first
coordinate that are not one point, and points whose tangent is vertical, add to infinity. -/
def add : Point → Point → Point
  | .infinity, Q => Q
  | P, .infinity => P
  | .affine x y, .affine x' y' =>
    if x = x' then
      if y = y' ∧ y ≠ 0 then third (3 * x * x * (2 * y).inverse) x y x else .infinity
    else third ((y' - y) * (x' - x).inverse) x y x'

instance : Add Point := ⟨add⟩

instance : Neg Point := ⟨neg⟩

/-- The first `n` of `P`, `2 P`, `4 P`, … -/
def doublings : (n : Nat) → (P : Point) → List Point
  | 0, _ => []
  | n + 1, P => P :: doublings n (P + P)

/-- The sum of the points that stand at the one bits of `k`, lowest bit first. -/
def sumAtBits : (k : Nat) → List Point → Point
  | _, [] => .infinity
  | k, P :: Ps => if k % 2 = 1 then P + sumAtBits (k / 2) Ps else sumAtBits (k / 2) Ps

/-- The multiple `k P`. -/
def mul (k : Scalar) (P : Point) : Point := sumAtBits k.val (doublings 256 P)

/-- The base point of the signature schemes. -/
def generator : Point := .affine
  (FieldElement.ofNat 0x79be667ef9dcbbac55a06295ce870b07029bfcdb2dce28d959f2815b16f81798)
  (FieldElement.ofNat 0x483ada7726a3c4655da4fbfc0e1108a8fd17b448a68554199c47d08ffb10d4b8)

/-- The doublings of the base point, kept for all multiplications. -/
def generatorDoublings : List Point := doublings 256 generator

/-- The multiple `k G` of the base point. -/
def mulGenerator (k : Scalar) : Point := sumAtBits k.val generatorDoublings

theorem mulGenerator_eq_mul (k : Scalar) : mulGenerator k = mul k generator := rfl

/-- The second coordinates that a first coordinate can have: two opposite ones, or none. The answer is the even one. -/
def evenY? (x : FieldElement) : Option FieldElement :=
  (x * x * x + 7).sqrt?.map fun y => if y.isEven then y else -y

/-- The point with a given first coordinate and an even, or an odd, second one. -/
def lift? (x : FieldElement) (even : Bool) : Option Point :=
  (evenY? x).map fun y => .affine x (if even then y else -y)

end Point

end OfflineSigner.Curve
