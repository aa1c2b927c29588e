/-!
# Numbers of double precision

Numbers `m * 2 ^ e` with at most 53 bits, the rounding of fractions to the nearest of them, and the shortest decimal that
reads back as the same number. Signs are kept apart.
-/

namespace OfflineSigner.Decimal

/-- The number `mantissa * 2 ^ exponent`, with fewer than 54 bits and an exponent from -1074 to 971. -/
structure Double where
  mantissa : Nat
  exponent : Int
  deriving DecidableEq

namespace Double

/-- The least mantissa of 53 bits. -/
def leastMantissa : Nat := 1 <<< 52

/-- The number zero. -/
def zero : Double := ⟨0, 0⟩

/-- `a * 2 ^ e` as a fraction. -/
def scaled (a : Nat) (e : Int) : Nat × Nat := (a <<< e.toNat, 1 <<< (-e).toNat)

/-- The nearest whole number to a fraction; of two equally near ones the even one. -/
def roundDiv (num den : Nat) : Nat :=
  let q := num / den
  let r := num % den
  if 2 * r < den then q
  else if den < 2 * r then q + 1
  else q + q % 2

/-- The nearest number to a fraction, none where it is too large. The exponent is the one that leaves 53 bits, but no
lower than the lowest. -/
def ofFraction? (num den : Nat) : Option Double :=
  if num = 0 then some zero
  else
    let guess : Int := (num.log2 : Int) - (den.log2 : Int) - 52
    let (n, d) := (num <<< (-guess).toNat, den <<< guess.toNat)
    let e := max (if n / d < leastMantissa then guess - 1 else guess) (-1074)
    let m := roundDiv (num <<< (-e).toNat) (den <<< e.toNat)
    let (m, e) := if m = 2 * leastMantissa then (leastMantissa, e + 1) else (m, e)
    if 971 < e then none else some ⟨m, e⟩

/-- The number as a fraction. -/
def fraction (a : Double) : Nat × Nat := scaled a.mantissa a.exponent

/-- The rounded product. -/
def mul? (a b : Double) : Option Double :=
  let (n, d) := a.fraction
  let (n', d') := b.fraction
  ofFraction? (n * n') (d * d')

/-- The rounded quotient, for a divisor that is not zero. -/
def div? (a b : Double) : Option Double :=
  let (n, d) := a.fraction
  let (n', d') := b.fraction
  ofFraction? (n * d') (d * n')

/-- The nearest number to a power of ten. -/
def tenPow? (k : Nat) : Option Double := ofFraction? (Nat.pow 10 k) 1

/-- Whether a fraction rounds to the number: it lies between the middles to the neighbours, and on a middle when the
mantissa is even. -/
def rounds (a : Double) (num den : Nat) : Bool :=
  let below := if a.mantissa = leastMantissa ∧ a.exponent ≠ -1074 then 1 else 2
  let (l, d) := scaled (4 * a.mantissa - below) (a.exponent - 2)
  let (h, _) := scaled (4 * a.mantissa + 2) (a.exponent - 2)
  if a.mantissa % 2 = 0 then l * den ≤ num * d && num * d ≤ h * den else l * den < num * d && num * d < h * den

/-- `digits * 10 ^ k` as a fraction. -/
def decimalFraction (digits : Nat) (k : Int) : Nat × Nat := (digits * Nat.pow 10 k.toNat, Nat.pow 10 (-k).toNat)

/-- The exponent of the highest power of ten that is not above a fraction, found from a guess that is not above it in at
most `steps` steps. -/
def tenExponent (num den : Nat) : (steps : Nat) → (guess : Int) → Int
  | 0, guess => guess
  | steps + 1, guess =>
    let (n, d) := decimalFraction 1 (guess + 1)
    if n * den ≤ num * d then tenExponent num den steps (guess + 1) else guess

/-- The number of units of `10 ^ k` that reads back as the number, if one of the two around it does; of two the nearer, and
of two equally near ones the even one. -/
def onGrid? (a : Double) (k : Int) : Option Nat :=
  let (num, den) := a.fraction
  let (un, ud) := decimalFraction 1 k
  let low := num * ud / (den * un)
  let reads (c : Nat) : Bool := let (n, d) := decimalFraction c k; a.rounds n d
  match reads low, reads (low + 1) with
  | true, true => some (roundDiv (num * ud) (den * un))
  | true, false => some low
  | false, true => some (low + 1)
  | false, false => none

/-- Digits without zeros at their end, and the exponent of the last one. -/
def strip : (steps : Nat) → (digits : Nat) → (k : Int) → Nat × Int
  | 0, digits, k => (digits, k)
  | steps + 1, digits, k => if digits % 10 = 0 then strip steps (digits / 10) (k + 1) else (digits, k)

/-- The digits of the shortest decimal that reads back as the number, and the exponent of the last one. Seventeen digits
always do. -/
def shortest (a : Double) : Nat × Int :=
  let (num, den) := a.fraction
  let guess : Int := ((num.log2 : Int) - (den.log2 : Int) - 1) * 30103 / 100000 - 1
  let top := tenExponent num den 8 guess
  let found := (List.range 17).findSome? fun (n : Nat) => (a.onGrid? (top - n)).map fun c => (c, top - n)
  match found with
  | some (c, k) => strip 20 c k
  | none => (0, 0)

/-- The text of a number: places are written out from `10 ^ -5` up to below `10 ^ 16`, with at least one after the point;
other numbers have an exponent with its sign. -/
def text (a : Double) : String :=
  if a.mantissa = 0 then "0.0"
  else
    let (digits, k) := a.shortest
    let cs := Nat.toDigits 10 digits
    let e : Int := k + cs.length - 1
    if -5 ≤ e ∧ e ≤ 15 then
      if 0 ≤ k then String.ofList (cs ++ List.replicate k.toNat '0' ++ ['.', '0'])
      else if 0 ≤ e then String.ofList (cs.take (e.toNat + 1) ++ '.' :: cs.drop (e.toNat + 1))
      else String.ofList ('0' :: '.' :: List.replicate (-e - 1).toNat '0' ++ cs)
    else
      let mantissa := match cs with
        | [] => []
        | [c] => [c]
        | c :: rest => c :: '.' :: rest
      let sign := if e < 0 then '-' else '+'
      String.ofList (mantissa ++ 'e' :: sign :: Nat.toDigits 10 e.natAbs)

end Double

end OfflineSigner.Decimal
