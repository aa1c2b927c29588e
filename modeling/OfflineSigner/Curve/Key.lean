import OfflineSigner.Curve.Point

/-!
# Keys

Secret keys are scalars that are not zero, public keys are points other than infinity, and x-only keys are first
coordinates, which stand for the point above them with an even second coordinate. Each kind has its written forms, and
adding a tweak to a secret key goes along with adding the tweak's multiple of the base point to its public key.
-/

namespace OfflineSigner.Curve

/-- What can be wrong with key material. -/
inductive KeyFault where
  /-- Not 32 bytes, zero, or not below the order of the group. -/
  | secretKey
  /-- No written form of a point of the curve. -/
  | publicKey
  /-- A tweak that leads to zero or to infinity. -/
  | tweak
  /-- A signature that cannot be one of any key. -/
  | signature
  deriving DecidableEq

/-- The wording of a fault. -/
def KeyFault.message : KeyFault → String
  | .secretKey => "malformed or out-of-range secret key"
  | .publicKey => "malformed public key"
  | .tweak => "bad tweak"
  | .signature => "malformed signature"

/-- A scalar that is not zero. -/
structure SecretKey where
  scalar : Scalar
  scalar_ne_zero : scalar ≠ 0
  deriving DecidableEq

/-- The coordinates of a point. -/
structure PublicKey where
  (x y : FieldElement)
  deriving DecidableEq

/-- The first coordinate of a point. -/
structure XOnlyKey where
  x : FieldElement
  deriving DecidableEq

namespace PublicKey

/-- The point of a public key. -/
def toPoint (K : PublicKey) : Point := .affine K.x K.y

/-- A point as a public key, unless it is infinity. -/
def ofPoint? : Point → Option PublicKey
  | .infinity => none
  | .affine x y => some ⟨x, y⟩

/-- The x-only form. -/
def xOnly (K : PublicKey) : XOnlyKey := ⟨K.x⟩

/-- The 33 bytes that give the parity of the second coordinate, and the first coordinate. -/
def compressed (K : PublicKey) : FixedBytes 33 :=
  ⟨(if K.y.isEven then 0x02 else 0x03) :: K.x.toBytes.toList, by simp [K.x.toBytes.length_toList]⟩

/-- The 64 bytes of both coordinates. -/
def coordinates (K : PublicKey) : FixedBytes 64 := K.x.toBytes.append K.y.toBytes

/-- A public key from its two coordinates, each in 32 bytes, if they are those of a point. -/
def ofCoordinates? (bs : Bytes) : Option PublicKey := do
  let x ← FieldElement.ofBytes? (bs.take 32)
  let y ← FieldElement.ofBytes? (bs.drop 32)
  if (Point.affine x y).OnCurve then some ⟨x, y⟩ else none

/-- A public key from a written form: 33 bytes with the parity in front, or 65 bytes with both coordinates. The longer
form may state the parity as well, and then states it rightly. -/
def ofBytes? : Bytes → Option PublicKey
  | lead :: rest =>
    if rest.length = 32 ∧ (lead = 0x02 ∨ lead = 0x03) then do
      let x ← FieldElement.ofBytes? rest
      ofPoint? (← Point.lift? x (lead == 0x02))
    else if rest.length = 64 then
      if lead = 0x04 then ofCoordinates? rest
      else if lead = 0x06 ∨ lead = 0x07 then
        (ofCoordinates? rest).filter fun K => K.y.isEven == (lead == 0x06)
      else none
    else none
  | [] => none

/-- A public key from a written form, or what is wrong with it. -/
def ofBytes (bs : Bytes) : Except KeyFault PublicKey :=
  match ofBytes? bs with
  | some K => .ok K
  | none => .error .publicKey

/-- The public key with `t G` added, unless that is infinity. -/
def tweak? (K : PublicKey) (t : Scalar) : Option PublicKey := ofPoint? (K.toPoint + Point.mulGenerator t)

end PublicKey

namespace XOnlyKey

/-- The 32 bytes of the first coordinate. -/
def toBytes (K : XOnlyKey) : FixedBytes 32 := K.x.toBytes

/-- The point that an x-only key stands for. -/
def point? (K : XOnlyKey) : Option Point := Point.lift? K.x true

/-- An x-only key from its written form of 32 bytes, if some point lies above it. -/
def ofBytes (bs : Bytes) : Except KeyFault XOnlyKey :=
  if bs.length = 32 then
    match FieldElement.ofBytes? bs with
    | some x => if (Point.evenY? x).isSome then .ok ⟨x⟩ else .error .publicKey
    | none => .error .publicKey
  else .error .publicKey

/-- The point that the key stands for with `t G` added, unless that is infinity. -/
def tweak? (K : XOnlyKey) (t : Scalar) : Option PublicKey := do
  PublicKey.ofPoint? ((← K.point?) + Point.mulGenerator t)

end XOnlyKey

namespace SecretKey

/-- A scalar as a secret key, unless it is zero. -/
def ofScalar? (k : Scalar) : Option SecretKey := if h : k ≠ 0 then some ⟨k, h⟩ else none

/-- A secret key from its 32 bytes, or what is wrong with it. -/
def ofBytes (bs : Bytes) : Except KeyFault SecretKey :=
  if bs.length = 32 then
    match (Scalar.ofBytes? bs).bind ofScalar? with
    | some d => .ok d
    | none => .error .secretKey
  else .error .secretKey

/-- The 32 bytes of a secret key. -/
def toBytes (d : SecretKey) : FixedBytes 32 := d.scalar.toBytes

/-- The public key `d G`. No scalar but zero leads to infinity, so the second case only makes the function total; the
pair of zeros is no point. -/
def publicKey (d : SecretKey) : PublicKey :=
  match Point.mulGenerator d.scalar with
  | .affine x y => ⟨x, y⟩
  | .infinity => ⟨0, 0⟩

/-- The x-only form of the public key. -/
def xOnly (d : SecretKey) : XOnlyKey := d.publicKey.xOnly

/-- The secret key with a tweak added, unless that is zero. -/
def tweak? (d : SecretKey) (t : Scalar) : Option SecretKey := ofScalar? (d.scalar + t)

/-- The scalar whose multiple of the base point has an even second coordinate: the secret key or its opposite. -/
def evenScalar (d : SecretKey) : Scalar := if d.publicKey.y.isEven then d.scalar else -d.scalar

/-- The secret key that goes along with the x-only key's tweak: the tweak is added to the even scalar. -/
def tweakEven? (d : SecretKey) (t : Scalar) : Option SecretKey := ofScalar? (d.evenScalar + t)

end SecretKey

end OfflineSigner.Curve
