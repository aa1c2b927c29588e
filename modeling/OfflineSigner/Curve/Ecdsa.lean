import OfflineSigner.Curve.Key
import OfflineSigner.Hash.Composed

/-!
# Recoverable ECDSA signatures

The nonce comes from the secret key and the digest alone, through the keyed hash, so a signature depends on nothing else.
Of the two signatures that a nonce gives the one with the lower `s` is taken. The recovery id tells which of the points
with `r` as first coordinate was used, so that the public key can be computed from the signature.
-/

namespace OfflineSigner.Curve.Ecdsa

/-- A signature with its recovery id: one is set when the second coordinate is odd, two when the first was not below the
order of the group. -/
structure Signature where
  (r s : Scalar)
  recoveryId : Fin 4
  deriving DecidableEq

/-- The pair of zeros. It is no signature under any key, and stands where no nonce is found. -/
def Signature.null : Signature := ⟨0, 0, 0⟩

/-- The scalar that stands for a digest. -/
def digestScalar (digest : Digest) : Scalar := Scalar.ofNat digest.toNatBE

/-- The state of the nonce generator: the key of the keyed hash, and its last value. -/
structure NonceState where
  (key value : Digest)

namespace NonceState

/-- The state with a new key drawn from the value, a mark and a seed. -/
def mix (st : NonceState) (mark : UInt8) (seed : Bytes) : NonceState :=
  let key := Hash.hmacSha256 st.key.toList (st.value.toList ++ mark :: seed)
  ⟨key, Hash.hmacSha256 key.toList st.value.toList⟩

/-- The first state for a secret key and a digest. -/
def initial (d : SecretKey) (digest : Digest) : NonceState :=
  let seed := d.toBytes.toList ++ (digestScalar digest).toBytes.toList
  ((NonceState.mk (FixedBytes.replicate 32 0) (FixedBytes.replicate 32 1)).mix 0x00 seed).mix 0x01 seed

/-- The state after the next value is drawn; the value is the candidate. -/
def draw (st : NonceState) : NonceState := ⟨st.key, Hash.hmacSha256 st.key.toList st.value.toList⟩

end NonceState

/-- The signature that a nonce gives, unless a part of it is zero. -/
def signWith? (d : SecretKey) (z : Scalar) (nonce : SecretKey) : Option Signature :=
  match Point.mulGenerator nonce.scalar with
  | .infinity => none
  | .affine x y =>
    let r := Scalar.ofNat x.val
    let s := nonce.scalar.inverse * (z + r * d.scalar)
    if r = 0 ∨ s = 0 then none
    else
      let high := if groupOrder ≤ x.val then 2 else 0
      let odd := if y.isEven then 0 else 1
      if s.val ≤ groupOrder / 2 then some ⟨r, s, high + odd⟩ else some ⟨r, -s, high + (1 - odd)⟩

/-- The signature of the first candidate nonce that gives one, among at most `attempts`. -/
def search (d : SecretKey) (z : Scalar) : (attempts : Nat) → NonceState → Option Signature
  | 0, _ => none
  | attempts + 1, st =>
    let st := st.draw
    match (SecretKey.ofBytes st.value.toList).toOption.bind (signWith? d z) with
    | some signature => some signature
    | none => search d z attempts (st.mix 0x00 [])

/-- The signature of a digest. A candidate fails with odds below one in `2 ^ 127`, so the bound on the attempts is never
met; the null signature makes the function total. -/
def sign (d : SecretKey) (digest : Digest) : Signature :=
  (search d (digestScalar digest) 256 (NonceState.initial d digest)).getD Signature.null

/-- The public key under which a signature of a digest verifies, if there is one for its recovery id. -/
def recover (signature : Signature) (digest : Digest) : Except KeyFault PublicKey :=
  let x := signature.r.val + if signature.recoveryId.val / 2 = 1 then groupOrder else 0
  if signature.r = 0 ∨ signature.s = 0 ∨ fieldPrime ≤ x then .error .signature
  else
    match Point.lift? (FieldElement.ofNat x) (signature.recoveryId.val % 2 == 0) with
    | none => .error .signature
    | some R =>
      let w := signature.r.inverse
      match PublicKey.ofPoint? (Point.mul (w * signature.s) R + Point.mulGenerator (-(w * digestScalar digest))) with
      | some K => .ok K
      | none => .error .signature

end OfflineSigner.Curve.Ecdsa
