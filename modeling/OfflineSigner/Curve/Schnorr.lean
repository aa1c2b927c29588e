import OfflineSigner.Curve.Key
import OfflineSigner.Hash.Composed

/-!
# Schnorr signatures

Signatures of 64 bytes over 32-byte digests under x-only keys: the first coordinate of the nonce point, and the response
`s`. The nonce comes from the secret key and the digest, with zeros in the place of auxiliary randomness.
-/

namespace OfflineSigner.Curve.Schnorr

/-- The nonce point's first coordinate and the response, 32 bytes each. -/
abbrev Signature := FixedBytes 64

/-- The scalar that a tagged hash stands for. -/
def hashScalar (tag : String) (message : Bytes) : Scalar := Scalar.ofNat (Hash.tagged tag message).toNatBE

/-- The challenge, which binds the nonce point, the public key and the digest. -/
def challenge (nonceX : Bytes) (K : XOnlyKey) (digest : Digest) : Scalar :=
  hashScalar "BIP0340/challenge" (nonceX ++ K.toBytes.toList ++ digest.toList)

/-- The nonce for a digest. The even scalar is masked by the hash of the auxiliary zeros. -/
def nonce (d : SecretKey) (digest : Digest) : Scalar :=
  let mask := Hash.tagged "BIP0340/aux" (List.replicate 32 0)
  hashScalar "BIP0340/nonce"
    (Bytes.xor d.evenScalar.toBytes.toList mask.toList ++ d.xOnly.toBytes.toList ++ digest.toList)

/-- The signature of a digest. A nonce of zero would give the secret key away; no digest is known that leads to one, and
the signature of zeros, which verifies under no key, stands in its place. -/
def sign (d : SecretKey) (digest : Digest) : Signature :=
  match SecretKey.ofScalar? (nonce d digest) with
  | none => FixedBytes.replicate 64 0
  | some k =>
    let R := k.xOnly.toBytes
    R.append (k.evenScalar + challenge R.toList d.xOnly digest * d.evenScalar).toBytes

/-- Whether a signature of a digest verifies under an x-only key: `s G - e P` is the point above `r` with an even second
coordinate. -/
def verify (digest : Digest) (signature : Signature) (K : XOnlyKey) : Bool :=
  let r := signature.toList.take 32
  match FieldElement.ofBytes? r, Scalar.ofBytes? (signature.toList.drop 32), K.point? with
  | some x, some s, some P =>
    match Point.mulGenerator s + -Point.mul (challenge r K digest) P with
    | .affine x' y' => x' == x && y'.isEven
    | .infinity => false
  | _, _, _ => false

end OfflineSigner.Curve.Schnorr
