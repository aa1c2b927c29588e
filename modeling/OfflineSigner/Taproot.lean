import OfflineSigner.Address.Bitcoin
import OfflineSigner.Curve.Schnorr

/-!
# Taproot keys

An output commits to an internal key tweaked by its own hash, with no scripts beside it. The secret key is tweaked along
with it, after it is brought to the side with the even second coordinate; so a signature of the tweaked secret key verifies
under the output key.
-/

namespace OfflineSigner.Taproot

open Curve

/-- Why a key cannot be used for Taproot. -/
inductive Error where
  | xOnlyKey (fault : KeyFault)
  | publicKey (fault : KeyFault)
  | keyLength (length : Nat)
  | tweakRange
  | outputTweak (fault : KeyFault)
  | secretTweak (fault : KeyFault)
  | missingSecret
  | secretKey (fault : KeyFault)
  | foreignSecret
  deriving DecidableEq

/-- The wording of a fault. -/
def Error.message : Error → String
  | .xOnlyKey fault => s!"Invalid x-only key: {fault.message}"
  | .publicKey fault => s!"Invalid public key: {fault.message}"
  | .keyLength length => s!"Public key must be 32 or 33 bytes, got {length}"
  | .tweakRange => "TapTweak hash exceeds curve order"
  | .outputTweak fault => s!"Output key tweak failed: {fault.message}"
  | .secretTweak fault => s!"Private key tweak failed: {fault.message}"
  | .missingSecret => "Taproot signing requires a private key"
  | .secretKey fault => s!"Invalid private key: {fault.message}"
  | .foreignSecret => "Private key does not match the input's internal key"

/-- The kind of failure that a fault is. -/
def Error.code : Error → FailureCode
  | .missingSecret => .missingPrivateKey
  | .secretKey _ => .invalidPrivateKeyFound
  | .foreignSecret => .keyMismatch
  | _ => .cryptoError

/-- A fault as it is reported. -/
def Error.report (e : Error) : Failure := ⟨e.code, e.message, none⟩

/-- A tweaked key, the parity of its second coordinate, and the tweak. -/
structure OutputKey where
  key : XOnlyKey
  odd : Bool
  tweak : Digest
  deriving DecidableEq

/-- An internal key from its x-only form of 32 bytes or its compressed form of 33 bytes. -/
def parseInternalKey (bs : Bytes) : Except Error XOnlyKey :=
  if bs.length = 32 then (XOnlyKey.ofBytes bs).mapError .xOnlyKey
  else if bs.length = 33 then ((PublicKey.ofBytes bs).map PublicKey.xOnly).mapError .publicKey
  else .error (.keyLength bs.length)

/-- The hash of an internal key under the tag for tweaks. -/
def tweakHash (internal : XOnlyKey) : Digest := Hash.tagged "TapTweak" internal.toBytes.toList

/-- The tweak of an internal key; it is not reduced. -/
def tweakScalar (internal : XOnlyKey) : Except Error Scalar :=
  match Scalar.ofBytes? (tweakHash internal).toList with
  | some t => .ok t
  | none => .error .tweakRange

/-- The output key of an internal key. -/
def outputKey (internal : XOnlyKey) : Except Error OutputKey := do
  let t ← tweakScalar internal
  match internal.tweak? t with
  | some Q => .ok ⟨Q.xOnly, !Q.y.isEven, tweakHash internal⟩
  | none => .error (.outputTweak .tweak)

/-- The secret key that signs for the output key of an internal key. It has to be that of the internal key. -/
def tweakedSecret (secret : Option Bytes) (internal : XOnlyKey) : Except Error SecretKey := do
  let some bs := secret | .error .missingSecret
  let d ← (SecretKey.ofBytes bs).mapError .secretKey
  if d.xOnly ≠ internal then .error .foreignSecret
  else
    let t ← tweakScalar internal
    match d.tweakEven? t with
    | some tweaked => .ok tweaked
    | none => .error (.secretTweak .tweak)

/-- The witness program of an output key: version one, and the key. -/
def program (key : XOnlyKey) : Address.Bech32.Program := ⟨1, key.toBytes.toList⟩

/-- The script of the output of an internal key. -/
def script (internal : XOnlyKey) : Except Error Bytes :=
  (outputKey internal).map fun q => BitcoinAddress.programScript (program q.key)

/-- The address of the output of an internal key. -/
def address (internal : XOnlyKey) (network : Network) : Except Error BitcoinAddress :=
  (outputKey internal).map fun q => .segwit (SegwitMarker.ofNetwork network) (program q.key)

/-- The signature of a digest for the output of a secret key. -/
def sign (digest : Digest) (secret : Bytes) : Except Error Schnorr.Signature := do
  let d ← (SecretKey.ofBytes secret).mapError .secretKey
  let tweaked ← tweakedSecret (some secret) d.xOnly
  return Schnorr.sign tweaked digest

end OfflineSigner.Taproot
