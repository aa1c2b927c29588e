import OfflineSigner.Curve.Schnorr
import OfflineSigner.Hex
import OfflineSigner.Json.Reader
import OfflineSigner.Json.Value

/-!
# Signatures as documents

A Schnorr signature is a string of 128 hexadecimal digits.
-/

namespace OfflineSigner.Document

open Json Curve

/-- A signature as a value, in lower case. -/
def ofSignature (σ : Schnorr.Signature) : Value := .string (Hex.encode σ.toList)

/-- A signature, in either case. -/
def signature : Reader Schnorr.Signature := do
  let text ← string
  match Hex.decode text with
  | .error e => throw (.contents e.message)
  | .ok bs =>
    match FixedBytes.ofList? 64 bs with
    | some σ => return σ
    | none => throw (.contents "expected 64 bytes")

end OfflineSigner.Document
