import OfflineSigner.Curve.Key
import OfflineSigner.Failure
import OfflineSigner.Hex

/-!
# Secret keys in requests

Requests give their secret key in hexadecimal.
-/

namespace OfflineSigner.Request

open Curve

/-- The secret key that a text writes, with blanks around it and one leading `0x` allowed. -/
def secretKey (s : String) : Except Failure SecretKey :=
  match Hex.decodeMarked s with
  | .error _ => .error ⟨.invalidPrivateKeyFound, "Private key is not valid hex", none⟩
  | .ok bs =>
    match SecretKey.ofBytes bs with
    | .ok d => .ok d
    | .error fault => .error ⟨.invalidPrivateKeyFound, s!"Invalid private key: {fault.message}", none⟩

end OfflineSigner.Request
