import OfflineSigner.Bitcoin.Unsigned
import OfflineSigner.SignedTransaction

/-!
# Signed Bitcoin transactions

Every input gets one signature of its Taproot key. Either all inputs are signed or there is no transaction.
-/

namespace OfflineSigner.Bitcoin

open Curve

/-- Where the secret keys of inputs come from, by the input's place and its internal key. -/
abbrev KeySource := (place : Nat) → (internalKey : XOnlyKey) → Option Bytes

namespace KeySource

/-- One key for all inputs that it owns. -/
def single (d : SecretKey) : KeySource := fun _ internalKey =>
  if internalKey = d.xOnly then some d.toBytes.toList else none

/-- Keys by place; of two for one place the later one counts. -/
def byPlace (keys : List (Nat × SecretKey)) : KeySource := fun place _ =>
  (keys.reverse.find? fun (p, _) => p == place).map fun (_, d) => d.toBytes.toList

end KeySource

/-- Why a transaction is not signed. -/
inductive SignError where
  | noKey (input : Nat)
  | key (fault : Taproot.Error)
  | uncommitted (input : Nat)
  deriving DecidableEq

/-- A fault as it is reported. -/
def SignError.report : SignError → Failure
  | .noKey input => ⟨.signingFailed, s!"No signing key for input {input}", none⟩
  | .key fault => fault.report
  | .uncommitted input => ⟨.keyMismatch, s!"Input {input} script does not commit to the tweaked key", none⟩

/-- A key by place, or the report of what is wrong with it. -/
def placedKey (place : Nat) (secret : Bytes) : Except Failure (Nat × SecretKey) :=
  match SecretKey.ofBytes secret with
  | .ok d => .ok (place, d)
  | .error fault => .error ⟨.invalidPrivateKeyFound, s!"Invalid private key for input {place}: {fault.message}", none⟩

namespace Unsigned

/-- The signature of the input at a place. Its coin has to commit to the key that the tweak leads to. -/
def signature (u : Unsigned) (keys : KeySource) (coin : Coin) (place : Nat) : Except SignError Schnorr.Signature := do
  let some secret := keys place coin.internalKey | .error (.noKey place)
  let d ← (Taproot.tweakedSecret (some secret) coin.internalKey).mapError .key
  if coin.output.script.drop 2 ≠ d.xOnly.toBytes.toList then throw (.uncommitted place)
  return Schnorr.sign d (u.transaction.signingHash u.spent place)

/-- The transaction with a signature in each input's witness. -/
def withSignatures (u : Unsigned) (signatures : List Schnorr.Signature) : Transaction :=
  let t := u.transaction
  { t with inputs := List.zipWith (fun i σ => { i with witness := [σ.toList] }) t.inputs signatures }

/-- The transaction with all inputs signed. -/
def sign (u : Unsigned) (keys : KeySource) : Except SignError Transaction := do
  let signatures ← checkAll (u.signature keys) 0 u.coins
  return u.withSignatures signatures

end Unsigned

/-- The transaction as it is handed on. -/
def Transaction.toSignedTransaction (t : Transaction) : SignedTransaction :=
  ⟨.bitcoin, Hex.encode t.raw, t.id.text⟩

end OfflineSigner.Bitcoin
