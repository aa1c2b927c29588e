import OfflineSigner.Address.Evm
import OfflineSigner.ExtendedKey
import OfflineSigner.Taproot

/-!
# Accounts

The two kinds of account that a seed gives: a single-key Taproot address and an EVM address, each at the path that wallets
agree on.
-/

namespace OfflineSigner

open Curve

/-- A Taproot address with its keys. -/
structure TaprootAccount where
  path : DerivationPath
  address : BitcoinAddress
  internalKey : XOnlyKey
  outputKey : XOnlyKey
  secret : SecretKey

/-- An EVM address with its keys. -/
structure EvmAccount where
  path : DerivationPath
  address : EvmAddress
  publicKey : PublicKey
  secret : SecretKey

/-- The secret key of a node that comes from a seed. -/
def ExtendedKey.seededSecret (node : ExtendedKey) : Except Failure SecretKey :=
  match node.secret with
  | some d => .ok d
  | none => .error ⟨.internal, "Seed-derived node lost its private key", none⟩

/-- The Taproot account of a seed. The coin type is zero on all networks unless the caller asks for another. -/
def TaprootAccount.derive (seed : Bytes) (network : Network) (coin change index : Nat) :
    Except Failure TaprootAccount := do
  let path ← (DerivationPath.taproot coin 0 change index).mapError PathError.report
  let node ← (ExtendedKey.derive seed path).mapError ExtendedKey.Error.report
  let internalKey := node.publicKey.xOnly
  let output ← (Taproot.outputKey internalKey).mapError Taproot.Error.report
  let address ← (Taproot.address internalKey network).mapError Taproot.Error.report
  return { path, address, internalKey, outputKey := output.key, secret := ← node.seededSecret }

/-- The EVM account of a seed. -/
def EvmAccount.derive (seed : Bytes) (index : Nat) : Except Failure EvmAccount := do
  let path ← (DerivationPath.evm 0 index).mapError PathError.report
  let node ← (ExtendedKey.derive seed path).mapError ExtendedKey.Error.report
  return { path, address := EvmAddress.ofPublicKey node.publicKey, publicKey := node.publicKey,
           secret := ← node.seededSecret }

end OfflineSigner
