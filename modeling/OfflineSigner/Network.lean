import OfflineSigner.Failure

/-!
# Bitcoin networks

The main network and the three test networks, by name. Two pairs of networks cannot be told apart by some texts: testnet
and signet share the segwit marker, and all test networks share the version bytes.
-/

namespace OfflineSigner

/-- A Bitcoin network. -/
inductive Network where
  | mainnet
  | testnet
  | signet
  | regtest
  deriving DecidableEq

namespace Network

/-- All networks, in order. -/
def all : List Network := [mainnet, testnet, signet, regtest]

/-- The name of a network. -/
def name : Network → String
  | mainnet => "mainnet"
  | testnet => "testnet"
  | signet => "signet"
  | regtest => "regtest"

/-- The network with a given name. -/
def ofName? (s : String) : Option Network := all.find? fun n => n.name == s

/-- Whether coins have no value on the network. -/
def isTest : Network → Bool
  | mainnet => false
  | _ => true

/-- The network that a user's word means, in any case: a name, or one of the usual short forms. -/
def parse (s : String) : Except Failure Network :=
  match s.map Char.toLower with
  | "mainnet" | "bitcoin" | "main" => .ok mainnet
  | "testnet" | "test" => .ok testnet
  | "signet" => .ok signet
  | "regtest" => .ok regtest
  | other => .error ⟨.invalidInput, s!"Unknown network: {other}", none⟩

end Network

end OfflineSigner
