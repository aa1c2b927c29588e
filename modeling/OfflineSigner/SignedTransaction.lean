/-!
# Signed transactions of either chain

What is handed on to be broadcast: the chain, the bytes in hexadecimal, and the name that block explorers show.
-/

namespace OfflineSigner

/-- The two families of chains. -/
inductive Chain where
  | bitcoin
  | evm
  deriving DecidableEq

/-- The name of a family. -/
def Chain.name : Chain → String
  | bitcoin => "bitcoin"
  | evm => "evm"

/-- A transaction ready to be broadcast. -/
structure SignedTransaction where
  chain : Chain
  raw : String
  id : String
  deriving DecidableEq

end OfflineSigner
