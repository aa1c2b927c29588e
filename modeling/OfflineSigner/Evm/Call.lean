import OfflineSigner.Address.Evm
import OfflineSigner.Amount

/-!
# Calls of EVM transactions

What a transaction carries besides its value: nothing, data of the caller's, or a token transfer. A transfer is the only
call that is put together here.
-/

namespace OfflineSigner.Evm

/-- What a transaction asks its recipient to do. -/
inductive Call where
  /-- Nothing but to take the value. -/
  | none
  /-- To act on data of the caller's. -/
  | explicit (data : Bytes)
  /-- To move tokens of a contract to the recipient; the value counts tokens. -/
  | tokenTransfer (contract : EvmAddress)
  deriving DecidableEq

namespace Call

/-- Whether a text stands for no token: nothing, or zeros, after one optional `0x`. -/
def isPlaceholder (cs : List Char) : Bool :=
  let body := match cs with
    | '0' :: 'x' :: rest => rest
    | cs => cs
  body.all (· == '0')

/-- The call that an optional token text and optional data mean. Data that is not empty wins over a token. -/
def resolve (token : Option String) (data : Option Bytes) : Except EvmAddress.Error Call :=
  match data.filter (! ·.isEmpty), token with
  | some data, _ => .ok (.explicit data)
  | Option.none, some token =>
    if isPlaceholder (Text.trimChars token.toList) then .ok .none
    else (EvmAddress.parse (Text.trim token)).map .tokenTransfer
  | Option.none, Option.none => .ok .none

/-- The four bytes that name the transfer function of token contracts. -/
def transferSelector : Bytes := [0xa9, 0x05, 0x9c, 0xbb]

/-- The data of a token transfer: the function, and the recipient and the amount in 32 bytes each. -/
def transferData (recipient : EvmAddress) (amount : Word) : Bytes :=
  transferSelector ++ List.replicate 12 0 ++ recipient.toList ++ Bytes.ofNatBE 32 amount.toNat

end Call

end OfflineSigner.Evm
