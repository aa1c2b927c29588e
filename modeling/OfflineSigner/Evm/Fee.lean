import OfflineSigner.Amount

/-!
# Fees of EVM transactions

A transaction pays for gas at one price, or at a price that follows the chain up to a highest one, with a share for the
block's author.
-/

namespace OfflineSigner.Evm

/-- How a transaction pays for gas. -/
inductive Fee where
  /-- One price for each unit of gas. -/
  | legacy (gasPrice : Word)
  /-- The highest price for each unit of gas, and the author's share in it. -/
  | capped (maxFee priority : Word)
  deriving DecidableEq

namespace Fee

/-- Why prices do not make a fee. -/
inductive Error where
  | priorityAboveMax (priority maxFee : Word)
  | missing
  deriving DecidableEq

/-- The wording of a fault. -/
def Error.message : Error → String
  | .priorityAboveMax priority maxFee => s!"Priority fee {priority.toNat} exceeds max fee {maxFee.toNat}"
  | .missing => "Neither gas_price nor max_fee_per_gas/max_priority_fee_per_gas given"

/-- A fault in a fee as it is reported. -/
def Error.report (e : Error) : Failure := ⟨.unsupportedFeeModel, e.message, none⟩

/-- A price that is given and is not zero. -/
def given? (price : Option Word) : Option Word := price.filter (· ≠ 0)

/-- The fee that optional prices mean. A highest price and a share that are both given and not zero make a capped fee;
otherwise the one price does. -/
def resolve (gasPrice maxFee priority : Option Word) : Except Error Fee :=
  match given? maxFee, given? priority, gasPrice with
  | some maxFee, some priority, _ =>
    if maxFee.toNat < priority.toNat then .error (.priorityAboveMax priority maxFee) else .ok (.capped maxFee priority)
  | _, _, some gasPrice => .ok (.legacy gasPrice)
  | _, _, none => .error .missing

/-- Whether the fee is capped. -/
def isCapped : Fee → Bool
  | legacy _ => false
  | capped _ _ => true

end Fee

end OfflineSigner.Evm
