import OfflineSigner.Proofs.Bitcoin.Accept

/-!
# What a node asks of a transaction on its own

A node takes no transaction that spends a coin twice, or whose coins or outputs are together worth more than all coins there
can be (`Unsigned.ContextFree`). A transaction is built when every coin and every output is in order by itself and the outputs
are covered. Main statement: of the built transactions exactly those are in order for a node whose requests name different
coins that are together worth no more than all there can be (`contextFree_iff`); the other built ones are not
(`build_spent_twice`).
-/

namespace OfflineSigner.Bitcoin

open Curve

/-! ## Names of coins -/

/-- A coin as texts name it: the digits of its transaction, and its index there. -/
def OutPoint.name (o : OutPoint) : List Char × UInt32 := (Hex.encodeChars o.transaction.toList.reverse, o.index)

/-- The name of the coin that a request asks for, in lower case and without the blanks around it. -/
def CoinRequest.name (request : CoinRequest) : List Char × UInt32 :=
  ((Text.trimChars request.transaction.toList).map Char.toLower, request.index)

/-- Different coins have different names. -/
theorem OutPoint.name_injective : Function.Injective OutPoint.name := by
  rintro ⟨id, index⟩ ⟨id', index'⟩ h
  obtain ⟨hdigits, hindex⟩ := Prod.mk.inj h
  have hbytes : id.toList = id'.toList := List.reverse_injective (Hex.encodeChars_injective hdigits)
  rw [OutPoint.mk.injEq]
  exact ⟨FixedBytes.eq_of_toList hbytes, hindex⟩

theorem CoinRequest.Accepted.name_eq {request : CoinRequest} {coin : Coin} (h : request.Accepted coin) :
    coin.outPoint.name = request.name := by
  rw [OutPoint.name, CoinRequest.name, TransactionId.parse_eq_ok_iff.mp h.transaction, h.index]

namespace Unsigned

/-- What a node asks of a transaction before it looks for the coins: no coin is spent twice, and neither the coins nor the
outputs are together worth more than all coins there can be. -/
structure ContextFree (u : Unsigned) : Prop where
  distinct : (u.coins.map Coin.outPoint).Nodup
  spent_le : total u.spent ≤ supply
  outputs_le : total u.outputs ≤ supply

namespace Built

variable {coins : List CoinRequest} {outputs : List OutputRequest} {network : Network} {config : Config} {u : Unsigned}

/-- The coins are those that the requests name, in their order. -/
theorem map_name (h : Built coins outputs network config u) :
    (u.coins.map Coin.outPoint).map OutPoint.name = coins.map CoinRequest.name := by
  have hname : ∀ (request : CoinRequest) place coin, request.check place = .ok coin →
      (OutPoint.name ∘ Coin.outPoint) coin = request.name :=
    fun _ _ _ hcoin => (CoinRequest.of_check hcoin).name_eq
  rw [List.map_map]
  exact map_of_checkAll hname h.checked_coins

/-- No coin is spent twice exactly when no two requests name the same one. -/
theorem nodup_iff (h : Built coins outputs network config u) :
    (u.coins.map Coin.outPoint).Nodup ↔ (coins.map CoinRequest.name).Nodup := by
  rw [← h.map_name, List.nodup_map_iff OutPoint.name_injective]

end Built

/-- Every value of a built transaction is within all coins there can be, and the outputs are covered; beyond that, it is in
order for a node exactly when the requests name different coins that are together worth no more than all coins there can be. -/
theorem contextFree_iff {coins : List CoinRequest} {outputs : List OutputRequest} {network : Network} {config : Config}
    {u : Unsigned} (hbuild : build coins outputs network config = .ok u) :
    (∀ output ∈ u.spent ++ u.outputs, output.value.toNat ≤ supply) ∧ total u.outputs ≤ total u.spent ∧
      (u.ContextFree ↔ (coins.map CoinRequest.name).Nodup ∧ coinsWorth coins ≤ supply) := by
  have hbuilt := of_build hbuild
  obtain ⟨-, -, fee, hfee⟩ := build_eq_ok_iff.mp hbuild
  obtain ⟨-, -, hsum⟩ := fee_eq_ok_iff.mp (checkedFee_eq_ok_iff.mp hfee).1
  have hcovered : total u.outputs ≤ total u.spent := hsum ▸ Nat.le_add_left _ _
  refine ⟨fun output houtput => ?_, hcovered, ?_⟩
  · rcases List.mem_append.mp houtput with hspent | hmade
    · obtain ⟨coin, hcoin, rfl⟩ := List.mem_map.mp hspent
      obtain ⟨request, -, haccepted⟩ := hbuilt.accepted_of_mem hcoin
      rw [haccepted.output]
      exact haccepted.value_le
    · obtain ⟨request, -, place, hcheck⟩ := exists_of_mem_checkAll hbuilt.checked_outputs hmade
      obtain ⟨hacceptable, hvalue, -⟩ := OutputRequest.check_eq_ok_iff.mp hcheck
      rw [hvalue]
      exact hacceptable.value_le
  · rw [← hbuilt.nodup_iff, ← hbuilt.total_spent]
    exact ⟨fun h => ⟨h.distinct, h.spent_le⟩, fun h => ⟨h.1, h.2, hcovered.trans h.2⟩⟩

/-- The transaction of the two coins is in order for a node. -/
theorem contextFree_pair : pair.ContextFree :=
  (contextFree_iff build_pair).2.2.mpr (by decide +kernel)

/-- A request for a coin that is worth all coins there can be. -/
def wholeSupply : CoinRequest where
  transaction := "0000000000000000000000000000000000000000000000000000000000000001"
  index := 0
  value := 2100000000000000
  script := 0x51 :: 0x20 :: Bytes.ofNatBE 32 0xda4710964f7852695de2da025290e24af6d8c281de5a0b902b7135fd9fd74d21
  signerKey := Bytes.ofNatBE 32 0x79be667ef9dcbbac55a06295ce870b07029bfcdb2dce28d959f2815b16f81798

/-- A coin that is asked for twice is spent twice and counted twice: the transaction is built, without a fee, but its coins and
its outputs are worth twice as much as there can be. -/
theorem build_spent_twice :
    ∃ u, build [wholeSupply, wholeSupply] [⟨2100000000000000, .script [0x51]⟩, ⟨2100000000000000, .script [0x51]⟩] .regtest
        {} = .ok u ∧ u.fee = .ok 0 ∧
      ¬(u.coins.map Coin.outPoint).Nodup ∧ ¬total u.spent ≤ supply ∧ ¬total u.outputs ≤ supply := by
  let coin : Coin := ⟨⟨⟨0x01 :: List.replicate 31 0x00, rfl⟩, 0⟩, wholeSupply.output,
    ⟨FieldElement.ofNat 0x79be667ef9dcbbac55a06295ce870b07029bfcdb2dce28d959f2815b16f81798⟩⟩
  let output : Output := ⟨2100000000000000, [0x51]⟩
  exact ⟨⟨2, 0, 0xfffffffd, [coin, coin], [output, output], .regtest⟩, by decide +kernel⟩

end Unsigned

end OfflineSigner.Bitcoin
