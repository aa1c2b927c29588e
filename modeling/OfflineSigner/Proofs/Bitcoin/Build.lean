import OfflineSigner.Bitcoin.Unsigned
import OfflineSigner.Proofs.Checked
import Mathlib.Data.List.Forall2

/-!
# What a built transaction is made of

Inversions of `checkAll`, `CoinRequest.check` and `Unsigned.build`. A list is gone through when every member can be, and then
the results stand at the places of their members (`checkAll_eq_ok_iff`); otherwise the fault is that of the first member that has
one (`checkAll_eq_error_iff`). A transaction is built exactly when the configuration is valid, the fee is accepted, and it has the
coins and the outputs that were asked for, in their order, and the choices of the configuration (`build_eq_ok_iff`, `of_build`);
each coin is worth and guarded by what its request says, and is a Taproot one (`of_check`).
-/

namespace OfflineSigner.Bitcoin

open Curve

/-! ## Lists of checked members -/

section

variable {ε α β : Type} {f : α → Nat → Except ε β}

/-- There are as many results as members. -/
theorem length_of_checkAll {place : Nat} {as : List α} {bs : List β} (h : checkAll f place as = .ok bs) :
    bs.length = as.length := by
  induction as generalizing place bs with
  | nil =>
    cases h
    rfl
  | cons a as ih =>
    obtain ⟨b, -, h⟩ := bind_eq_ok_iff.mp h
    obtain ⟨bs', hbs, h⟩ := bind_eq_ok_iff.mp h
    cases h
    rw [List.length_cons, List.length_cons, ih hbs]

/-- The result at a place is that of the member there. -/
theorem getElem?_of_checkAll {place : Nat} {as : List α} {bs : List β} (h : checkAll f place as = .ok bs) {n : Nat} {a : α}
    (ha : as[n]? = some a) : ∃ b, bs[n]? = some b ∧ f a (place + n) = .ok b := by
  induction as generalizing place bs n with
  | nil => simp at ha
  | cons a' as ih =>
    obtain ⟨b, hb, h⟩ := bind_eq_ok_iff.mp h
    obtain ⟨bs', hbs, h⟩ := bind_eq_ok_iff.mp h
    cases h
    cases n with
    | zero =>
      cases ha
      exact ⟨b, rfl, hb⟩
    | succ n =>
      obtain ⟨b', hb', hf⟩ := ih hbs ha
      exact ⟨b', hb', by rw [← hf]; congr 1; omega⟩

/-- The results stand to the members, in their order, as each result stands to its member. -/
theorem forall₂_of_checkAll {r : α → β → Prop} (hr : ∀ a n b, f a n = .ok b → r a b) {place : Nat} {as : List α} {bs : List β}
    (h : checkAll f place as = .ok bs) : List.Forall₂ r as bs := by
  induction as generalizing place bs with
  | nil =>
    cases h
    exact .nil
  | cons a as ih =>
    obtain ⟨b, hb, h⟩ := bind_eq_ok_iff.mp h
    obtain ⟨bs', hbs, h⟩ := bind_eq_ok_iff.mp h
    cases h
    exact .cons (hr a place b hb) (ih hbs)

/-- What each member tells of its result, the members tell of the results. -/
theorem map_of_checkAll {γ : Type} {g : β → γ} {g' : α → γ} (hg : ∀ a n b, f a n = .ok b → g b = g' a) {place : Nat}
    {as : List α} {bs : List β} (h : checkAll f place as = .ok bs) : bs.map g = as.map g' := by
  have hall := forall₂_of_checkAll hg h
  rw [← List.forall₂_eq_eq_eq, List.forall₂_map_left_iff, List.forall₂_map_right_iff]
  exact hall.flip

/-- Every result is that of a member. -/
theorem exists_of_mem_checkAll {place : Nat} {as : List α} {bs : List β} (h : checkAll f place as = .ok bs) {b : β}
    (hb : b ∈ bs) : ∃ a ∈ as, ∃ n, f a n = .ok b := by
  induction as generalizing place bs with
  | nil =>
    cases h
    cases hb
  | cons a as ih =>
    obtain ⟨b', hb', h⟩ := bind_eq_ok_iff.mp h
    obtain ⟨bs', hbs, h⟩ := bind_eq_ok_iff.mp h
    cases h
    rcases List.mem_cons.mp hb with rfl | hb
    · exact ⟨a, List.mem_cons_self, place, hb'⟩
    · obtain ⟨a', ha', hcheck⟩ := ih hbs hb
      exact ⟨a', List.mem_cons_of_mem a ha', hcheck⟩

/-- The results of going through a list are those of its members, place by place. -/
theorem checkAll_eq_ok_iff {place : Nat} {as : List α} {bs : List β} :
    checkAll f place as = .ok bs ↔
      bs.length = as.length ∧ ∀ n a b, as[n]? = some a → bs[n]? = some b → f a (place + n) = .ok b := by
  constructor
  · intro h
    refine ⟨length_of_checkAll h, fun n a b ha hb => ?_⟩
    obtain ⟨b', hb', hf⟩ := getElem?_of_checkAll h ha
    rw [hb] at hb'
    rw [hf, Option.some.inj hb']
  · rintro ⟨hlength, h⟩
    induction as generalizing place bs with
    | nil => rw [List.length_eq_zero_iff.mp hlength, checkAll]
    | cons a as ih =>
      cases bs with
      | nil => cases hlength
      | cons b bs =>
        have hrest : checkAll f (place + 1) as = .ok bs := ih (Nat.succ.inj hlength) fun n a' b' ha hb => by
          rw [Nat.add_assoc, Nat.add_comm 1 n]
          exact h (n + 1) a' b' ha hb
        have hfirst : f a place = .ok b := h 0 a b rfl rfl
        rw [checkAll, hfirst, ok_bind, hrest]
        rfl

/-- Going through a list fails with the fault of the first member that has one. -/
theorem checkAll_eq_error_iff {place : Nat} {as : List α} {e : ε} :
    checkAll f place as = .error e ↔
      ∃ n a, as[n]? = some a ∧ f a (place + n) = .error e ∧
        ∀ m < n, ∀ a', as[m]? = some a' → ∃ b, f a' (place + m) = .ok b := by
  induction as generalizing place with
  | nil => simp [checkAll]
  | cons a as ih =>
    constructor
    · intro h
      rcases bind_eq_error_iff.mp h with ha | ⟨b, hb, h⟩
      · exact ⟨0, a, rfl, ha, fun m hm => absurd hm (Nat.not_lt_zero m)⟩
      · rcases bind_eq_error_iff.mp h with has | ⟨bs, -, h⟩
        · obtain ⟨n, a', ha', he, hfirst⟩ := ih.mp has
          refine ⟨n + 1, a', ha', by rw [← he]; congr 1; omega, fun m hm a'' ha'' => ?_⟩
          cases m with
          | zero =>
            cases ha''
            exact ⟨b, hb⟩
          | succ m =>
            obtain ⟨b', hb'⟩ := hfirst m (Nat.lt_of_succ_lt_succ hm) a'' ha''
            exact ⟨b', by rw [← hb']; congr 1; omega⟩
        · cases h
    · rintro ⟨n, a', ha', he, hfirst⟩
      cases n with
      | zero =>
        cases ha'
        exact bind_eq_error_iff.mpr (Or.inl he)
      | succ n =>
        obtain ⟨b, hb⟩ := hfirst 0 (Nat.succ_pos n) a rfl
        refine bind_eq_error_iff.mpr (Or.inr ⟨b, hb, bind_eq_error_iff.mpr (Or.inl (ih.mpr ⟨n, a', ha', ?_, ?_⟩))⟩)
        · rw [← he]
          congr 1
          omega
        · intro m hm a'' ha''
          obtain ⟨b', hb'⟩ := hfirst (m + 1) (Nat.succ_lt_succ hm) a'' ha''
          exact ⟨b', by rw [← hb']; congr 1; omega⟩

theorem exists_of_checkAll_eq_error {place : Nat} {as : List α} {e : ε} (h : checkAll f place as = .error e) :
    ∃ a n, f a n = .error e := by
  obtain ⟨n, a, -, he, -⟩ := checkAll_eq_error_iff.mp h
  exact ⟨a, place + n, he⟩

/-- A list is gone through exactly when each member can be where it stands. -/
theorem exists_checkAll_iff_forall {place : Nat} {as : List α} :
    (∃ bs, checkAll f place as = .ok bs) ↔ ∀ n a, as[n]? = some a → ∃ b, f a (place + n) = .ok b := by
  constructor
  · rintro ⟨bs, h⟩ n a ha
    obtain ⟨b, -, hb⟩ := getElem?_of_checkAll h ha
    exact ⟨b, hb⟩
  · intro h
    cases hresult : checkAll f place as with
    | ok bs => exact ⟨bs, rfl⟩
    | error e =>
      obtain ⟨n, a, ha, he, -⟩ := checkAll_eq_error_iff.mp hresult
      obtain ⟨b, hb⟩ := h n a ha
      rw [he] at hb
      cases hb

/-- A list is gone through when every member can be, wherever it stands. -/
theorem exists_checkAll {as : List α} (place : Nat) (h : ∀ a ∈ as, ∀ n, ∃ b, f a n = .ok b) :
    ∃ bs, checkAll f place as = .ok bs :=
  exists_checkAll_iff_forall.mpr fun n a ha => h a (List.mem_of_getElem? ha) (place + n)

/-- When it does not matter where a member stands, a list is gone through exactly when every member can be. -/
theorem exists_checkAll_iff {p : α → Prop} (hp : ∀ a n, (∃ b, f a n = .ok b) ↔ p a) (place : Nat) {as : List α} :
    (∃ bs, checkAll f place as = .ok bs) ↔ ∀ a ∈ as, p a := by
  rw [exists_checkAll_iff_forall]
  constructor
  · intro h a ha
    obtain ⟨n, hn⟩ := List.getElem?_of_mem ha
    exact (hp a _).mp (h n a hn)
  · intro h n a ha
    exact (hp a _).mpr (h a (List.mem_of_getElem? ha))

theorem checkAll_map {γ : Type} (f : β → Nat → Except ε γ) (g : α → β) (place : Nat) (as : List α) :
    checkAll f place (as.map g) = checkAll (fun a => f (g a)) place as := by
  induction as generalizing place with
  | nil => rfl
  | cons a as ih => rw [List.map_cons, checkAll, checkAll, ih]

/-- When each changed member has the changed result, the changed members have the changed results. -/
theorem checkAll_map_map {α' β' : Type} {f' : α' → Nat → Except ε β'} {k : α → α'} {g : β → β'} {as : List α}
    (h : ∀ a ∈ as, ∀ n, f' (k a) n = (f a n).map g) (place : Nat) :
    checkAll f' place (as.map k) = (checkAll f place as).map (List.map g) := by
  induction as generalizing place with
  | nil => rfl
  | cons a as ih =>
    rw [List.map_cons, checkAll, checkAll, h a List.mem_cons_self, ih fun a' ha' => h a' (List.mem_cons_of_mem a ha')]
    cases f a place with
    | error e => rfl
    | ok b => cases checkAll f (place + 1) as <;> rfl

/-- When each member has a result wherever it stands, those are the results. -/
theorem checkAll_eq_ok_map {g : α → β} {as : List α} (h : ∀ a ∈ as, ∀ n, f a n = .ok (g a)) (place : Nat) :
    checkAll f place as = .ok (as.map g) := by
  induction as generalizing place with
  | nil => rfl
  | cons a as ih =>
    rw [checkAll, h a List.mem_cons_self, ih fun a' ha' => h a' (List.mem_cons_of_mem a ha')]
    rfl

/-- Two ways through a list that differ at each member in how they put a result and word a fault differ so on the whole. -/
theorem checkAll_eq_mapError {ε' β' : Type} {f' : α → Nat → Except ε' β'} {g : α → β → β'} {w : ε → ε'} {as : List α}
    (h : ∀ a ∈ as, ∀ n, f' a n = ((f a n).map (g a)).mapError w) (place : Nat) :
    checkAll f' place as = ((checkAll f place as).map (List.zipWith g as)).mapError w := by
  induction as generalizing place with
  | nil => rfl
  | cons a as ih =>
    rw [checkAll, checkAll, h a List.mem_cons_self, ih fun a' ha' => h a' (List.mem_cons_of_mem a ha')]
    cases f a place with
    | error e => rfl
    | ok b => cases checkAll f (place + 1) as <;> rfl

end

/-! ## Coins and transactions -/

/-- The output that a request says its coin is. -/
def CoinRequest.output (request : CoinRequest) : Output := ⟨request.value, request.script⟩

/-- What it takes for a coin to be accepted, and what it is then. -/
structure CoinRequest.Accepted (request : CoinRequest) (coin : Coin) : Prop where
  transaction : TransactionId.parse request.transaction = .ok coin.outPoint.transaction
  index : coin.outPoint.index = request.index
  output : coin.output = request.output
  internalKey : Taproot.parseInternalKey request.signerKey = .ok coin.internalKey
  taproot : (Script.taprootKey? request.script).isSome
  value_le : request.value.toNat ≤ supply

theorem CoinRequest.of_check {request : CoinRequest} {place : Nat} {coin : Coin} (h : request.check place = .ok coin) :
    request.Accepted coin := by
  unfold check at h
  obtain ⟨id, hid, h⟩ := bind_eq_ok_iff.mp h
  obtain ⟨key, hkey, h⟩ := bind_eq_ok_iff.mp h
  dsimp only at h
  split at h
  · cases h
  · rename_i htaproot
    split at h
    · cases h
    · rename_i hvalue
      cases h
      exact {
        transaction := mapError_eq_ok_iff.mp hid
        index := rfl
        output := rfl
        internalKey := mapError_eq_ok_iff.mp hkey
        taproot := Option.isSome_iff_ne_none.mpr fun hnone => htaproot (by rw [hnone]; rfl)
        value_le := Nat.not_lt.mp hvalue }

theorem CoinRequest.check_of_accepted {request : CoinRequest} {coin : Coin} (h : request.Accepted coin) (place : Nat) :
    request.check place = .ok coin := by
  unfold CoinRequest.check
  refine bind_eq_ok_iff.mpr ⟨_, mapError_eq_ok_iff.mpr h.transaction,
    bind_eq_ok_iff.mpr ⟨_, mapError_eq_ok_iff.mpr h.internalKey, ?_⟩⟩
  have htaproot : (Script.taprootKey? request.script).isNone ≠ true := by
    rw [Ne, Option.isNone_iff_eq_none]
    exact Option.isSome_iff_ne_none.mp h.taproot
  rw [if_neg htaproot, if_neg (Nat.not_lt.mpr h.value_le)]
  have houtput := h.output
  have hindex := h.index
  obtain ⟨⟨id, index⟩, output, key⟩ := coin
  cases houtput
  cases hindex
  rfl

/-- What a built transaction is made of. -/
structure Unsigned.Built (coins : List CoinRequest) (outputs : List OutputRequest) (network : Network) (config : Config)
    (u : Unsigned) : Prop where
  version : u.version = config.bitcoin.txVersion
  lockTime : u.lockTime = config.bitcoin.lockTime
  sequence : u.sequence = config.bitcoin.sequence
  network_eq : u.network = network
  coins_ne_nil : coins ≠ []
  outputs_ne_nil : outputs ≠ []
  checked_coins : checkAll CoinRequest.check 0 coins = .ok u.coins
  checked_outputs : checkAll (fun request => request.check network) 0 outputs = .ok u.outputs

/-- What it takes to build a transaction, and what it is then. -/
theorem Unsigned.build_eq_ok_iff {coins : List CoinRequest} {outputs : List OutputRequest} {network : Network}
    {config : Config} {u : Unsigned} :
    build coins outputs network config = .ok u ↔
      config.Valid ∧ Built coins outputs network config u ∧ ∃ fee, u.checkedFee config.bitcoin.maxFeeRate = .ok fee := by
  constructor
  · intro h
    unfold build at h
    obtain ⟨⟨⟩, hconfig, h⟩ := bind_eq_ok_iff.mp h
    refine ⟨config.check_eq_ok_iff.mp (mapError_eq_ok_iff.mp hconfig), ?_⟩
    dsimp only at h
    split at h
    · cases h
    · rename_i hcoins
      split at h
      · cases h
      · rename_i houtputs
        obtain ⟨coins', hc, h⟩ := bind_eq_ok_iff.mp h
        obtain ⟨outputs', ho, h⟩ := bind_eq_ok_iff.mp h
        obtain ⟨fee, hfee, h⟩ := bind_eq_ok_iff.mp h
        cases h
        refine ⟨?_, fee, hfee⟩
        exact {
          version := rfl
          lockTime := rfl
          sequence := rfl
          network_eq := rfl
          coins_ne_nil := by simpa using hcoins
          outputs_ne_nil := by simpa using houtputs
          checked_coins := hc
          checked_outputs := ho }
  · rintro ⟨hvalid, hbuilt, fee, hfee⟩
    have hconfig := config.check_eq_ok_iff.mpr hvalid
    have hu : u = ⟨config.bitcoin.txVersion, config.bitcoin.lockTime, config.bitcoin.sequence, u.coins, u.outputs,
        network⟩ := by
      rw [← hbuilt.version, ← hbuilt.lockTime, ← hbuilt.sequence, ← hbuilt.network_eq]
    unfold build
    refine bind_eq_ok_iff.mpr ⟨(), mapError_eq_ok_iff.mpr hconfig, ?_⟩
    dsimp only
    rw [if_neg (by simpa using hbuilt.coins_ne_nil), if_neg (by simpa using hbuilt.outputs_ne_nil)]
    refine bind_eq_ok_iff.mpr ⟨u.coins, hbuilt.checked_coins, bind_eq_ok_iff.mpr ⟨u.outputs, hbuilt.checked_outputs, ?_⟩⟩
    rw [← hu]
    exact bind_eq_ok_iff.mpr ⟨fee, hfee, rfl⟩

theorem Unsigned.of_build {coins : List CoinRequest} {outputs : List OutputRequest} {network : Network} {config : Config}
    {u : Unsigned} (h : build coins outputs network config = .ok u) : Built coins outputs network config u :=
  (build_eq_ok_iff.mp h).2.1

@[simp] theorem Unsigned.length_inputs_transaction (u : Unsigned) : u.transaction.inputs.length = u.coins.length := by
  rw [transaction, List.length_map]

namespace Unsigned.Built

variable {coins : List CoinRequest} {outputs : List OutputRequest} {network : Network} {config : Config} {u : Unsigned}

/-- The coin at a place is the one asked for there. -/
theorem accepted (h : Built coins outputs network config u) {n : Nat} {request : CoinRequest} (hn : coins[n]? = some request) :
    ∃ coin, u.coins[n]? = some coin ∧ request.Accepted coin := by
  obtain ⟨coin, hcoin, hcheck⟩ := getElem?_of_checkAll h.checked_coins hn
  exact ⟨coin, hcoin, CoinRequest.of_check hcheck⟩

/-- Every coin is one that was asked for. -/
theorem accepted_of_mem (h : Built coins outputs network config u) {coin : Coin} (hcoin : coin ∈ u.coins) :
    ∃ request ∈ coins, request.Accepted coin := by
  obtain ⟨request, hrequest, place, hcheck⟩ := exists_of_mem_checkAll h.checked_coins hcoin
  exact ⟨request, hrequest, CoinRequest.of_check hcheck⟩

theorem length_coins (h : Built coins outputs network config u) : u.coins.length = coins.length :=
  length_of_checkAll h.checked_coins

theorem coins_pos (h : Built coins outputs network config u) : 0 < u.coins.length := by
  rw [h.length_coins]
  exact List.length_pos_iff.mpr h.coins_ne_nil

/-- The outputs that are spent are those of the requests, in their order. -/
theorem spent (h : Built coins outputs network config u) : u.spent = coins.map CoinRequest.output := by
  have houtput : ∀ (request : CoinRequest) place coin, request.check place = .ok coin → coin.output = request.output :=
    fun _ _ _ hcoin => (CoinRequest.of_check hcoin).output
  exact map_of_checkAll houtput h.checked_coins

end Unsigned.Built

end OfflineSigner.Bitcoin
