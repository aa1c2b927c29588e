import OfflineSigner.Proofs.Address.Evm
import OfflineSigner.Proofs.Amount
import OfflineSigner.Proofs.Evm.Intent

/-!
# A request moves the asset that it describes

What a request describes, told of its texts without reference to how they are read (`Request.Evm.Describes`): a call with data,
tokens of a contract, or ether. What a transaction moves, told of its fields, where a transfer of tokens is what a decoder of
`transfer(address,uint256)` finds in the data (`Call.transfer?`, `Asset.MovedBy`). Main statement: what comes of a request moves
the one asset that the request describes, never ether in the place of tokens, and two transfers of tokens that look alike are
alike (`moves_described`).
-/

namespace OfflineSigner

open Text

/-! ## Transfers of tokens -/

namespace Evm.Call

/-- The four bytes that name a function of a contract. -/
def selector (signature : String) : Bytes := (Hash.keccak256 (utf8 signature)).toList.take 4

/-- The recipient and the amount that a call of `transfer(address,uint256)` has as arguments: two words behind the name of the
function, of which the first holds an address behind twelve zeros. -/
def transfer? (data : Bytes) : Option (EvmAddress × Nat) :=
  if data.length = 68 ∧ data.take 4 = selector "transfer(address,uint256)" ∧ (data.drop 4).take 12 = List.replicate 12 0 then
    (FixedBytes.ofList? 20 ((data.drop 16).take 20)).map fun recipient => (recipient, Bytes.toNatBE (data.drop 36))
  else Option.none

theorem selector_transfer : selector "transfer(address,uint256)" = transferSelector := by decide +kernel

/-- What is put together for a transfer is a call of it, of 68 bytes. -/
theorem transfer?_transferData (recipient : EvmAddress) (amount : Word) :
    (transferData recipient amount).length = 68 ∧
      transfer? (transferData recipient amount) = some (recipient, amount.toNat) := by
  have hnumber : Bytes.toNatBE (Bytes.ofNatBE 32 amount.toNat) = amount.toNat := Bytes.toNatBE_ofNatBE_of_lt amount.isLt
  have hrecipient := recipient.length_toList
  have hamount := Bytes.length_ofNatBE 32 amount.toNat
  have hzeros : (List.replicate 12 0 : Bytes).length = 12 := List.length_replicate
  have hname : transferSelector.length = 4 := rfl
  have hdata : transferData recipient amount =
      transferSelector ++ (List.replicate 12 0 ++ (recipient.toList ++ Bytes.ofNatBE 32 amount.toNat)) := by
    rw [transferData, List.append_assoc, List.append_assoc]
  have hlength : (transferData recipient amount).length = 68 := by
    rw [hdata]
    simp only [List.length_append, hname, hzeros, hrecipient, hamount]
  have hdrop₄ : (transferData recipient amount).drop 4 =
      List.replicate 12 0 ++ (recipient.toList ++ Bytes.ofNatBE 32 amount.toNat) := by
    rw [hdata, List.drop_left' hname]
  have hdrop₁₆ : (transferData recipient amount).drop 16 = recipient.toList ++ Bytes.ofNatBE 32 amount.toNat := by
    rw [show 16 = 4 + 12 from rfl, ← List.drop_drop, hdrop₄, List.drop_left' hzeros]
  have hdrop₃₆ : (transferData recipient amount).drop 36 = Bytes.ofNatBE 32 amount.toNat := by
    rw [show 36 = 16 + 20 from rfl, ← List.drop_drop, hdrop₁₆, List.drop_left' hrecipient]
  have hguard : (transferData recipient amount).length = 68 ∧
      (transferData recipient amount).take 4 = selector "transfer(address,uint256)" ∧
      ((transferData recipient amount).drop 4).take 12 = List.replicate 12 0 := by
    refine ⟨hlength, ?_, ?_⟩
    · rw [selector_transfer, hdata, List.take_left' hname]
    · rw [hdrop₄, List.take_left' hzeros]
  refine ⟨hlength, ?_⟩
  rw [transfer?, if_pos hguard, hdrop₁₆, hdrop₃₆, List.take_left' hrecipient, FixedBytes.ofList?_toList, hnumber]
  rfl

/-! ## Which call is meant -/

/-- A text stands for no token when there are only zeros in it, or none, after one optional `0x`. -/
def Placeholder (cs : List Char) : Prop := ∃ n, cs = List.replicate n '0' ∨ cs = '0' :: 'x' :: List.replicate n '0'

theorem isPlaceholder_iff {cs : List Char} : isPlaceholder cs = true ↔ Placeholder cs := by
  have hzeros : ∀ cs : List Char, (cs.all fun c => c == '0') = true ↔ ∃ n, cs = List.replicate n '0' := by
    intro cs
    rw [List.all_eq_true]
    constructor
    · intro h
      exact ⟨cs.length, List.eq_replicate_of_mem fun c hc => beq_iff_eq.mp (h c hc)⟩
    · rintro ⟨n, rfl⟩ c hc
      exact beq_iff_eq.mpr (List.eq_of_mem_replicate hc)
  unfold isPlaceholder Placeholder
  dsimp only
  split
  · rename_i rest
    rw [hzeros]
    constructor
    · rintro ⟨n, rfl⟩
      exact ⟨n, Or.inr rfl⟩
    · rintro ⟨n, h | h⟩
      · have hmark : 'x' ∈ List.replicate n '0' := h ▸ by simp
        exact absurd (List.eq_of_mem_replicate hmark) (by decide)
      · exact ⟨n, by simpa using h⟩
  · rename_i hmark
    rw [hzeros]
    exact exists_congr fun n => ⟨Or.inl, fun h => h.resolve_right (hmark _)⟩

/-- What is made of a token text and data. -/
theorem of_resolve {token : Option String} {data : Option Bytes} {call : Call} (h : resolve token data = .ok call) :
    (∃ bs, data.filter (! ·.isEmpty) = some bs ∧ call = .explicit bs) ∨
      data.filter (! ·.isEmpty) = Option.none ∧
        ((∃ text contract, token = some text ∧ ¬Placeholder (trimChars text.toList) ∧
            EvmAddress.Writes (trimChars text.toList) contract ∧ call = .tokenTransfer contract) ∨
          (∀ text, token = some text → Placeholder (trimChars text.toList)) ∧ call = .none) := by
  unfold resolve at h
  split at h
  · rename_i bs hbs
    exact Or.inl ⟨bs, hbs, (Except.ok.inj h).symm⟩
  · rename_i text hnone
    refine Or.inr ⟨hnone, ?_⟩
    split at h
    · rename_i hplaceholder
      refine Or.inr ⟨fun text' htext' => ?_, (Except.ok.inj h).symm⟩
      obtain rfl := Option.some.inj htext'
      exact isPlaceholder_iff.mp hplaceholder
    · rename_i hplaceholder
      rw [isPlaceholder_iff] at hplaceholder
      cases hread : EvmAddress.parse (trim text) with
      | error e =>
        rw [hread] at h
        cases h
      | ok contract =>
        rw [hread] at h
        have hwrites := EvmAddress.writes_of_parse hread
        rw [toList_trim, trimChars_trimChars] at hwrites
        exact Or.inl ⟨text, contract, rfl, hplaceholder, hwrites, (Except.ok.inj h).symm⟩
  · rename_i hnone
    exact Or.inr ⟨hnone, Or.inr ⟨nofun, (Except.ok.inj h).symm⟩⟩

end Evm.Call

/-! ## What a request describes -/

/-- What moves. -/
inductive Asset where
  /-- A value that goes with data to a recipient. -/
  | call (recipient : EvmAddress) (amount : Nat) (data : Bytes)
  /-- Tokens of a contract, which go to a recipient. -/
  | token (contract recipient : EvmAddress) (amount : Nat)
  /-- A value that goes to a recipient. -/
  | ether (recipient : EvmAddress) (amount : Nat)

/-- Whether a transaction moves an asset. -/
def Asset.MovedBy (t : Evm.Transaction) : Asset → Prop
  | call recipient amount data => t.recipient = recipient ∧ t.value.toNat = amount ∧ t.data = data
  | token contract recipient amount =>
    t.recipient = contract ∧ t.value = 0 ∧ t.data.length = 68 ∧ Evm.Call.transfer? t.data = some (recipient, amount)
  | ether recipient amount => t.recipient = recipient ∧ t.value.toNat = amount ∧ t.data = []

namespace Request.Evm

/-- To whom a request pays how much: the recipient whose address it writes, and the exact product of the number that it writes
and the power of ten. -/
structure Pays (r : Evm) (recipient : EvmAddress) (amount : Nat) : Prop where
  recipient : EvmAddress.Writes (trimChars r.recipient.toList) recipient
  amount : ∃ q : ℚ, Amount.Writes (trimChars r.amount.toList) q ∧ (amount : ℚ) = q * 10 ^ r.decimals.toNat

/-- Whether a request has call data: it writes bytes, not none, in hexadecimal digits of either case after one optional mark. -/
def Calls (r : Evm) (data : Bytes) : Prop :=
  ∃ text digits, r.callData = some text ∧
    (trimChars text.toList = digits ∨ trimChars text.toList = '0' :: 'x' :: digits ∨
      trimChars text.toList = '0' :: 'X' :: digits) ∧
    digits.map Char.toLower = Hex.encodeChars data ∧ data ≠ []

/-- What a request describes. Call data comes first, then a token text that is no placeholder. -/
inductive Describes (r : Evm) : Asset → Prop where
  | call {recipient amount data} (hpays : r.Pays recipient amount) (hcalls : r.Calls data) :
      Describes r (.call recipient amount data)
  | token {text contract recipient amount} (hpays : r.Pays recipient amount) (hcalls : ∀ data, ¬r.Calls data)
      (htoken : r.token = some text) (hplaceholder : ¬Evm.Call.Placeholder (trimChars text.toList))
      (hcontract : EvmAddress.Writes (trimChars text.toList) contract) : Describes r (.token contract recipient amount)
  | ether {recipient amount} (hpays : r.Pays recipient amount) (hcalls : ∀ data, ¬r.Calls data)
      (htoken : ∀ text, r.token = some text → Evm.Call.Placeholder (trimChars text.toList)) :
      Describes r (.ether recipient amount)

theorem Pays.unique {r : Evm} {recipient recipient' : EvmAddress} {amount amount' : Nat} (h : r.Pays recipient amount)
    (h' : r.Pays recipient' amount') : recipient = recipient' ∧ amount = amount' := by
  obtain ⟨q, hq, hamount⟩ := h.amount
  obtain ⟨q', hq', hamount'⟩ := h'.amount
  rw [hq.unique hq', ← hamount'] at hamount
  exact ⟨h.recipient.unique h'.recipient, Nat.cast_injective hamount⟩

/-- A mark is no digit, so hexadecimal digits stand behind the mark, if there is one, and nowhere else. -/
theorem digits_dropMark_iff {cs : List Char} {bs : Bytes} :
    (Hex.dropMark cs).map Char.toLower = Hex.encodeChars bs ↔
      ∃ digits, (cs = digits ∨ cs = '0' :: 'x' :: digits ∨ cs = '0' :: 'X' :: digits) ∧
        digits.map Char.toLower = Hex.encodeChars bs := by
  have hmark : ∀ c : Char, c.toLower = 'x' → ∀ rest : List Char, ('0' :: c :: rest).map Char.toLower ≠ Hex.encodeChars bs := by
    intro c hc rest h
    obtain ⟨n, hn⟩ := Hex.exists_digit_of_mem (show 'x' ∈ Hex.encodeChars bs from h ▸ by simp [hc])
    have hall : ∀ n : Fin 16, 'x' ≠ Hex.digit n.val := by decide
    exact hall ⟨n % 16, Nat.mod_lt n (by decide)⟩ (hn.trans (Hex.digit_mod n).symm)
  unfold Hex.dropMark
  split
  · rename_i rest
    constructor
    · intro h
      exact ⟨rest, Or.inr (Or.inl rfl), h⟩
    · rintro ⟨digits, rfl | h | h, hdigits⟩
      · exact absurd hdigits (hmark 'x' rfl rest)
      · obtain rfl : rest = digits := by simpa using h
        exact hdigits
      · simp at h
  · rename_i rest
    constructor
    · intro h
      exact ⟨rest, Or.inr (Or.inr rfl), h⟩
    · rintro ⟨digits, rfl | h | h, hdigits⟩
      · exact absurd hdigits (hmark 'X' rfl rest)
      · simp at h
      · obtain rfl : rest = digits := by simpa using h
        exact hdigits
  · rename_i hsmall hlarge
    constructor
    · intro h
      exact ⟨_, Or.inl rfl, h⟩
    · rintro ⟨digits, rfl | h | h, hdigits⟩
      · exact hdigits
      · exact absurd h (hsmall digits)
      · exact absurd h (hlarge digits)

theorem calls_iff_dropMark {r : Evm} {bs : Bytes} :
    r.Calls bs ↔ ∃ text, r.callData = some text ∧
      (Hex.dropMark (trimChars text.toList)).map Char.toLower = Hex.encodeChars bs ∧ bs ≠ [] := by
  constructor
  · rintro ⟨text, digits, htext, hmark, hdigits, hne⟩
    exact ⟨text, htext, digits_dropMark_iff.mpr ⟨digits, hmark, hdigits⟩, hne⟩
  · rintro ⟨text, htext, hdrop, hne⟩
    obtain ⟨digits, hmark, hdigits⟩ := digits_dropMark_iff.mp hdrop
    exact ⟨text, digits, htext, hmark, hdigits, hne⟩

theorem Calls.unique {r : Evm} {bs bs' : Bytes} (h : r.Calls bs) (h' : r.Calls bs') : bs = bs' := by
  obtain ⟨text, htext, hdigits, -⟩ := calls_iff_dropMark.mp h
  obtain ⟨text', htext', hdigits', -⟩ := calls_iff_dropMark.mp h'
  obtain rfl := Option.some.inj (htext.symm.trans htext')
  exact Hex.encodeChars_injective (hdigits.symm.trans hdigits')

/-- The call data of a request are the bytes that are read for it, if there are any. -/
theorem calls_iff {r : Evm} {data : Option Bytes} (h : r.callBytes = .ok data) {bs : Bytes} :
    r.Calls bs ↔ data.filter (! ·.isEmpty) = some bs := by
  rw [calls_iff_dropMark]
  unfold callBytes at h
  split at h
  · rename_i hnone
    obtain rfl := Except.ok.inj h
    simp [hnone]
  · rename_i text htext
    simp only [htext, Option.some.injEq, exists_eq_left']
    split at h
    · rename_i hblank
      obtain rfl := Except.ok.inj h
      rw [List.isEmpty_iff.mp hblank]
      refine iff_of_false ?_ nofun
      rintro ⟨hdigits, hne⟩
      cases bs with
      | nil => exact hne rfl
      | cons b bs => cases hdigits
    · split at h
      · rename_i bs' hread
        obtain rfl := Except.ok.inj h
        have hdigits : (Hex.dropMark (trimChars text.toList)).map Char.toLower = Hex.encodeChars bs' :=
          Hex.decodeUtf8_eq_ok_iff.mp hread
        rw [hdigits, Option.filter_eq_some_iff]
        constructor
        · rintro ⟨hsame, hne⟩
          obtain rfl := Hex.encodeChars_injective hsame
          exact ⟨rfl, by simpa using hne⟩
        · rintro ⟨hsame, hne⟩
          obtain rfl := Option.some.inj hsame
          exact ⟨rfl, by simpa using hne⟩
      · cases h

/-- A request describes one asset at most. -/
theorem Describes.unique {r : Evm} {asset asset' : Asset} (h : r.Describes asset) (h' : r.Describes asset') :
    asset = asset' := by
  cases h with
  | call hpays hcalls =>
    cases h' with
    | call hpays' hcalls' =>
      obtain ⟨rfl, rfl⟩ := hpays.unique hpays'
      rw [hcalls.unique hcalls']
    | token _ hcalls' => exact absurd hcalls (hcalls' _)
    | ether _ hcalls' => exact absurd hcalls (hcalls' _)
  | token hpays hcalls htoken hplaceholder hcontract =>
    cases h' with
    | call _ hcalls' => exact absurd hcalls' (hcalls _)
    | token hpays' _ htoken' _ hcontract' =>
      obtain ⟨rfl, rfl⟩ := hpays.unique hpays'
      obtain rfl := Option.some.inj (htoken.symm.trans htoken')
      rw [hcontract.unique hcontract']
    | ether _ _ htoken' => exact absurd (htoken' _ htoken) hplaceholder
  | ether hpays hcalls htoken =>
    cases h' with
    | call _ hcalls' => exact absurd hcalls' (hcalls _)
    | token _ _ htoken' hplaceholder' => exact absurd (htoken _ htoken') hplaceholder'
    | ether hpays' =>
      obtain ⟨rfl, rfl⟩ := hpays.unique hpays'
      rfl

end Request.Evm

namespace Evm.Transaction

/-- What comes of a request describes and moves one asset. -/
theorem exists_moved {r : Request.Evm} {i : Intent} {t : Transaction} (hintent : r.intent = .ok i)
    (hbuild : ofIntent i = .ok t) :
    ∃ asset, (∀ asset', r.Describes asset' ↔ asset' = asset) ∧ asset.MovedBy t := by
  obtain ⟨draft, hdrafted, hresolved⟩ := Request.Evm.of_intent hintent
  have hcarries := of_ofIntent hbuild
  have hcalls : ∀ {bs}, r.Calls bs ↔ draft.data.filter (! ·.isEmpty) = some bs := Request.Evm.calls_iff hdrafted.data
  have hcallless : draft.data.filter (! ·.isEmpty) = none → ∀ bs, ¬r.Calls bs := by
    intro hnone bs h
    rw [hcalls.mp h] at hnone
    cases hnone
  have hpays : r.Pays i.recipient i.value.toNat := by
    obtain ⟨text, htext, hparse⟩ := hresolved.recipient
    obtain rfl := Option.some.inj (hdrafted.recipient.symm.trans htext)
    rw [hresolved.value]
    exact ⟨EvmAddress.writes_of_parse hparse, Amount.of_parse hdrafted.value⟩
  -- The asset that the call of the intent stands for is described and moved; there is no other.
  suffices hasset : ∃ asset, r.Describes asset ∧ asset.MovedBy t by
    obtain ⟨asset, hdescribes, hmoved⟩ := hasset
    refine ⟨asset, fun asset' => ⟨fun h => h.unique hdescribes, ?_⟩, hmoved⟩
    rintro rfl
    exact hdescribes
  have htarget := hcarries.target
  rw [target] at htarget
  have hresolve := hresolved.call
  rw [hdrafted.token] at hresolve
  rcases Call.of_resolve hresolve with ⟨bs, hbs, hcall⟩ |
    ⟨hnone, ⟨text, contract, htext, hplaceholder, hcontract, hcall⟩ | ⟨hplaceholder, hcall⟩⟩
  · simp only [hcall, Prod.mk.injEq] at htarget
    obtain ⟨hrecipient, hvalue, hdata⟩ := htarget
    exact ⟨_, .call hpays (hcalls.mpr hbs), hrecipient, by rw [hvalue], hdata⟩
  · simp only [hcall, Prod.mk.injEq] at htarget
    obtain ⟨hrecipient, hvalue, hdata⟩ := htarget
    obtain ⟨hlength, htransfer⟩ := Call.transfer?_transferData i.recipient i.value
    refine ⟨_, .token hpays (hcallless hnone) htext hplaceholder hcontract, hrecipient, hvalue, ?_, ?_⟩
    · rw [hdata, hlength]
    · rw [hdata, htransfer]
  · simp only [hcall, Prod.mk.injEq] at htarget
    obtain ⟨hrecipient, hvalue, hdata⟩ := htarget
    exact ⟨_, .ether hpays (hcallless hnone) hplaceholder, hrecipient, by rw [hvalue], hdata⟩

/-- What comes of a request moves the one asset that the request describes: data with the value, tokens of the contract, which a
decoder of transfers finds in the data, or the value alone. A request without call data whose token text is no placeholder never
becomes a transfer of the value. Two transfers of tokens with the same recipient, value and data are of the same contract, to the
same recipient and of the same amount. -/
theorem moves_described {r : Request.Evm} {i : Intent} {t : Transaction}
    (hintent : r.intent = .ok i) (hbuild : ofIntent i = .ok t) :
    (∃ asset, (∀ asset', r.Describes asset' ↔ asset' = asset) ∧ asset.MovedBy t) ∧
    (∀ text, r.token = some text → ¬Call.Placeholder (trimChars text.toList) → (∀ bs, ¬r.Calls bs) →
      t.value = 0 ∧ t.data ≠ []) ∧
    ∀ (r' : Request.Evm) (i' : Intent) (t' : Transaction) (contract recipient contract' recipient' : EvmAddress)
        (amount amount' : Nat), r'.intent = .ok i' → ofIntent i' = .ok t' →
      r.Describes (.token contract recipient amount) → r'.Describes (.token contract' recipient' amount') →
      t.recipient = t'.recipient → t.value = t'.value → t.data = t'.data →
      contract = contract' ∧ recipient = recipient' ∧ amount = amount' := by
  obtain ⟨asset, hdescribes, hmoved⟩ := exists_moved hintent hbuild
  refine ⟨⟨asset, hdescribes, hmoved⟩, fun text htext hplaceholder hcalls => ?_, ?_⟩
  · have hasset := (hdescribes asset).mpr rfl
    cases hasset with
    | call _ hcalls' => exact absurd hcalls' (hcalls _)
    | token =>
      obtain ⟨-, hvalue, hlength, -⟩ := hmoved
      refine ⟨hvalue, fun hdata => ?_⟩
      rw [hdata] at hlength
      cases hlength
    | ether _ _ htoken => exact absurd (htoken text htext) hplaceholder
  · intro r' i' t' contract recipient contract' recipient' amount amount' hintent' hbuild' htoken htoken' hrecipient _
      hdata
    obtain ⟨asset', hdescribes', hmoved'⟩ := exists_moved hintent' hbuild'
    obtain rfl := (hdescribes _).mp htoken
    obtain rfl := (hdescribes' _).mp htoken'
    obtain ⟨hcontract, -, -, htransfer⟩ := hmoved
    obtain ⟨hcontract', -, -, htransfer'⟩ := hmoved'
    rw [hdata, htransfer'] at htransfer
    obtain ⟨hsame, hamount⟩ := Prod.mk.inj (Option.some.inj htransfer)
    exact ⟨hcontract.symm.trans (hrecipient.trans hcontract'), hsame.symm, hamount.symm⟩

/-- A request for a transfer of one and a half tokens with six decimals, with empty call data. -/
def sampleRequest : Request.Evm where
  secretKey := ""
  nonce := 0
  sender := "0x9d8a62f656a8d1615c1294fd71e9cfb3e4855a4f"
  recipient := "0x3333333333333333333333333333333333333333"
  gasLimit := 60000
  amount := " 1.50 "
  decimals := 6
  chainId := 1
  gasPrice := some (.number 20000000000)
  token := some "0xA0B86991C6218B36C1D19D4A2E9EB0CE3606EB48"
  callData := some "0x"

/-- The contract of the tokens. -/
def sampleContract : EvmAddress := FixedBytes.ofNatBE 20 0xa0b86991c6218b36c1d19d4a2e9eb0ce3606eb48

/-- The transaction that the request asks for. -/
def sampleTransfer : Transaction where
  nonce := 0
  sender := FixedBytes.ofNatBE 20 0x9d8a62f656a8d1615c1294fd71e9cfb3e4855a4f
  recipient := sampleContract
  value := 0
  data := Call.transferData (FixedBytes.replicate 20 0x33) 1500000
  gasLimit := 60000
  chainId := 1
  fee := .legacy 20000000000

theorem exists_intent_sample : ∃ i, sampleRequest.intent = .ok i ∧ ofIntent i = .ok sampleTransfer := by
  have hbind : (sampleRequest.intent.toOption.bind fun i => (ofIntent i).toOption) = some sampleTransfer := by decide +kernel
  obtain ⟨i, hi, ht⟩ := Option.bind_eq_some_iff.mp hbind
  exact ⟨i, toOption_eq_some_iff.mp hi, toOption_eq_some_iff.mp ht⟩

theorem not_calls_sample (bs : Bytes) : ¬sampleRequest.Calls bs := by
  have hcalls : sampleRequest.callBytes = .ok (some []) := by decide +kernel
  intro h
  have hdata := (Request.Evm.calls_iff hcalls).mp h
  cases hdata

theorem not_placeholder_sample : ¬Call.Placeholder (trimChars "0xA0B86991C6218B36C1D19D4A2E9EB0CE3606EB48".toList) := by
  rw [← Call.isPlaceholder_iff]
  decide

/-- The request describes a million and a half of the smallest units. -/
theorem describes_sample : sampleRequest.Describes (.token sampleContract (FixedBytes.replicate 20 0x33) 1500000) := by
  have hamount : Amount.Writes (trimChars sampleRequest.amount.toList) ((1 : ℕ) + (50 : ℕ) / 10 ^ 2) := by
    have htrimmed : trimChars sampleRequest.amount.toList = ['1'] ++ '.' :: ['5', '0'] := by decide
    rw [htrimmed]
    exact .point rfl rfl (Or.inl (List.cons_ne_nil _ _))
  have hdecimals : sampleRequest.decimals.toNat = 6 := rfl
  refine .token ⟨⟨List.replicate 40 '3', by decide, by decide⟩, _, hamount, ?_⟩ not_calls_sample rfl not_placeholder_sample
    ⟨_, rfl, by decide⟩
  rw [hdecimals]
  norm_num

/-- The transaction of the request moves the tokens, which are of no other contract. -/
theorem moves_described_sample :
    (Asset.token sampleContract (FixedBytes.replicate 20 0x33) 1500000).MovedBy sampleTransfer ∧ sampleTransfer.data ≠ [] ∧
      ∀ contract recipient amount, sampleRequest.Describes (.token contract recipient amount) → contract = sampleContract := by
  obtain ⟨i, hintent, hbuild⟩ := exists_intent_sample
  obtain ⟨⟨asset, hdescribes, hmoved⟩, hplain, hsame⟩ := moves_described hintent hbuild
  obtain rfl := (hdescribes _).mp describes_sample
  refine ⟨hmoved, (hplain _ rfl not_placeholder_sample not_calls_sample).2, fun contract recipient amount h => ?_⟩
  exact (hsame sampleRequest i sampleTransfer _ _ _ _ _ _ hintent hbuild h describes_sample rfl rfl rfl).1

end Evm.Transaction

end OfflineSigner
