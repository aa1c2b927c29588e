import OfflineSigner.Proofs.Evm.Fee
import OfflineSigner.Proofs.Evm.Intent
import OfflineSigner.Proofs.Request.Quantity

/-!
# Prices by any spelling

The ways to spell a number as a quantity (`Quantity.Spells`), which are all read as that number (`Quantity.Spells.value_eq`). Main
statement: a request whose prices are spelled in other ways is the same request, in what it intends and in what is signed, and its
fee is the one that the numbers mean (`spelling_free`).
-/

namespace OfflineSigner

namespace Evm.Draft

/-- A draft with other prices. -/
def priced (draft : Draft) (gasPrice maxFee priority : Option Word) : Draft :=
  { draft with gasPrice, maxFee, priorityFee := priority }

/-- The prices of a draft are looked at last, and settle the fee only. -/
theorem resolve_priced (draft : Draft) (gasPrice maxFee priority : Option Word) :
    (draft.priced gasPrice maxFee priority).resolve = do
      let i ← (draft.priced (some 0) none none).resolve
      let fee ← (Fee.resolve gasPrice maxFee priority).mapError .fee
      return { i with fee } := by
  unfold resolve priced
  dsimp only
  -- One case for each fault, in the order in which they are met: none is met after the fee.
  cases draft.sender with
  | none => rfl
  | some sender =>
    cases draft.recipient with
    | none => rfl
    | some recipient =>
      dsimp only
      cases EvmAddress.parse sender with
      | error e => rfl
      | ok a =>
        cases EvmAddress.parse recipient with
        | error e => rfl
        | ok b => cases Call.resolve draft.token draft.data <;> rfl

end Evm.Draft

namespace Request

open Text

namespace Quantity

/-! ## Spellings -/

/-- Whether a quantity spells a number: it is the number, or a text that writes it, with any blanks around. -/
inductive Spells : Quantity → Word → Prop where
  | number {n : UInt64} {w : Word} (h : n.toNat = w.toNat) : Spells (.number n) w
  | text (before cs after : List Char) {s : String} {w : Word} (hs : s.toList = before ++ cs ++ after)
    (hbefore : ∀ c ∈ before, isBlank c = true) (hafter : ∀ c ∈ after, isBlank c = true) (h : Writes cs w.toNat) :
    Spells (.text s) w

/-- By any spelling a number is read as itself. -/
theorem Spells.value_eq {q : Quantity} {w : Word} (h : Spells q w) : q.value = .ok w := by
  cases h with
  | number h => rw [value, h, BitVec.ofNat_toNat, BitVec.setWidth_eq]
  | text before cs after hs hbefore hafter h =>
    rw [value_text_eq_ok_iff, hs, trimChars_append hbefore hafter, trimChars_eq_self h.isBlank_eq_false]
    exact Or.inl h

/-- Whether an optional quantity gives an optional number: a spelling of it, or nothing for nothing. -/
inductive Gives : Option Quantity → Option Word → Prop where
  | none : Gives none none
  | some {q : Quantity} {w : Word} (h : Spells q w) : Gives (some q) (some w)

theorem Gives.value?_eq {q : Option Quantity} {w : Option Word} (h : Gives q w) : value? q = .ok w := by
  cases h with
  | none => rfl
  | some h =>
    rw [value?, h.value_eq]
    rfl

/-- Whether one optional quantity stands for another: it is the same, or both spell one number. -/
inductive Alike (q : Option Quantity) : Option Quantity → Prop where
  | same : Alike q q
  | respelled {q' : Option Quantity} {w : Option Word} (h : Gives q w) (h' : Gives q' w) : Alike q q'

theorem Alike.value?_eq {q q' : Option Quantity} (h : Alike q q') : value? q = value? q' := by
  cases h with
  | same => rfl
  | respelled h h' => rw [h.value?_eq, h'.value?_eq]

end Quantity

namespace Evm

open OfflineSigner.Evm (Fee Intent Draft)
open Quantity

/-! ## Requests -/

/-- The same request at no price. -/
def free (r : Evm) : Evm := { r with gasPrice := some (.number 0), maxFee := none, priorityFee := none }

theorem callBytes_free (r : Evm) : r.free.callBytes = r.callBytes := rfl

/-- Whether a request is another with its prices in other spellings: at no price they are the same. -/
structure Respelled (r r' : Evm) : Prop where
  others : r.free = r'.free
  gasPrice : Alike r.gasPrice r'.gasPrice
  maxFee : Alike r.maxFee r'.maxFee
  priorityFee : Alike r.priorityFee r'.priorityFee

/-- Nothing of the prices is in the draft but the numbers that they are read as. -/
theorem Respelled.draft_eq {r r' : Evm} (h : Respelled r r') : r.draft = r'.draft := by
  have hgasPrice := h.gasPrice.value?_eq
  have hmaxFee := h.maxFee.value?_eq
  have hpriorityFee := h.priorityFee.value?_eq
  have hbytes : r.callBytes = r'.callBytes := by rw [← callBytes_free r, h.others, callBytes_free]
  have hothers := h.others
  simp only [free, mk.injEq] at hothers
  simp only [draft, hgasPrice, hmaxFee, hpriorityFee, hbytes, hothers]

theorem Respelled.intent_eq {r r' : Evm} (h : Respelled r r') : r.intent = r'.intent := by
  rw [intent, intent, h.draft_eq]

theorem Respelled.sign_eq {r r' : Evm} (h : Respelled r r') (config : Config) : r.sign config = r'.sign config := by
  have hkey : r.secretKey = r'.secretKey := (mk.inj h.others).1
  rw [sign, sign, hkey, h.intent_eq]

/-- The draft of a request without its prices. -/
def unpriced (r : Evm) : Except Failure Draft := do
  let value ← (Amount.parse r.amount r.decimals.toNat).mapError Amount.Error.report
  let data ← r.callBytes
  return {
    nonce := r.nonce
    sender := some r.sender
    recipient := some r.recipient
    value
    gasLimit := r.gasLimit
    chainId := r.chainId
    token := r.token
    data }

section

variable {r : Evm} {gasPrice maxFee priority : Option Word}

/-- The draft of a request that gives numbers as its prices is the one without prices, with the numbers in it. -/
theorem draft_of_gives (hgasPrice : Gives r.gasPrice gasPrice) (hmaxFee : Gives r.maxFee maxFee)
    (hpriority : Gives r.priorityFee priority) :
    r.draft = r.unpriced.map fun draft => draft.priced gasPrice maxFee priority := by
  simp only [draft, unpriced, hgasPrice.value?_eq, hmaxFee.value?_eq, hpriority.value?_eq, ok_bind]
  cases Amount.parse r.amount r.decimals.toNat with
  | error e => rfl
  | ok value =>
    cases r.callBytes with
    | error f => rfl
    | ok data => rfl

theorem draft_free (r : Evm) : r.free.draft = r.unpriced.map fun draft => draft.priced (some 0) none none :=
  draft_of_gives (r := r.free) (.some (.number rfl)) .none .none

/-- A request that gives numbers as its prices intends what it intends at no price, with the fee that the numbers mean. -/
theorem intent_of_gives (hgasPrice : Gives r.gasPrice gasPrice) (hmaxFee : Gives r.maxFee maxFee)
    (hpriority : Gives r.priorityFee priority) :
    r.intent = do
      let i ← r.free.intent
      let fee ← (Fee.resolve gasPrice maxFee priority).mapError Fee.Error.report
      return { i with fee } := by
  rw [intent, intent, draft_of_gives hgasPrice hmaxFee hpriority, draft_free]
  cases r.unpriced with
  | error f => rfl
  | ok draft =>
    simp only [Except.map, ok_bind]
    rw [draft.resolve_priced]
    cases (draft.priced (some 0) none none).resolve with
    | error e => rfl
    | ok i => cases Fee.resolve gasPrice maxFee priority <;> rfl

end

/-- How the prices of a request are spelled makes no difference: a request with other spellings intends the same and is signed the
same. And the fee of a request that gives numbers as its prices is the one that the numbers mean, capped exactly when a highest
price and a share are given and not zero; what else it intends is what it intends at no price. Where the numbers mean no fee, the
request is refused for its fee. -/
theorem spelling_free {r r' : Evm} (h : Respelled r r') :
    r.intent = r'.intent ∧ (∀ config, r.sign config = r'.sign config) ∧
    ∀ gasPrice maxFee priority, Gives r.gasPrice gasPrice → Gives r.maxFee maxFee → Gives r.priorityFee priority →
      (∀ i, r.intent = .ok i ↔
        ∃ i₀ fee, r.free.intent = .ok i₀ ∧ Fee.Means gasPrice maxFee priority fee ∧ i = { i₀ with fee }) ∧
      (∀ i, r.intent = .ok i → (i.fee.isCapped = true ↔ ∃ m p, Fee.Priced maxFee priority m p)) ∧
      ∀ i₀, r.free.intent = .ok i₀ → (∀ fee, ¬Fee.Means gasPrice maxFee priority fee) →
        ∃ f, r.intent = .error f ∧ f.code = .unsupportedFeeModel := by
  refine ⟨h.intent_eq, h.sign_eq, fun gasPrice maxFee priority hgasPrice hmaxFee hpriority => ?_⟩
  have hok : ∀ i, r.intent = .ok i ↔
      ∃ i₀ fee, r.free.intent = .ok i₀ ∧ Fee.Means gasPrice maxFee priority fee ∧ i = { i₀ with fee } := by
    intro i
    simp only [intent_of_gives hgasPrice hmaxFee hpriority, bind_eq_ok_iff, mapError_eq_ok_iff, Fee.resolve_eq_ok_iff]
    constructor
    · rintro ⟨i₀, hi₀, fee, hmeans, hi⟩
      exact ⟨i₀, fee, hi₀, hmeans, (Except.ok.inj hi).symm⟩
    · rintro ⟨i₀, fee, hi₀, hmeans, rfl⟩
      exact ⟨i₀, hi₀, fee, hmeans, rfl⟩
  refine ⟨hok, fun i hi => ?_, fun i₀ hi₀ hnone => ?_⟩
  · obtain ⟨i₀, fee, -, hmeans, rfl⟩ := (hok i).mp hi
    exact hmeans.isCapped_iff
  · rw [intent_of_gives hgasPrice hmaxFee hpriority, hi₀, ok_bind]
    cases hfee : Fee.resolve gasPrice maxFee priority with
    | error e => exact ⟨e.report, rfl, rfl⟩
    | ok fee => exact absurd (Fee.resolve_eq_ok_iff.mp hfee) (hnone fee)

/-- A request with a capped fee. -/
def sample : Evm where
  secretKey := "0x4646464646464646464646464646464646464646464646464646464646464646"
  nonce := 9
  sender := "0x9d8a62f656a8d1615c1294fd71e9cfb3e4855a4f"
  recipient := "0x3333333333333333333333333333333333333333"
  gasLimit := 21000
  amount := "1"
  chainId := 1
  gasPrice := some (.number 0)
  maxFee := some (.number 200)
  priorityFee := some (.number 31)

/-- The same with its prices in texts. -/
def sampleRespelled : Evm :=
  { sample with
    gasPrice := some (.text "0x0")
    maxFee := some (.text " 00200")
    priorityFee := some (.text "0x1F") }

/-- The fee of the sample is the same by both spellings. -/
theorem spelling_free_sample :
    Respelled sample sampleRespelled ∧ sample.intent = sampleRespelled.intent ∧
      (∀ config, sample.sign config = sampleRespelled.sign config) ∧
      ∃ i, sampleRespelled.intent = .ok i ∧ i.fee = .capped 200 31 := by
  have hzero : Gives sample.gasPrice (some 0) := .some (.number rfl)
  have hmaxFee : Gives sample.maxFee (some 200) := .some (.number rfl)
  have hpriority : Gives sample.priorityFee (some 31) := .some (.number rfl)
  have hzeroText : Gives sampleRespelled.gasPrice (some 0) :=
    .some (.text [] ['0', 'x', '0'] [] rfl (by simp) (by simp) (.hexadecimal ⟨0, by decide⟩ (by decide)))
  have hmaxFeeText : Gives sampleRespelled.maxFee (some 200) :=
    .some (.text [' '] ['0', '0', '2', '0', '0'] [] rfl (List.forall_mem_singleton.mpr rfl) (by simp) (.decimal ⟨2, by decide⟩))
  have hpriorityText : Gives sampleRespelled.priorityFee (some 31) :=
    .some (.text [] ['0', 'x', '1', 'F'] [] rfl (by simp) (by simp) (.hexadecimal ⟨0, by decide⟩ (by decide)))
  have hrespelled : Respelled sample sampleRespelled :=
    ⟨rfl, .respelled hzero hzeroText, .respelled hmaxFee hmaxFeeText, .respelled hpriority hpriorityText⟩
  have hmeans : Fee.Means (some 0) (some 200) (some 31) (.capped 200 31) :=
    .capped ⟨rfl, rfl, by decide, by decide⟩ (by decide)
  have hreadable : sample.free.intent.toOption.isSome = true := by decide +kernel
  obtain ⟨i₀, hi₀⟩ := Option.isSome_iff_exists.mp hreadable
  obtain ⟨hintent, hsign, hfee⟩ := spelling_free hrespelled
  obtain ⟨hok, -, -⟩ := hfee _ _ _ hzero hmaxFee hpriority
  have hi := (hok _).mpr ⟨i₀, _, toOption_eq_some_iff.mp hi₀, hmeans, rfl⟩
  exact ⟨hrespelled, hintent, hsign, _, hintent.symm.trans hi, rfl⟩

end Evm

end Request

end OfflineSigner
