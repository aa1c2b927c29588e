import OfflineSigner.Proofs.Address.Evm
import Mathlib

/-!
# The forms of an EVM address

Main statement: `forms_exact`, that an address is read from three texts and no others, blanks around a text aside: its digits
behind `0x` in lower case, in upper case, and with the checksum in their letters. A text that is read otherwise has letters of one
case (`eq_of_not_mixedCase`), which leaves no choice.
-/

namespace OfflineSigner.EvmAddress

/-- Characters with letters of one case are their lower case or the capitals of it. -/
theorem eq_of_not_mixedCase {cs : List Char} (h : ¬MixedCase cs) :
    cs = cs.map Char.toLower ∨ cs = (cs.map Char.toLower).map Char.toUpper := by
  rcases not_and_or.mp h with hlower | hupper
  · right
    rw [List.map_map]
    refine ((List.map_congr_left fun c hc => ?_).trans (List.map_id _)).symm
    rw [Function.comp_apply, Char.toUpper_toLower_eq_toUpper]
    exact Char.toUpper_eq_of_not_isLower fun h => hlower (List.any_eq_true.mpr ⟨c, hc, h⟩)
  · left
    refine ((List.map_congr_left fun c hc => ?_).trans (List.map_id _)).symm
    exact Char.toLower_eq_of_not_isUpper fun h => hupper (List.any_eq_true.mpr ⟨c, hc, h⟩)

/-- The forms of an address. Where it has few letters, some of them are the same. -/
inductive Form (a : EvmAddress) : String → Prop where
  | lower : Form a a.lowerText
  | upper : Form a a.upperText
  | checksummed : Form a a.text

theorem form_iff {a : EvmAddress} {s : String} : Form a s ↔ s = a.lowerText ∨ s = a.upperText ∨ s = a.text := by
  constructor
  · rintro (_ | _ | _)
    · exact Or.inl rfl
    · exact Or.inr (Or.inl rfl)
    · exact Or.inr (Or.inr rfl)
  · rintro (rfl | rfl | rfl)
    · exact .lower
    · exact .upper
    · exact .checksummed

/-- Each form of an address is read as the address. -/
theorem parse_of_form {a : EvmAddress} {s : String} (h : Form a s) : parse s = .ok a := by
  cases h with
  | lower => exact parse_lowerText a
  | upper => exact parse_upperText a
  | checksummed => exact parse_text a

/-- A text is read as it is without the blanks around it. -/
theorem parse_congr {s s' : String} (h : Text.trimChars s.toList = Text.trimChars s'.toList) : parse s = parse s' := by
  unfold parse
  rw [h]

/-- A text is read as the address of which it is a form, when it has no blanks around it. -/
theorem parse_eq_ok_iff_form {s : String} {a : EvmAddress} :
    parse s = .ok a ↔ Form a (String.ofList (Text.trimChars s.toList)) := by
  constructor
  · intro h
    obtain ⟨body, hbody, hdigits, hchecksum⟩ := parse_eq_ok_iff.mp h
    rw [hbody]
    by_cases hmixed : MixedCase body
    · rw [← hchecksum hmixed]
      exact .checksummed
    · have hcase := eq_of_not_mixedCase hmixed
      rw [hdigits] at hcase
      rcases hcase with rfl | rfl
      · exact .lower
      · exact .upper
  · intro h
    rw [← parse_of_form h]
    refine parse_congr ?_
    rw [String.toList_ofList, Text.trimChars_trimChars]

/-- Any string of at most 32 bytes has a checksummed text: `0x` and the digits of the bytes, with letters of either case. -/
theorem exists_checksummed? {bs : Bytes} (h : bs.length ≤ 32) :
    ∃ body, checksummed? bs = some (String.ofList ('0' :: 'x' :: body)) ∧ body.map Char.toLower = Hex.encodeChars bs := by
  refine ⟨_, if_pos h, map_toLower_capitalize ?_⟩
  rw [length_nibbles, Hex.length_encodeChars, FixedBytes.length_toList]
  omega

/-- Bytes are read from their digits behind `0x`, whatever the case of the letters. -/
theorem decodeMarked_ofList {body : List Char} {bs : Bytes} (hdigits : body.map Char.toLower = Hex.encodeChars bs) :
    Hex.decodeMarked (String.ofList ('0' :: 'x' :: body)) = .ok bs := by
  rw [Hex.decodeMarked, String.toList_ofList, trimChars_marked hdigits]
  exact Hex.decodeUtf8_eq_ok_iff.mpr hdigits

/-- Texts and addresses correspond exactly. Of the texts without blanks around them, those that are read as an address are its
form in lower case, its form in upper case and its checksummed form. Blanks around a text make no difference, neither to the
address nor to the fault. A text that is no form of any address, blanks around it aside, is refused as no address. The
checksummed text of at most 32 bytes is `0x` and their digits in letters of either case, and the bytes are read back from it. -/
theorem forms_exact :
    (∀ (s : String) (a : EvmAddress), Text.trimChars s.toList = s.toList →
      (parse s = .ok a ↔ s = a.lowerText ∨ s = a.upperText ∨ s = a.text)) ∧
    (∀ (s : String) (before after : List Char), (∀ c ∈ before, Text.isBlank c = true) → (∀ c ∈ after, Text.isBlank c = true) →
      parse (String.ofList (before ++ s.toList ++ after)) = parse s) ∧
    (∀ s : String, (∀ a : EvmAddress, ¬Form a (String.ofList (Text.trimChars s.toList))) →
      ∃ e, parse s = .error e ∧ e.report.code = .invalidAddress) ∧
    ∀ bs : Bytes, bs.length ≤ 32 →
      ∃ body, checksummed? bs = some (String.ofList ('0' :: 'x' :: body)) ∧ body.map Char.toLower = Hex.encodeChars bs ∧
        Hex.decodeMarked (String.ofList ('0' :: 'x' :: body)) = .ok bs := by
  refine ⟨fun s a htrim => ?_, fun s before after hbefore hafter => ?_, fun s hnone => ?_, fun bs hlength => ?_⟩
  · rw [parse_eq_ok_iff_form, htrim, String.ofList_toList, form_iff]
  · refine parse_congr ?_
    rw [String.toList_ofList, Text.trimChars_append hbefore hafter]
  · cases h : parse s with
    | ok a => exact absurd (parse_eq_ok_iff_form.mp h) (hnone a)
    | error e => exact ⟨e, rfl, rfl⟩
  · obtain ⟨body, htext, hdigits⟩ := exists_checksummed? hlength
    exact ⟨body, htext, hdigits, decodeMarked_ofList hdigits⟩

/-- A checksummed form between blanks, the text with one more letter in upper case, and the longest string with a checksummed
text. -/
theorem forms_exact_corners :
    (∃ a : EvmAddress,
      ("0x5aAeb6053F3E94C9b9A09f33669435E7Ef1BeAed" = a.lowerText ∨ "0x5aAeb6053F3E94C9b9A09f33669435E7Ef1BeAed" = a.upperText ∨
        "0x5aAeb6053F3E94C9b9A09f33669435E7Ef1BeAed" = a.text) ∧
      parse (String.ofList (['\t', ' '] ++ "0x5aAeb6053F3E94C9b9A09f33669435E7Ef1BeAed".toList ++ ['\n'])) = .ok a) ∧
    (∃ e, parse "0x5AAeb6053F3E94C9b9A09f33669435E7Ef1BeAed" = .error e ∧ e.report.code = .invalidAddress) ∧
    ∃ body, checksummed? (List.replicate 32 0xab) = some (String.ofList ('0' :: 'x' :: body)) ∧
      body.map Char.toLower = Hex.encodeChars (List.replicate 32 0xab) ∧
      Hex.decodeMarked (String.ofList ('0' :: 'x' :: body)) = .ok (List.replicate 32 0xab) := by
  obtain ⟨hforms, hblanks, hrefused, hbytes⟩ := forms_exact
  refine ⟨?_, hrefused _ fun a ha => ?_, hbytes _ (by decide)⟩
  · have hread : (parse "0x5aAeb6053F3E94C9b9A09f33669435E7Ef1BeAed").toOption.isSome = true := by decide +kernel
    obtain ⟨a, ha⟩ := Option.isSome_iff_exists.mp hread
    have ha := toOption_eq_some_iff.mp ha
    refine ⟨a, (hforms _ a (by decide +kernel)).mp ha, ?_⟩
    rw [hblanks _ ['\t', ' '] ['\n'] (List.all_eq_true.mp rfl) (List.all_eq_true.mp rfl), ha]
  · have hnone : (parse "0x5AAeb6053F3E94C9b9A09f33669435E7Ef1BeAed").toOption = none := by decide +kernel
    rw [parse_eq_ok_iff_form.mpr ha] at hnone
    cases hnone

end OfflineSigner.EvmAddress
