import OfflineSigner.Address.Evm
import OfflineSigner.Proofs.Bytes
import OfflineSigner.Proofs.Hex

/-!
# What is read as an EVM address

What it is for a text to write an address, without reference to how it is read (`EvmAddress.Writes`); it writes one at most
(`Writes.unique`). Main statements: a text is read as the address that it writes, provided its letters are of one case or carry
the checksum (`parse_eq_ok_iff`), so the texts of an address in checksummed form, in lower case and in upper case are read as
that address (`parse_text`, `parse_lowerText`, `parse_upperText`).
-/

namespace OfflineSigner.EvmAddress

/-! ## What is read -/

/-- Whether characters write an address: after `0x` they are its hexadecimal digits, each letter in either case. -/
def Writes (cs : List Char) (a : EvmAddress) : Prop :=
  ∃ body, cs = '0' :: 'x' :: body ∧ body.map Char.toLower = Hex.encodeChars a.toList

theorem Writes.unique {cs : List Char} {a a' : EvmAddress} (h : Writes cs a) (h' : Writes cs a') : a = a' := by
  obtain ⟨body, rfl, hbody⟩ := h
  obtain ⟨body', hsame, hbody'⟩ := h'
  obtain rfl : body = body' := by simpa using hsame
  exact FixedBytes.eq_of_toList (Hex.encodeChars_injective (hbody.symm.trans hbody'))

/-- Whether letters of both cases stand among characters. -/
def MixedCase (cs : List Char) : Prop := cs.any Char.isLower = true ∧ cs.any Char.isUpper = true

/-- An address is read from a text that writes it. Where letters of both cases stand in it, they are those of the checksummed
text. -/
theorem parse_eq_ok_iff {s : String} {a : EvmAddress} :
    parse s = .ok a ↔
      ∃ body, Text.trimChars s.toList = '0' :: 'x' :: body ∧ body.map Char.toLower = Hex.encodeChars a.toList ∧
        (MixedCase body → a.text = String.ofList ('0' :: 'x' :: body)) := by
  unfold parse
  dsimp only
  constructor
  · intro h
    split at h
    · rename_i body hbody
      split at h
      · split at h
        · cases h
        · rename_i a' hread
          split at h
          · cases h
          · rename_i hchecksum
            obtain rfl := Except.ok.inj h
            obtain ⟨bs, hbs, ha⟩ := Option.bind_eq_some_iff.mp hread
            have hdigits := Hex.decodeUtf8_eq_ok_iff.mp (toOption_eq_some_iff.mp hbs)
            rw [← FixedBytes.ofList?_eq_some_iff.mp ha] at hdigits
            refine ⟨body, hbody, hdigits, fun hmixed => ?_⟩
            by_contra hne
            exact hchecksum ⟨hmixed.1, hmixed.2, by rwa [hbody]⟩
      · cases h
    · cases h
  · rintro ⟨body, hbody, hdigits, hchecksum⟩
    have hall : body.all Text.isHexDigit = true := List.all_eq_true.mpr (Hex.exists_encodeChars_iff.mp ⟨_, hdigits⟩).2
    have hread : (Hex.decodeUtf8 (Text.utf8Chars body)).toOption.bind (FixedBytes.ofList? 20) = some a := by
      rw [Hex.decodeUtf8_eq_ok_iff.mpr hdigits]
      exact a.ofList?_toList
    rw [hbody]
    simp only [hall, if_true, hread]
    refine if_neg ?_
    rintro ⟨hlower, hupper, hne⟩
    exact hne (hchecksum ⟨hlower, hupper⟩)

/-- What is read from a text is the address that the text writes. -/
theorem writes_of_parse {s : String} {a : EvmAddress} (h : parse s = .ok a) : Writes (Text.trimChars s.toList) a := by
  obtain ⟨body, hbody, hdigits, -⟩ := parse_eq_ok_iff.mp h
  exact ⟨body, hbody, hdigits⟩

/-! ## What is written -/

/-- The text of an address in lower case. -/
def lowerText (a : EvmAddress) : String := String.ofList ('0' :: 'x' :: Hex.encodeChars a.toList)

/-- The text of an address with its letters in upper case. -/
def upperText (a : EvmAddress) : String := String.ofList ('0' :: 'x' :: (Hex.encodeChars a.toList).map Char.toUpper)

/-- A hexadecimal digit is small and has itself as its lower case, and so has its capital, which is no small letter. -/
theorem case_digit (n : Nat) :
    (Hex.digit n).toLower = Hex.digit n ∧ (Hex.digit n).toUpper.toLower = Hex.digit n ∧ (Hex.digit n).isUpper = false ∧
      (Hex.digit n).toUpper.isLower = false := by
  have hall : ∀ n : Fin 16, (Hex.digit n.val).toLower = Hex.digit n.val ∧ (Hex.digit n.val).toUpper.toLower = Hex.digit n.val ∧
      (Hex.digit n.val).isUpper = false ∧ (Hex.digit n.val).toUpper.isLower = false := by decide
  have h := hall ⟨n % 16, Nat.mod_lt n (by decide)⟩
  rwa [Hex.digit_mod] at h

/-- A character whose lower case is a hexadecimal digit is no blank. -/
theorem isBlank_of_toLower {c : Char} {n : Nat} (h : c.toLower = Hex.digit n) : Text.isBlank c = false := by
  have hall : ∀ n : Fin 16, Text.isBlank (Hex.digit n.val) = false := by decide
  have hdigit := hall ⟨n % 16, Nat.mod_lt n (by decide)⟩
  rw [Hex.digit_mod, ← h] at hdigit
  by_contra hblank
  rw [Text.toLower_of_isBlank (Bool.not_eq_false _ |>.mp hblank)] at hdigit
  exact hblank hdigit

/-- Behind `0x` and digits there is nothing to trim. -/
theorem trimChars_marked {body : List Char} {bs : Bytes} (hdigits : body.map Char.toLower = Hex.encodeChars bs) :
    Text.trimChars ('0' :: 'x' :: body) = '0' :: 'x' :: body := by
  refine Text.trimChars_eq_self fun c hc => ?_
  rcases List.mem_cons.mp hc with rfl | hc
  · rfl
  · rcases List.mem_cons.mp hc with rfl | hc
    · rfl
    · obtain ⟨n, hn⟩ := Hex.exists_digit_of_mem (hdigits ▸ List.mem_map_of_mem hc)
      exact isBlank_of_toLower hn

/-- The digits of an address after `0x` are read as the address, when their letters are of one case or carry the checksum. -/
theorem parse_ofList {body : List Char} {a : EvmAddress} (hdigits : body.map Char.toLower = Hex.encodeChars a.toList)
    (hchecksum : MixedCase body → a.text = String.ofList ('0' :: 'x' :: body)) :
    parse (String.ofList ('0' :: 'x' :: body)) = .ok a := by
  refine parse_eq_ok_iff.mpr ⟨body, ?_, hdigits, hchecksum⟩
  rw [String.toList_ofList, trimChars_marked hdigits]

/-- Capitals among digits do not change what the digits are in lower case. -/
theorem map_toLower_capitalize {bs : Bytes} {hash : List Nat} (hlength : (Hex.encodeChars bs).length ≤ hash.length) :
    (capitalize (Hex.encodeChars bs) hash).map Char.toLower = Hex.encodeChars bs := by
  have hdigits : ∀ c ∈ Hex.encodeChars bs, c.toLower = c ∧ c.toUpper.toLower = c := by
    intro c hc
    obtain ⟨n, rfl⟩ := Hex.exists_digit_of_mem hc
    exact ⟨(case_digit n).1, (case_digit n).2.1⟩
  generalize Hex.encodeChars bs = digits at hlength hdigits
  induction digits generalizing hash with
  | nil => rfl
  | cons c digits ih =>
    cases hash with
    | nil => cases hlength
    | cons h hash =>
      obtain ⟨hlower, hupper⟩ := hdigits c List.mem_cons_self
      have hrest := ih (Nat.le_of_succ_le_succ hlength) fun c' hc' => hdigits c' (List.mem_cons_of_mem c hc')
      have hcase : (if 8 ≤ h then c.toUpper else c).toLower = c := by
        split
        · exact hupper
        · exact hlower
      rw [capitalize] at hrest ⊢
      rw [List.zipWith_cons_cons, List.map_cons, hcase, hrest]

theorem length_nibbles (bs : Bytes) : (nibbles bs).length = 2 * bs.length := length_flatMap_of_forall fun _ _ => rfl

/-- The checksummed text of an address writes it. -/
theorem exists_text_eq (a : EvmAddress) :
    ∃ body, a.text = String.ofList ('0' :: 'x' :: body) ∧ body.map Char.toLower = Hex.encodeChars a.toList := by
  refine ⟨_, rfl, map_toLower_capitalize ?_⟩
  rw [length_nibbles, Hex.length_encodeChars, a.length_toList, FixedBytes.length_toList]
  decide

/-- The checksummed text of an address is read as the address. -/
theorem parse_text (a : EvmAddress) : parse a.text = .ok a := by
  obtain ⟨body, htext, hdigits⟩ := a.exists_text_eq
  rw [htext]
  exact parse_ofList hdigits fun _ => htext

/-- An address is read from its text in lower case. -/
theorem parse_lowerText (a : EvmAddress) : parse a.lowerText = .ok a := by
  refine parse_ofList ?_ fun hmixed => ?_
  · refine (List.map_congr_left fun c hc => ?_).trans (List.map_id _)
    obtain ⟨n, rfl⟩ := Hex.exists_digit_of_mem hc
    exact (case_digit n).1
  · obtain ⟨c, hc, hupper⟩ := List.any_eq_true.mp hmixed.2
    obtain ⟨n, rfl⟩ := Hex.exists_digit_of_mem hc
    rw [(case_digit n).2.2.1] at hupper
    cases hupper

/-- An address is read from its text in upper case. -/
theorem parse_upperText (a : EvmAddress) : parse a.upperText = .ok a := by
  refine parse_ofList ?_ fun hmixed => ?_
  · rw [List.map_map]
    refine (List.map_congr_left fun c hc => ?_).trans (List.map_id _)
    obtain ⟨n, rfl⟩ := Hex.exists_digit_of_mem hc
    exact (case_digit n).2.1
  · obtain ⟨c, hc, hlower⟩ := List.any_eq_true.mp hmixed.1
    obtain ⟨c', hc', rfl⟩ := List.mem_map.mp hc
    obtain ⟨n, rfl⟩ := Hex.exists_digit_of_mem hc'
    rw [(case_digit n).2.2.2] at hlower
    cases hlower

end OfflineSigner.EvmAddress
