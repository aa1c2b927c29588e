import OfflineSigner.Text.Blank
import OfflineSigner.Text.Numeral
import OfflineSigner.Text.Utf8
import Mathlib.Data.List.DropRight
import Mathlib.Data.List.Induction
import Mathlib.Tactic.Ring

/-!
# Characters, blanks and digits

Statements about texts as lists of characters: ASCII characters are told by their bytes (`map_utf8Chars`), a text without blanks
is its own trimmed form (`trimChars_eq_self`), characters write a number in decimal exactly when all of them are digits
(`decimal?_eq_some_iff`), and a number is read from its own digits (`toList_toString`).
-/

namespace OfflineSigner.Text

/-! ## Characters and their bytes -/

/-- Only the letters from `A` to `Z` have another lower case. -/
theorem toLower_eq_self {c : Char} (h : c.toNat < 65 ∨ 90 < c.toNat) : c.toLower = c := by
  have hne : ¬(c.val ≥ 'A'.val ∧ c.val ≤ 'Z'.val) := by
    rintro ⟨hge, hle⟩
    have hge : 65 ≤ c.toNat := UInt32.le_iff_toNat_le.mp hge
    have hle : c.toNat ≤ 90 := UInt32.le_iff_toNat_le.mp hle
    omega
  exact dif_neg hne

/-- A character beyond ASCII has no other case. -/
theorem toLower_of_ge {c : Char} (h : 128 ≤ c.toNat) : c.toLower = c := toLower_eq_self (by omega)

/-- The first byte of a character beyond ASCII is none of an ASCII character. -/
theorem exists_utf8EncodeChar {c : Char} (h : 128 ≤ c.toNat) :
    ∃ b rest, String.utf8EncodeChar c = b :: rest ∧ 128 ≤ b.toNat := by
  have hge : ¬c.val.toNat ≤ 127 := Nat.not_le.mpr h
  unfold String.utf8EncodeChar
  dsimp only
  rw [if_neg hge]
  split
  · exact ⟨_, _, rfl, by rw [UInt8.toNat_ofNat']; omega⟩
  · split <;> exact ⟨_, _, rfl, by rw [UInt8.toNat_ofNat']; omega⟩

/-- An ASCII character is told by its byte. -/
theorem ofNat_toNat_byte {c : Char} (h : c.toNat < 128) : Char.ofNat (UInt8.ofNat c.toNat).toNat = c := by
  rw [UInt8.toNat_ofNat_of_lt' (by omega : c.toNat < 256), Char.ofNat_toNat]

theorem toNat_ofNat_byte (b : UInt8) : (Char.ofNat b.toNat).toNat = b.toNat := by
  have hall : ∀ n : Fin 256, (Char.ofNat n.val).toNat = n.val := by decide +kernel
  exact hall ⟨b.toNat, b.toNat_lt⟩

/-- ASCII characters are written a byte each. -/
theorem utf8Chars_of_ascii {cs : List Char} (h : ∀ c ∈ cs, c.toNat < 128) :
    utf8Chars cs = cs.map fun c => UInt8.ofNat c.toNat := by
  induction cs with
  | nil => rfl
  | cons c cs ih =>
    rw [utf8Chars_cons, utf8EncodeChar_of_lt (h c List.mem_cons_self), ih fun c' hc' => h c' (List.mem_cons_of_mem c hc')]
    rfl

/-- ASCII characters are told by their bytes. -/
theorem map_utf8Chars {cs : List Char} (h : ∀ c ∈ cs, c.toNat < 128) :
    (utf8Chars cs).map (fun b => Char.ofNat b.toNat) = cs := by
  have hmap : cs.map (fun c => Char.ofNat (UInt8.ofNat c.toNat).toNat) = cs.map id :=
    List.map_eq_map_iff.mpr fun c hc => ofNat_toNat_byte (h c hc)
  rw [utf8Chars_of_ascii h, List.map_map]
  exact hmap.trans (List.map_id cs)

/-- Where all bytes are below 128, the characters are ASCII. -/
theorem ascii_of_utf8Chars {cs : List Char} (h : ∀ b ∈ utf8Chars cs, b.toNat < 128) : ∀ c ∈ cs, c.toNat < 128 := by
  intro c hc
  refine Nat.lt_of_not_le fun hge => ?_
  obtain ⟨b, rest, hencode, hb⟩ := exists_utf8EncodeChar hge
  have hmem : b ∈ utf8Chars cs := List.mem_flatMap.mpr ⟨c, hc, by rw [hencode]; exact List.mem_cons_self⟩
  exact absurd (h b hmem) (Nat.not_lt.mpr hb)

/-! ## Blanks -/

/-- A blank has no other case. -/
theorem toLower_of_isBlank {c : Char} (h : isBlank c = true) : c.toLower = c := by
  simp [isBlank] at h
  exact toLower_eq_self (by omega)

/-- A text without blanks is not trimmed. -/
theorem trimChars_eq_self {cs : List Char} (h : ∀ c ∈ cs, isBlank c = false) : trimChars cs = cs := by
  have hself : ∀ cs : List Char, (∀ c ∈ cs, isBlank c = false) → cs.dropWhile isBlank = cs := by
    intro cs hcs
    cases cs with
    | nil => rfl
    | cons c cs => rw [List.dropWhile_cons, hcs c List.mem_cons_self]; rfl
  rw [trimChars, hself cs h, trimRight, hself cs.reverse fun c hc => h c (List.mem_reverse.mp hc), List.reverse_reverse]

/-- What is trimmed is its own trimmed form. -/
theorem trimChars_trimChars (cs : List Char) : trimChars (trimChars cs) = trimChars cs := by
  have hright : ∀ cs : List Char, trimRight cs = cs.rdropWhile isBlank := fun _ => rfl
  have hleft : (trimChars cs).dropWhile isBlank = trimChars cs := by
    refine List.dropWhile_eq_self_iff.mpr fun hpos => ?_
    have hprefix : trimChars cs <+: cs.dropWhile isBlank := List.rdropWhile_prefix _ _
    rw [ List.IsPrefix.getElem hprefix hpos]
    exact List.dropWhile_get_zero_not isBlank cs (hpos.trans_le hprefix.length_le)
  conv_lhs => rw [trimChars, hleft]
  rw [trimChars, hright, hright, List.rdropWhile_idempotent]

/-- Trimming takes away blanks only. -/
theorem mem_trimChars {cs : List Char} {c : Char} (h : c ∈ cs) (hc : isBlank c = false) : c ∈ trimChars cs := by
  have hkept : ∀ cs : List Char, c ∈ cs → c ∈ cs.dropWhile isBlank := by
    intro cs h
    rw [← List.takeWhile_append_dropWhile (p := isBlank) (l := cs)] at h
    rcases List.mem_append.mp h with h | h
    · rw [List.mem_takeWhile_imp h] at hc
      cases hc
    · exact h
  simp only [trimChars, trimRight, List.mem_reverse]
  exact hkept _ (List.mem_reverse.mpr (hkept cs h))

/-- Blanks around a text do not count. -/
theorem trimChars_append {before after : List Char} (hbefore : ∀ c ∈ before, isBlank c = true)
    (hafter : ∀ c ∈ after, isBlank c = true) (cs : List Char) : trimChars (before ++ cs ++ after) = trimChars cs := by
  have hleft : ∀ cs : List Char, (before ++ cs).dropWhile isBlank = cs.dropWhile isBlank := fun cs =>
    List.dropWhile_append_of_pos hbefore
  have hright : ∀ cs : List Char, trimRight (cs ++ after) = trimRight cs := by
    intro cs
    rw [trimRight, List.reverse_append,
      List.dropWhile_append_of_pos fun c hc => hafter c (List.mem_reverse.mp hc), trimRight]
  rw [trimChars, List.append_assoc, hleft, List.dropWhile_append]
  split
  · rename_i hnil
    have hcs := List.isEmpty_iff.mp hnil
    rw [trimChars, hcs, List.dropWhile_eq_nil_iff.mpr hafter]
  · rw [hright, trimChars]

/-! ## Digits and the numbers they write -/

theorem ofDigits_snoc (base : Nat) (ds : List Nat) (d : Nat) : ofDigits base (ds ++ [d]) = base * ofDigits base ds + d := by
  rw [ofDigits, List.foldl_append]
  rfl

/-- Digits in front count for as many places as there are digits behind them. -/
theorem ofDigits_append (base : Nat) (ds es : List Nat) :
    ofDigits base (ds ++ es) = ofDigits base ds * base ^ es.length + ofDigits base es := by
  -- On the last digit, which is the lowest.
  induction es using List.reverseRecOn with
  | nil => simp [ofDigits]
  | append_singleton es e ih =>
    rw [← List.append_assoc, ofDigits_snoc, ofDigits_snoc, ih, List.length_append, List.length_singleton]
    ring

/-- Zeros in front do not count. -/
theorem ofDigits_dropWhile (base : Nat) (ds : List Nat) : ofDigits base (ds.dropWhile (· == 0)) = ofDigits base ds := by
  induction ds with
  | nil => rfl
  | cons d ds ih =>
    by_cases hd : d = 0
    · simpa [hd, ofDigits] using ih
    · simp [hd]

theorem ofDigits_replicate_append (base count : Nat) (ds : List Nat) :
    ofDigits base (List.replicate count 0 ++ ds) = ofDigits base ds := by
  rw [← ofDigits_dropWhile, List.dropWhile_append_of_pos, ofDigits_dropWhile]
  simp

/-- Digits below the base write a number below as many powers of it. -/
theorem ofDigits_lt {base : Nat} {ds : List Nat} (h : ∀ d ∈ ds, d < base) : ofDigits base ds < base ^ ds.length := by
  induction ds using List.reverseRecOn with
  | nil => simp [ofDigits]
  | append_singleton ds d ih =>
    have hd : d < base := h d (by simp)
    have hds := Nat.mul_le_mul_left base (ih fun d' hd' => h d' (by simp [hd']))
    rw [ofDigits_snoc, List.length_append, List.length_singleton, pow_succ']
    rw [Nat.mul_succ] at hds
    omega

/-- The number that the digits among characters write. -/
def digitsValue (cs : List Char) : Nat := ofDigits 10 (cs.filterMap digit?)

theorem length_filterMap_digit? {cs : List Char} (h : ∀ c ∈ cs, isDigit c = true) :
    (cs.filterMap digit?).length = cs.length := by
  induction cs with
  | nil => rfl
  | cons c cs ih =>
    obtain ⟨v, hv⟩ := Option.isSome_iff_exists.mp (h c List.mem_cons_self)
    rw [List.filterMap_cons_some hv, List.length_cons, List.length_cons, ih fun c' hc' => h c' (List.mem_cons_of_mem c hc')]

theorem mapM_digit?_eq_some_iff {cs : List Char} {ds : List Nat} :
    cs.mapM digit? = some ds ↔ (∀ c ∈ cs, isDigit c = true) ∧ cs.filterMap digit? = ds := by
  induction cs generalizing ds with
  | nil => simp
  | cons c cs ih =>
    rw [List.mapM_cons]
    cases hc : digit? c with
    | none => simp [isDigit, hc]
    | some v =>
      have hdigits : (∀ c' ∈ c :: cs, isDigit c' = true) ↔ ∀ c' ∈ cs, isDigit c' = true := by simp [isDigit, hc]
      rw [hdigits, List.filterMap_cons_some hc, Option.bind_eq_bind, Option.bind_some, Option.bind_eq_bind,
        Option.bind_eq_some_iff]
      constructor
      · rintro ⟨ds', hds', h⟩
        obtain ⟨hall, rfl⟩ := ih.mp hds'
        exact ⟨hall, Option.some.inj h⟩
      · rintro ⟨hall, rfl⟩
        exact ⟨_, ih.mpr ⟨hall, rfl⟩, rfl⟩

/-- Characters write a number exactly when all of them are digits. -/
theorem decimal?_eq_some_iff {cs : List Char} {n : Nat} :
    decimal? cs = some n ↔ (∀ c ∈ cs, isDigit c = true) ∧ digitsValue cs = n := by
  rw [decimal?, Option.map_eq_some_iff]
  simp only [mapM_digit?_eq_some_iff]
  constructor
  · rintro ⟨ds, ⟨hdigits, rfl⟩, rfl⟩
    exact ⟨hdigits, rfl⟩
  · rintro ⟨hdigits, rfl⟩
    exact ⟨_, ⟨hdigits, rfl⟩, rfl⟩

theorem digitsValue_append {cs cs' : List Char} (h : ∀ c ∈ cs', isDigit c = true) :
    digitsValue (cs ++ cs') = digitsValue cs * 10 ^ cs'.length + digitsValue cs' := by
  rw [digitsValue, List.filterMap_append, ofDigits_append, length_filterMap_digit? h]
  rfl

theorem digitsValue_replicate (n : Nat) : digitsValue (List.replicate n '0') = 0 := by
  have hdigits : (List.replicate n '0').filterMap digit? = List.replicate n 0 ++ [] := by
    rw [List.append_nil]
    exact List.filterMap_replicate_of_some rfl
  rw [digitsValue, hdigits, ofDigits_replicate_append]
  rfl

theorem isDigit_iff {c : Char} : isDigit c = true ↔ c.isDigit = true := by
  have hle : ∀ d : Char, (d ≤ c ↔ d.toNat ≤ c.toNat) ∧ (c ≤ d ↔ c.toNat ≤ d.toNat) := fun d =>
    ⟨Char.le_def.trans UInt32.le_iff_toNat_le, Char.le_def.trans UInt32.le_iff_toNat_le⟩
  rw [Char.isDigit_iff_toNat, ← (hle '0').1, ← (hle '9').2, isDigit, digit?]
  split <;> simp_all

/-- Digits are no blanks. -/
theorem isBlank_of_isDigit {c : Char} (h : isDigit c = true) : isBlank c = false := by
  rw [isDigit_iff, Char.isDigit_iff_toNat] at h
  simp [isBlank] at h ⊢
  omega

theorem digitsValue_eq_ofDigitChars {cs : List Char} (h : ∀ c ∈ cs, isDigit c = true) :
    digitsValue cs = Nat.ofDigitChars 10 cs 0 := by
  have hmap : cs.filterMap digit? = cs.map fun c => c.toNat - '0'.toNat := by
    rw [← List.filterMap_eq_map]
    refine List.filterMap_congr fun c hc => ?_
    have hdigit := h c hc
    unfold isDigit digit? at hdigit
    unfold digit?
    split at hdigit
    · rename_i hrange
      rw [if_pos hrange]
      rfl
    · cases hdigit
  rw [digitsValue, hmap, ofDigits, List.foldl_map, Nat.ofDigitChars_eq_foldl]

/-- A number is read from the decimal digits that are written for it, of which there is at least one. -/
theorem toList_toString (n : Nat) :
    (toString n).toList ≠ [] ∧ (∀ c ∈ (toString n).toList, isDigit c = true) ∧ digitsValue (toString n).toList = n := by
  rw [Nat.toString_eq_ofList_toDigits, String.toList_ofList]
  have hdigits : ∀ c ∈ Nat.toDigits 10 n, isDigit c = true := by
    intro c hc
    exact isDigit_iff.mpr (Nat.isDigit_of_mem_toDigits (by decide) (by decide) hc)
  refine ⟨Nat.toDigits_ne_nil, hdigits, ?_⟩
  rw [digitsValue_eq_ofDigitChars hdigits, Nat.ofDigitChars_ten_toDigits]

/-- One digit writes its place behind zero. -/
theorem digitsValue_singleton {c : Char} (h : isDigit c = true) :
    digitsValue [c] = c.toNat - 48 ∧ 48 ≤ c.toNat ∧ c.toNat ≤ 57 := by
  have hdigits : ∀ d ∈ [c], isDigit d = true := by
    intro d hd
    rwa [List.mem_singleton.mp hd]
  rw [isDigit_iff, Char.isDigit_iff_toNat] at h
  refine ⟨?_, h⟩
  rw [digitsValue_eq_ofDigitChars hdigits]
  simp [Nat.ofDigitChars]

/-- Digits that do not end in zero write no multiple of ten. -/
theorem not_dvd_digitsValue {cs : List Char} (hdigits : ∀ c ∈ cs, isDigit c = true) (hne : cs ≠ [])
    (hlast : cs.getLast? ≠ some '0') : ¬10 ∣ digitsValue cs := by
  obtain ⟨ds, c, rfl⟩ := List.eq_nil_or_concat' cs |>.resolve_left hne
  have hc : isDigit c = true := hdigits c (by simp)
  obtain ⟨hvalue, hlow, hhigh⟩ := digitsValue_singleton hc
  have hzero : c.toNat ≠ 48 := by
    intro h
    refine hlast ?_
    rw [List.getLast?_concat, ← Char.ofNat_toNat c, h]
  rw [digitsValue_append fun d hd => hdigits d (List.mem_append_right ds hd), hvalue, List.length_singleton, pow_one]
  omega

/-- The digits of a number other than zero do not start with zero. -/
theorem eq_zero_of_head?_toDigits {n : Nat} (h : (Nat.toDigits 10 n).head? = some '0') : n = 0 := by
  induction n using Nat.strong_induction_on with
  | _ n ih =>
    by_cases hn : n < 10
    · rw [Nat.toDigits_of_lt_base hn, List.head?_singleton, Option.some_inj] at h
      have hall : ∀ d : Fin 10, Nat.digitChar d.val = '0' → d.val = 0 := by decide
      exact hall ⟨n, hn⟩ h
    · have hhigh : n / 10 ≠ 0 := by omega
      rw [Nat.toDigits_of_base_le (by decide) (Nat.not_lt.mp hn), List.head?_append_of_ne_nil _ Nat.toDigits_ne_nil] at h
      exact absurd (ih (n / 10) (by omega) h) hhigh

/-- Digits without a zero in front, or a single zero, are those of the number that they write. -/
theorem toDigits_digitsValue {cs : List Char} (hdigits : ∀ c ∈ cs, isDigit c = true) (hne : cs ≠ [])
    (hlead : cs.head? = some '0' → cs = ['0']) : Nat.toDigits 10 (digitsValue cs) = cs := by
  -- On the last digit, which is the lowest.
  induction cs using List.reverseRecOn with
  | nil => exact absurd rfl hne
  | append_singleton ds c ih =>
    have hds : ∀ d ∈ ds, isDigit d = true := fun d hd => hdigits d (List.mem_append_left [c] hd)
    have hc : ∀ d ∈ [c], isDigit d = true := fun d hd => hdigits d (List.mem_append_right ds hd)
    obtain ⟨hvalue, hlow, hhigh⟩ := digitsValue_singleton (hc c List.mem_cons_self)
    have hlast : Nat.toDigits 10 (digitsValue [c]) = [c] := by
      rw [Nat.toDigits_of_lt_base (by omega), hvalue]
      congr 1
      apply Char.toNat_inj.mp
      rw [Nat.toNat_digitChar_of_lt_ten (by omega)]
      omega
    by_cases hnil : ds = []
    · rw [hnil, List.nil_append, hlast]
    · have hhead : (ds ++ [c]).head? = ds.head? := List.head?_append_of_ne_nil ds hnil
      have hzero : ds.head? ≠ some '0' := by
        intro h
        have hsingle := congrArg List.length (hlead (hhead.trans h))
        rw [List.length_append, List.length_singleton, List.length_singleton] at hsingle
        exact hnil (List.eq_nil_of_length_eq_zero (by omega))
      have hfront := ih hds hnil fun h => absurd h hzero
      have hpos : 0 < digitsValue ds := by
        rw [Nat.pos_iff_ne_zero]
        intro h
        rw [h] at hfront
        exact hzero (by rw [← hfront]; rfl)
      rw [digitsValue_append hc, List.length_singleton, pow_one, Nat.mul_comm,
        ← Nat.toDigits_append_toDigits (by decide) hpos (by omega), hfront, hlast]

/-- A number is below the power of ten with as many places as it has digits. -/
theorem digitsValue_lt {cs : List Char} (h : ∀ c ∈ cs, isDigit c = true) : digitsValue cs < 10 ^ cs.length := by
  have hdigits : ∀ d ∈ cs.filterMap digit?, d < 10 := by
    intro d hd
    obtain ⟨c, -, hc⟩ := List.mem_filterMap.mp hd
    unfold digit? at hc
    split at hc
    · rename_i hrange
      have hle : c.toNat ≤ '9'.toNat := UInt32.le_iff_toNat_le.mp (Char.le_def.mp hrange.2)
      have hd : c.toNat - '0'.toNat = d := Option.some.inj hc
      have hnine : '9'.toNat = 57 := rfl
      have hzero : '0'.toNat = 48 := rfl
      omega
    · cases hc
  rw [← length_filterMap_digit? h]
  exact ofDigits_lt hdigits

/-- Digits are told by the number that they write and how many they are. -/
theorem eq_of_digitsValue {cs cs' : List Char} (h : ∀ c ∈ cs, isDigit c = true) (h' : ∀ c ∈ cs', isDigit c = true)
    (hlength : cs.length = cs'.length) (hvalue : digitsValue cs = digitsValue cs') : cs = cs' := by
  -- Behind a one they are the digits of a number, whatever zeros they start with.
  have hone : ∀ {ds : List Char}, (∀ c ∈ ds, isDigit c = true) → Nat.toDigits 10 (digitsValue ('1' :: ds)) = '1' :: ds := by
    intro ds hds
    refine toDigits_digitsValue (fun c hc => ?_) (List.cons_ne_nil _ _) nofun
    rcases List.mem_cons.mp hc with rfl | hc
    · rfl
    · exact hds c hc
  have hsum : ∀ {ds : List Char}, (∀ c ∈ ds, isDigit c = true) →
      digitsValue ('1' :: ds) = digitsValue ['1'] * 10 ^ ds.length + digitsValue ds := fun hds => @digitsValue_append ['1'] _ hds
  have hsame : digitsValue ('1' :: cs) = digitsValue ('1' :: cs') := by rw [hsum h, hsum h', hlength, hvalue]
  have hcons := hone h
  rw [hsame, hone h'] at hcons
  exact (List.cons.inj hcons).2.symm

end OfflineSigner.Text
