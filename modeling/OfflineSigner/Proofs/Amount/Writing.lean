import OfflineSigner.Proofs.Amount.Reading

/-!
# Shortest numerals

What it is for a text to be a shortest numeral (`Canonical`); each number has one at most (`Canonical.unique`). What is written
for a number of base units is the shortest numeral of the number divided by the power of ten (`writes_format`,
`canonical_format`). Main statement: `format_inverse`, that writing and reading are inverse on shortest numerals.
-/

namespace OfflineSigner.Amount

open Text

/-! ## Shortest numerals -/

/-- Digits, and a point with digits behind it, unless there are none. -/
def numeral (ws fs : List Char) : List Char := if fs = [] then ws else ws ++ '.' :: fs

/-- Whether digits before and behind a point are those of a shortest numeral: some stand before the point, and start with zero
only if it stands alone, and none behind it end in zero. -/
structure Shortest (ws fs : List Char) : Prop where
  whole : ∀ c ∈ ws, isDigit c = true
  fraction : ∀ c ∈ fs, isDigit c = true
  ne_nil : ws ≠ []
  lead : ws.head? = some '0' → ws = ['0']
  last : fs.getLast? ≠ some '0'

/-- Whether characters are a shortest numeral. -/
def Canonical (cs : List Char) : Prop := ∃ ws fs, cs = numeral ws fs ∧ Shortest ws fs

namespace Shortest

variable {ws fs ws' fs' : List Char}

/-- The number that a shortest numeral writes. -/
theorem writes (h : Shortest ws fs) : Writes (numeral ws fs) (digitsValue ws + digitsValue fs / 10 ^ fs.length) := by
  have hw : decimal? ws = some (digitsValue ws) := decimal?_eq_some_iff.mpr ⟨h.whole, rfl⟩
  unfold numeral
  split
  · rename_i hnil
    have hzero : (digitsValue fs / 10 ^ fs.length : ℚ) = 0 := by
      rw [hnil]
      simp [digitsValue, ofDigits]
    rw [hzero, add_zero]
    exact .whole hw h.ne_nil
  · exact .point hw (decimal?_eq_some_iff.mpr ⟨h.fraction, rfl⟩) (Or.inl h.ne_nil)

/-- All digits behind the point of a shortest numeral count. -/
theorem places (h : Shortest ws fs) : Places (numeral ws fs) fs.length := by
  have hpoint : '.' ∉ ws := fun hmem => absurd (h.whole '.' hmem) (by decide)
  unfold numeral
  split
  · rename_i hnil
    rw [hnil]
    exact .whole hpoint
  · have hplaces := @Places.point ws fs 0 hpoint h.last
    rwa [List.replicate_zero, List.append_nil] at hplaces

/-- A shortest numeral has no more digits behind its point than another one of the same number. -/
theorem length_le (h : Shortest ws fs)
    (hq : (digitsValue ws + digitsValue fs / 10 ^ fs.length : ℚ) = digitsValue ws' + digitsValue fs' / 10 ^ fs'.length) :
    fs.length ≤ fs'.length := by
  have hscaled : ((digitsValue ws' * 10 ^ fs'.length + digitsValue fs' : ℕ) : ℚ) =
      (digitsValue ws + digitsValue fs / 10 ^ fs.length) * 10 ^ fs'.length := by
    rw [hq]
    push_cast
    field_simp
  exact h.places.le_of_writes h.writes hscaled

/-- A shortest numeral is told by its number. -/
theorem unique (h : Shortest ws fs) (h' : Shortest ws' fs')
    (hq : (digitsValue ws + digitsValue fs / 10 ^ fs.length : ℚ) = digitsValue ws' + digitsValue fs' / 10 ^ fs'.length) :
    ws = ws' ∧ fs = fs' := by
  have hlength : fs.length = fs'.length := Nat.le_antisymm (h.length_le hq) (h'.length_le hq.symm)
  have hlt := digitsValue_lt h.fraction
  have hlt' := digitsValue_lt h'.fraction
  rw [← hlength] at hlt' hq
  generalize fs.length = n at hlt hlt' hq
  have hsum : digitsValue ws * 10 ^ n + digitsValue fs = digitsValue ws' * 10 ^ n + digitsValue fs' := by
    have hq' : (digitsValue ws * 10 ^ n + digitsValue fs : ℚ) = digitsValue ws' * 10 ^ n + digitsValue fs' := by
      field_simp at hq
      rw [hq]
      ring
    exact_mod_cast hq'
  have hws : digitsValue ws = digitsValue ws' := by
    have hdiv := congrArg (· / 10 ^ n) hsum
    have hpos : 0 < 10 ^ n := Nat.pow_pos (by decide)
    rwa [Nat.add_comm, Nat.add_mul_div_right _ _ hpos, Nat.div_eq_of_lt hlt, Nat.zero_add, Nat.add_comm,
      Nat.add_mul_div_right _ _ hpos, Nat.div_eq_of_lt hlt', Nat.zero_add] at hdiv
  rw [hws] at hsum
  refine ⟨?_, eq_of_digitsValue h.fraction h'.fraction hlength (Nat.add_left_cancel hsum)⟩
  rw [← toDigits_digitsValue h.whole h.ne_nil h.lead, hws, toDigits_digitsValue h'.whole h'.ne_nil h'.lead]

end Shortest

/-- Each number has one shortest numeral at most. -/
theorem Canonical.unique {cs cs' : List Char} {q : ℚ} (h : Canonical cs) (h' : Canonical cs') (hq : Writes cs q)
    (hq' : Writes cs' q) : cs = cs' := by
  obtain ⟨ws, fs, rfl, hshortest⟩ := h
  obtain ⟨ws', fs', rfl, hshortest'⟩ := h'
  have hvalue := hshortest.writes.unique hq
  rw [hq'.unique hshortest'.writes] at hvalue
  obtain ⟨rfl, rfl⟩ := hshortest.unique hshortest' hvalue
  rfl

/-- There are no blanks in a text that writes a number. -/
theorem Writes.trimChars_eq {cs : List Char} {q : ℚ} (h : Writes cs q) : trimChars cs = cs := by
  refine trimChars_eq_self fun c hc => ?_
  rcases h.characters.1 c hc with hdigit | rfl
  · exact isBlank_of_isDigit hdigit
  · rfl

/-! ## Writing -/

theorem lt_length_paddedDigits (n decimals : Nat) : decimals < (paddedDigits n decimals).length := by
  simp only [paddedDigits, List.length_append, List.length_replicate]
  omega

theorem isDigit_toDigits (n : Nat) : ∀ c ∈ Nat.toDigits 10 n, isDigit c = true := fun _ hc =>
  isDigit_iff.mpr (Nat.isDigit_of_mem_toDigits (by decide) (by decide) hc)

theorem isDigit_paddedDigits (n decimals : Nat) : ∀ c ∈ paddedDigits n decimals, isDigit c = true := by
  intro c hc
  rcases List.mem_append.mp hc with hc | hc
  · rw [List.eq_of_mem_replicate hc]
    rfl
  · exact isDigit_toDigits n c hc

/-- Zeros in front do not count. -/
theorem digitsValue_paddedDigits (n decimals : Nat) : digitsValue (paddedDigits n decimals) = n := by
  have hdigits := isDigit_toDigits n
  rw [paddedDigits, digitsValue_append hdigits, digitsValue_replicate, Nat.zero_mul, Nat.zero_add,
    digitsValue_eq_ofDigitChars hdigits, Nat.ofDigitChars_ten_toDigits]

/-- The digits of a number that stand before the point. -/
def wholeDigits (n decimals : Nat) : List Char :=
  (paddedDigits n decimals).take ((paddedDigits n decimals).length - decimals)

/-- The digits of a number that stand behind the point, without the zeros at the end. -/
def fractionDigits (n decimals : Nat) : List Char :=
  trimEndZeros ((paddedDigits n decimals).drop ((paddedDigits n decimals).length - decimals))

theorem toList_format (value : Word) (decimals : Nat) :
    (format value decimals).toList = numeral (wholeDigits value.toNat decimals) (fractionDigits value.toNat decimals) := by
  unfold format numeral
  rw [String.toList_ofList]
  simp only [List.isEmpty_iff]
  rfl

/-- There is a zero in front of the digits before the point only when it stands alone. -/
theorem wholeDigits_lead {n decimals : Nat} (h : (wholeDigits n decimals).head? = some '0') :
    wholeDigits n decimals = ['0'] := by
  unfold wholeDigits paddedDigits at h ⊢
  dsimp only at h ⊢
  by_cases hshort : (Nat.toDigits 10 n).length ≤ decimals
  · -- Zeros fill up the places, and one more stands before the point.
    obtain ⟨k, hk⟩ := Nat.exists_eq_add_of_le hshort
    have hcount : decimals + 1 - (Nat.toDigits 10 n).length = k + 1 := by omega
    rw [hcount, List.replicate_succ, List.cons_append, List.length_cons, List.length_append, List.length_replicate,
      show k + (Nat.toDigits 10 n).length + 1 - decimals = 1 by omega]
    rfl
  · have hcount : decimals + 1 - (Nat.toDigits 10 n).length = 0 := by omega
    rw [hcount, List.replicate_zero, List.nil_append] at h ⊢
    rw [List.head?_take, if_neg (by omega)] at h
    obtain rfl := eq_zero_of_head?_toDigits h
    rw [Nat.toDigits_zero] at hshort ⊢
    rw [List.length_singleton] at hshort ⊢
    rw [show 1 - decimals = 1 by omega]
    rfl

/-- What is written is a shortest numeral. -/
theorem shortest_digits (n decimals : Nat) : Shortest (wholeDigits n decimals) (fractionDigits n decimals) where
  whole := fun c hc => isDigit_paddedDigits n decimals c (List.mem_of_mem_take hc)
  fraction := by
    intro c hc
    obtain ⟨k, hk⟩ := exists_trimEndZeros ((paddedDigits n decimals).drop ((paddedDigits n decimals).length - decimals))
    have hdrop := List.mem_append_left (List.replicate k '0') hc
    rw [fractionDigits, ← hk] at hdrop
    exact isDigit_paddedDigits n decimals c (List.mem_of_mem_drop hdrop)
  ne_nil := by
    have hlt := lt_length_paddedDigits n decimals
    intro hnil
    have hlength := congrArg List.length hnil
    rw [wholeDigits, List.length_take, List.length_nil] at hlength
    omega
  lead := wholeDigits_lead
  last := getLast?_trimEndZeros _

/-- What is written is the number of base units divided by the power of ten. -/
theorem digitsValue_digits (n decimals : Nat) :
    (digitsValue (wholeDigits n decimals) +
        digitsValue (fractionDigits n decimals) / 10 ^ (fractionDigits n decimals).length : ℚ) = n / 10 ^ decimals := by
  have hdigits := (shortest_digits n decimals).fraction
  have hcut := List.take_append_drop ((paddedDigits n decimals).length - decimals) (paddedDigits n decimals)
  have hlength : ((paddedDigits n decimals).drop ((paddedDigits n decimals).length - decimals)).length = decimals := by
    have hlt := lt_length_paddedDigits n decimals
    rw [List.length_drop]
    omega
  obtain ⟨k, hk⟩ := exists_trimEndZeros ((paddedDigits n decimals).drop ((paddedDigits n decimals).length - decimals))
  rw [hk] at hcut hlength
  change wholeDigits n decimals ++ (fractionDigits n decimals ++ List.replicate k '0') = paddedDigits n decimals at hcut
  change (fractionDigits n decimals ++ List.replicate k '0').length = decimals at hlength
  have hscaled := digitsValue_scaled (wholeDigits n decimals) hdigits 0 k
  rw [List.append_assoc, hcut, digitsValue_paddedDigits, List.replicate_zero, List.append_nil] at hscaled
  rw [List.length_append, List.length_replicate] at hlength
  rw [hscaled, hlength, mul_div_cancel_right₀]
  exact pow_ne_zero decimals (by norm_num)

/-- What is written for a number of base units is the number divided by the power of ten. -/
theorem writes_format (value : Word) (decimals : Nat) :
    Writes (format value decimals).toList (value.toNat / 10 ^ decimals) := by
  rw [toList_format, ← digitsValue_digits]
  exact (shortest_digits value.toNat decimals).writes

theorem canonical_format (value : Word) (decimals : Nat) : Canonical (format value decimals).toList :=
  ⟨_, _, toList_format value decimals, shortest_digits value.toNat decimals⟩

/-- The number of base units that is read from a text, and the number that the text writes. -/
theorem writes_of_parse {s : String} {decimals : Nat} {value : Word} (h : parse s decimals = .ok value) :
    Writes (trimChars s.toList) (value.toNat / 10 ^ decimals) := by
  obtain ⟨-, q, hq, hvalue⟩ := parse_eq_ok_iff.mp h
  rw [hvalue, mul_div_cancel_right₀]
  · exact hq
  · exact pow_ne_zero decimals (by norm_num)

/-- A text of the number is read as the base units. -/
theorem parse_of_writes {s : String} {decimals : Nat} {value : Word} (hdecimals : decimals ≤ 77)
    (h : Writes (trimChars s.toList) (value.toNat / 10 ^ decimals)) : parse s decimals = .ok value := by
  refine parse_eq_ok_iff.mpr ⟨hdecimals, _, h, ?_⟩
  rw [div_mul_cancel₀]
  exact pow_ne_zero decimals (by norm_num)

/-- Different numbers of base units are written differently. -/
theorem format_injective (decimals : Nat) : Function.Injective fun value => format value decimals := by
  intro value value' h
  have hwrites := writes_format value decimals
  rw [show format value decimals = format value' decimals from h] at hwrites
  have hq := (writes_format value' decimals).unique hwrites
  field_simp at hq
  exact BitVec.eq_of_toNat_eq (by exact_mod_cast hq.symm)

/-- Writing and reading amounts are inverse on shortest numerals. Every number of base units is written as a shortest numeral,
which is read back; what is read from a text is written as the same number, and as the same text when that is a shortest numeral.
So two texts are read alike exactly when they write one number, and different numbers of base units have different texts. -/
theorem format_inverse {decimals : Nat} (hdecimals : decimals ≤ 77) :
    (∀ value, parse (format value decimals) decimals = .ok value ∧ Canonical (format value decimals).toList) ∧
    (∀ s value, parse s decimals = .ok value →
      (∃ q, Writes (format value decimals).toList q ∧ Writes (trimChars s.toList) q) ∧
      (Canonical s.toList → format value decimals = s) ∧
      ∀ s', parse s' decimals = .ok value ↔ ∃ q, Writes (trimChars s.toList) q ∧ Writes (trimChars s'.toList) q) ∧
    Function.Injective fun value => format value decimals := by
  refine ⟨fun value => ⟨?_, canonical_format value decimals⟩, fun s value h => ?_, format_injective decimals⟩
  · refine parse_of_writes hdecimals ?_
    rw [(writes_format value decimals).trimChars_eq]
    exact writes_format value decimals
  · have hwrites := writes_of_parse h
    refine ⟨⟨_, writes_format value decimals, hwrites⟩, fun hcanonical => ?_, fun s' => ⟨fun h' => ?_, ?_⟩⟩
    · obtain ⟨ws, fs, hcs, hshortest⟩ := hcanonical
      have htrim := hshortest.writes.trimChars_eq
      rw [← hcs] at htrim
      rw [htrim] at hwrites
      exact String.toList_injective
        ((canonical_format value decimals).unique ⟨ws, fs, hcs, hshortest⟩ (writes_format value decimals) hwrites)
    · exact ⟨_, hwrites, writes_of_parse h'⟩
    · rintro ⟨q, hq, hq'⟩
      rw [hq.unique hwrites] at hq'
      exact parse_of_writes hdecimals hq'

/-- The largest number of base units is read back under the largest unit; a text with zeros that do not count is written without
them, and a shortest numeral as it is. -/
theorem format_inverse_corners :
    parse (format (BitVec.allOnes 256) 77) 77 = .ok (BitVec.allOnes 256) ∧ parse " 00.50" 1 = .ok 5 ∧ format 5 1 = "0.5" ∧
      ∃ q, Writes (trimChars " 00.50".toList) q ∧ Writes (trimChars "0.5".toList) q := by
  have hparse : parse " 00.50" 1 = .ok 5 := by rfl
  have hshortest : parse "0.5" 1 = .ok 5 := by rfl
  have hcanonical : Canonical "0.5".toList :=
    ⟨['0'], ['5'], by decide, List.all_eq_true.mp rfl, List.all_eq_true.mp rfl, by decide, by decide, by decide⟩
  obtain ⟨-, hread, -⟩ := format_inverse (show 1 ≤ 77 by decide)
  obtain ⟨-, -, hsame⟩ := hread _ _ hparse
  exact ⟨((format_inverse (Nat.le_refl 77)).1 _).1, hparse, (hread _ _ hshortest).2.1 hcanonical, (hsame "0.5").mp hshortest⟩

end OfflineSigner.Amount
