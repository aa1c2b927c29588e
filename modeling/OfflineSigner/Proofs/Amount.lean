import OfflineSigner.Amount
import OfflineSigner.Proofs.Checked
import OfflineSigner.Proofs.Text
import Mathlib.Data.Rat.Defs
import Mathlib.Tactic.FieldSimp

/-!
# What an amount is worth

The number that a decimal numeral writes, without reference to how it is read (`Amount.Writes`); it writes one at most
(`Writes.unique`). Main statement: what is read as an amount of base units is the exact product of the number that the text
writes and the power of ten (`of_parse`).
-/

namespace OfflineSigner

/-- A word is read from a number exactly when it is that number. -/
theorem Word.ofNat?_eq_some_iff {n : Nat} {w : Word} : Word.ofNat? n = some w ↔ w.toNat = n := by
  have hsize : 1 <<< 256 = 2 ^ 256 := rfl
  unfold Word.ofNat?
  rw [hsize]
  constructor
  · intro h
    split at h
    · rename_i hlt
      rw [← Option.some.inj h, BitVec.toNat_ofNat, Nat.mod_eq_of_lt hlt]
    · cases h
  · rintro rfl
    rw [if_pos w.isLt, BitVec.ofNat_toNat, BitVec.setWidth_eq]

/-- A number is no word exactly when it is too large for one. -/
theorem Word.ofNat?_eq_none_iff {n : Nat} : Word.ofNat? n = none ↔ 2 ^ 256 ≤ n := by
  have hsize : 1 <<< 256 = 2 ^ 256 := rfl
  rw [Word.ofNat?, hsize]
  split
  · rename_i hlt
    exact iff_of_false nofun (Nat.not_le.mpr hlt)
  · rename_i hle
    exact iff_of_true rfl (Nat.not_lt.mp hle)

namespace Amount

open Text

/-! ## Numerals -/

/-- Whether characters write a number in decimal: they are digits, or digits around one point, on either side of which there may
be none, but not on both. -/
inductive Writes : List Char → ℚ → Prop where
  | whole {ws : List Char} {w : Nat} (hw : decimal? ws = some w) (hne : ws ≠ []) : Writes ws w
  | point {ws fs : List Char} {w f : Nat} (hw : decimal? ws = some w) (hf : decimal? fs = some f)
      (hne : ws ≠ [] ∨ fs ≠ []) : Writes (ws ++ '.' :: fs) (w + f / 10 ^ fs.length)

theorem point_notMem {cs : List Char} {n : Nat} (h : decimal? cs = some n) : '.' ∉ cs := by
  intro hmem
  have hdigit := (decimal?_eq_some_iff.mp h).1 '.' hmem
  cases hdigit

theorem Writes.unique {cs : List Char} {q q' : ℚ} (h : Writes cs q) (h' : Writes cs q') : q = q' := by
  cases h with
  | whole hw hne =>
    cases h' with
    | whole hw' hne' => rw [Option.some.inj (hw.symm.trans hw')]
    | point hw' hf' hne' => exact absurd (by simp) (point_notMem hw)
  | @point ws fs w f hw hf hne =>
    generalize hcs : ws ++ '.' :: fs = cs at h'
    cases h' with
    | whole hw' hne' => exact absurd (by rw [← hcs]; simp) (point_notMem hw')
    | point hw' hf' hne' =>
      obtain ⟨rfl, -, rfl⟩ := (List.append_cons_inj_of_notMem (point_notMem hw') (point_notMem hf')).mp hcs.symm
      rw [Option.some.inj (hw.symm.trans hw'), Option.some.inj (hf.symm.trans hf')]

/-! ## Reading -/

/-- Zeros at the end are all that is dropped. -/
theorem exists_trimEndZeros (cs : List Char) : ∃ k, cs = trimEndZeros cs ++ List.replicate k '0' := by
  have hzeros : cs.reverse.takeWhile (· == '0') = List.replicate (cs.reverse.takeWhile (· == '0')).length '0' := by
    refine List.eq_replicate_of_mem fun c hc => ?_
    exact beq_iff_eq.mp (List.all_eq_true.mp List.all_takeWhile c hc)
  have hsplit := congrArg List.reverse (List.takeWhile_append_dropWhile (p := (· == '0')) (l := cs.reverse))
  rw [List.reverse_append, List.reverse_reverse, hzeros, List.reverse_replicate] at hsplit
  exact ⟨_, hsplit.symm⟩

/-- Characters are split at their first point, if there is one. -/
theorem splitPoint_cases (cs : List Char) :
    ('.' ∉ cs ∧ splitPoint cs = (cs, [])) ∨
      ∃ ws rest, cs = ws ++ '.' :: rest ∧ '.' ∉ ws ∧ splitPoint cs = (ws, rest) := by
  have hsplit := List.takeWhile_append_dropWhile (p := (· ≠ '.')) (l := cs)
  have hpoint : '.' ∉ cs.takeWhile (· ≠ '.') := by
    intro hmem
    have hne := List.all_eq_true.mp List.all_takeWhile '.' hmem
    cases hne
  cases hrest : cs.dropWhile (· ≠ '.') with
  | nil =>
    rw [hrest, List.append_nil] at hsplit
    rw [hsplit] at hpoint
    refine Or.inl ⟨hpoint, ?_⟩
    rw [splitPoint, hrest, hsplit]
    rfl
  | cons c rest =>
    have hc : c = '.' := by
      have hhead := List.head?_dropWhile_not (· ≠ '.') cs
      rw [hrest] at hhead
      simpa using hhead
    rw [hrest, hc] at hsplit
    refine Or.inr ⟨_, rest, hsplit.symm, hpoint, ?_⟩
    rw [splitPoint, hrest]
    rfl

/-- A text is cut at its first point. -/
theorem splitPoint_append {ws : List Char} (h : '.' ∉ ws) (rest : List Char) : splitPoint (ws ++ '.' :: rest) = (ws, rest) := by
  have hws : ∀ c ∈ ws, decide (c ≠ '.') = true := by
    intro c hc
    exact decide_eq_true fun hcpoint => h (hcpoint ▸ hc)
  rw [splitPoint, List.takeWhile_append_of_pos hws, List.dropWhile_append_of_pos hws]
  simp

theorem splitPoint_of_notMem {cs : List Char} (h : '.' ∉ cs) : splitPoint cs = (cs, []) := by
  rcases splitPoint_cases cs with ⟨-, hsplit⟩ | ⟨ws, rest, rfl, -, -⟩
  · exact hsplit
  · exact absurd (by simp) h

/-- The digits that are scaled: those before the point, those behind it without the zeros at the end, and a zero for each place
that is missing. -/
def scaledDigits (cs : List Char) (decimals : Nat) : List Char :=
  (splitPoint cs).1 ++ trimEndZeros (splitPoint cs).2 ++
    List.replicate (decimals - (trimEndZeros (splitPoint cs).2).length) '0'

/-- What it takes to scale an amount, and what comes of it. -/
theorem of_scale {cs : List Char} {decimals : Nat} {w : Word} (h : scale cs decimals = .ok w) :
    '.' ∉ (splitPoint cs).2 ∧ ((splitPoint cs).1 ≠ [] ∨ (splitPoint cs).2 ≠ []) ∧
      (trimEndZeros (splitPoint cs).2).length ≤ decimals ∧ w.toNat = digitsValue (scaledDigits cs decimals) := by
  unfold scale at h
  dsimp only at h
  split at h
  · cases h
  · rename_i hpoint
    split at h
    · cases h
    · rename_i hempty
      split at h
      · cases h
      · rename_i hlength
        split at h
        · rename_i w' hw
          obtain rfl := Except.ok.inj h
          refine ⟨by simpa using hpoint, ?_, Nat.not_lt.mp hlength, Word.ofNat?_eq_some_iff.mp hw⟩
          rw [List.isEmpty_iff, List.isEmpty_iff, not_and_or] at hempty
          exact hempty
        · cases h

/-- Digits and the zeros that are missing behind them write the product of the number with a point and the power of ten. -/
theorem digitsValue_scaled (ws : List Char) {fs : List Char} (hfs : ∀ c ∈ fs, isDigit c = true) (k e : Nat) :
    (digitsValue (ws ++ fs ++ List.replicate e '0') : ℚ) =
      (digitsValue ws + digitsValue (fs ++ List.replicate k '0') / 10 ^ (fs ++ List.replicate k '0').length) *
        10 ^ (fs.length + e) := by
  have hzeros : ∀ n, ∀ c ∈ List.replicate n '0', isDigit c = true := by
    intro n c hc
    rw [List.eq_of_mem_replicate hc]
    rfl
  rw [digitsValue_append (hzeros e), digitsValue_append hfs, digitsValue_append (hzeros k), digitsValue_replicate,
    digitsValue_replicate, List.length_append, List.length_replicate, List.length_replicate]
  push_cast
  rw [pow_add, pow_add]
  field_simp
  ring

/-- Digits with at most one point write a number when there is a digit among them. When there are places enough for it, the
digits that are scaled write the exact product of the number and the power of ten. -/
theorem exists_writes {cs : List Char} {decimals : Nat} (hchars : ∀ c ∈ cs, c ≠ '.' → isDigit c = true)
    (hpoint : '.' ∉ (splitPoint cs).2) (hne : (splitPoint cs).1 ≠ [] ∨ (splitPoint cs).2 ≠ [])
    (hlength : (trimEndZeros (splitPoint cs).2).length ≤ decimals) :
    ∃ q, Writes cs q ∧ (digitsValue (scaledDigits cs decimals) : ℚ) = q * 10 ^ decimals := by
  unfold scaledDigits
  rcases splitPoint_cases cs with ⟨hnone, hsplit⟩ | ⟨ws, rest, rfl, hnone, hsplit⟩
  · rw [hsplit] at hne ⊢
    have hdigits : ∀ c ∈ cs, isDigit c = true := fun c hc => hchars c hc fun hcpoint => hnone (hcpoint ▸ hc)
    have hdecimal : decimal? cs = some (digitsValue cs) := decimal?_eq_some_iff.mpr ⟨hdigits, rfl⟩
    refine ⟨_, .whole hdecimal (hne.resolve_right (not_not_intro rfl)), ?_⟩
    have hscaled := digitsValue_scaled cs (List.forall_mem_nil (isDigit · = true)) 0 decimals
    simpa [trimEndZeros, digitsValue, ofDigits] using hscaled
  · rw [hsplit] at hne hpoint hlength ⊢
    have hws : ∀ c ∈ ws, isDigit c = true := fun c hc =>
      hchars c (List.mem_append_left _ hc) fun hcpoint => hnone (hcpoint ▸ hc)
    have hrest : ∀ c ∈ rest, isDigit c = true := fun c hc =>
      hchars c (List.mem_append_right _ (List.mem_cons_of_mem _ hc)) fun hcpoint => hpoint (hcpoint ▸ hc)
    refine ⟨_, .point (decimal?_eq_some_iff.mpr ⟨hws, rfl⟩) (decimal?_eq_some_iff.mpr ⟨hrest, rfl⟩) hne, ?_⟩
    obtain ⟨k, hk⟩ := exists_trimEndZeros rest
    have hfs : ∀ c ∈ trimEndZeros rest, isDigit c = true := by
      intro c hc
      refine hrest c ?_
      rw [hk]
      exact List.mem_append_left _ hc
    have hscaled := digitsValue_scaled ws hfs k (decimals - (trimEndZeros rest).length)
    rwa [← hk, Nat.add_sub_cancel' hlength] at hscaled

/-- What is scaled writes a number, when it has only digits beside points, and is the exact product of the number and the power
of ten. -/
theorem exists_writes_of_scale {cs : List Char} {decimals : Nat} {w : Word}
    (hchars : ∀ c ∈ cs, c ≠ '.' → isDigit c = true) (h : scale cs decimals = .ok w) :
    ∃ q, Writes cs q ∧ (w.toNat : ℚ) = q * 10 ^ decimals := by
  obtain ⟨hpoint, hne, hlength, hw⟩ := of_scale h
  rw [hw]
  exact exists_writes hchars hpoint hne hlength

/-- An amount is read from a text that writes a number, and is the exact product of the number and the power of ten. -/
theorem of_parse {s : String} {decimals : Nat} {w : Word} (h : parse s decimals = .ok w) :
    ∃ q, Writes (trimChars s.toList) q ∧ (w.toNat : ℚ) = q * 10 ^ decimals := by
  unfold parse at h
  dsimp only at h
  split at h
  · cases h
  · split at h
    · cases h
    · split at h
      · cases h
      · rename_i hfind
        refine exists_writes_of_scale (fun c hc hcpoint => ?_) h
        have hnot := List.find?_eq_none.mp hfind c hc
        simpa [hcpoint] using hnot

end Amount

end OfflineSigner
