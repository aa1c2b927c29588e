import OfflineSigner.Proofs.Json.Reads

/-!
# Texts as literals

String literals and texts, both ways. Main statements: a text is written as a literal that says it (`exists_literal`), and a text is
read as a string exactly when it is one literal, with spaces around it, that says the string (`read_string_eq_ok_iff`). So the
reader accepts no characters but those of literals.
-/

namespace OfflineSigner.Json

/-! ## Writing -/

theorem codeDigits_of_lt {c : Char} (hc : c.toNat < 0x20) :
    ∃ a b d e, codeDigits c = [a, b, d, e] ∧ Text.Numeral 16 [a, b, d, e] c.toNat := by
  have hall : ∀ n : Fin 32, (codeDigits (Char.ofNat n)).length = 4 ∧ (codeDigits (Char.ofNat n)).map Char.toLower =
      List.replicate (4 - (Nat.toDigits 16 n).length) '0' ++ Nat.toDigits 16 n := by decide
  obtain ⟨hlength, hlower⟩ := hall ⟨c.toNat, hc⟩
  rw [Char.ofNat_toNat] at hlength hlower
  obtain ⟨a, b, d, e, hdigits⟩ := List.length_eq_four.mp hlength
  exact ⟨a, b, d, e, hdigits, _, hdigits ▸ hlower⟩

theorem Literal.decode?_code {a b d e : Char} {unit : Nat} {h : Text.Numeral 16 [a, b, d, e] unit}
    (hlow : ¬isLowSurrogate unit = true) (hhigh : ¬isHighSurrogate unit = true) (literal : Literal) :
    decode? (.code a b d e unit h :: literal) = literal.decode?.map (Char.ofNat unit :: ·) := by
  rw [decode?.eq_def]
  dsimp only
  rw [if_neg hlow, if_neg hhigh]

/-- A character is written by a letter, by its code, or as it is. -/
theorem escapeChar_cases (c : Char) :
    (∃ letter, (letter, c) ∈ shortEscapes ∧ escapeChar c = ['\\', letter]) ∨
    (c.toNat < 0x20 ∧ escapeChar c = '\\' :: 'u' :: codeDigits c) ∨
    (c ≠ '"' ∧ c ≠ '\\' ∧ 0x20 ≤ c.toNat) ∧ escapeChar c = [c] := by
  by_cases hshort : ∃ letter, (letter, c) ∈ shortEscapes ∧ letter ≠ '/'
  · have hall : ∀ pair ∈ shortEscapes, pair.1 ≠ '/' → escapeChar pair.2 = ['\\', pair.1] := by decide
    obtain ⟨letter, hmem, hletter⟩ := hshort
    exact .inl ⟨letter, hmem, hall _ hmem hletter⟩
  · -- A slash may be escaped, and is written as it is.
    have hne : ∀ pair ∈ shortEscapes, pair.1 ≠ '/' → c ≠ pair.2 :=
      fun pair hmem hletter hc => hshort ⟨pair.1, hc ▸ hmem, hletter⟩
    obtain ⟨hquote, hslash, hb, hf, hn, hr, ht⟩ : c ≠ '"' ∧ c ≠ '\\' ∧ c ≠ '\x08' ∧ c ≠ '\x0c' ∧ c ≠ '\n' ∧ c ≠ '\r' ∧
        c ≠ '\t' := by
      simpa [shortEscapes] using hne
    have hescape : escapeChar c = if c.toNat < 0x20 then '\\' :: 'u' :: codeDigits c else [c] := by
      simp only [escapeChar, beq_iff_eq, hquote, hslash, hb, hf, hn, hr, ht, if_false]
    by_cases hcontrol : c.toNat < 0x20
    · exact .inr (.inl ⟨hcontrol, by rw [hescape, if_pos hcontrol]⟩)
    · exact .inr (.inr ⟨⟨hquote, hslash, Nat.not_lt.mp hcontrol⟩, by rw [hescape, if_neg hcontrol]⟩)

/-- A character is written as a part that says it. -/
theorem exists_part (c : Char) : ∃ part : Part, part.chars = escapeChar c ∧
    ∀ literal : Literal, Literal.decode? (part :: literal) = literal.decode?.map (c :: ·) := by
  rcases escapeChar_cases c with ⟨letter, hmem, hescape⟩ | ⟨hcontrol, hescape⟩ | ⟨hplain, hescape⟩
  · exact ⟨.short letter c hmem, hescape.symm, fun _ => rfl⟩
  · obtain ⟨a, b, d, e, hdigits, hnumeral⟩ := codeDigits_of_lt hcontrol
    have hlow : ¬isLowSurrogate c.toNat = true := by
      simp only [isLowSurrogate, Bool.and_eq_true, decide_eq_true_eq]
      omega
    have hhigh : ¬isHighSurrogate c.toNat = true := by
      simp only [isHighSurrogate, Bool.and_eq_true, decide_eq_true_eq]
      omega
    refine ⟨.code a b d e c.toNat hnumeral, ?_, fun literal => ?_⟩
    · rw [hescape, hdigits]
      rfl
    · rw [Literal.decode?_code hlow hhigh, Char.ofNat_toNat]
  · exact ⟨.plain c hplain, hescape.symm, fun _ => rfl⟩

/-- A text is written as a literal that says it. -/
theorem exists_literal (s : String) : ∃ literal : Literal, literal.chars = writeString s ∧ literal.text? = some s := by
  have hchars : ∀ cs : List Char, ∃ literal : Literal, literal.flatMap Part.chars = cs.flatMap escapeChar ∧
      literal.decode? = some cs := by
    intro cs
    induction cs with
    | nil => exact ⟨[], rfl, rfl⟩
    | cons c cs ih =>
      obtain ⟨literal, hliteral, hdecode⟩ := ih
      obtain ⟨part, hpart, hcons⟩ := exists_part c
      refine ⟨part :: literal, ?_, ?_⟩
      · rw [List.flatMap_cons, List.flatMap_cons, hpart, hliteral]
      · rw [hcons, hdecode]
        rfl
  obtain ⟨literal, hliteral, hdecode⟩ := hchars s.toList
  refine ⟨literal, ?_, ?_⟩
  · rw [Literal.chars, Literal.inner, hliteral]
    rfl
  · rw [Literal.text?, hdecode, Option.map_some, String.ofList_toList]

/-! ## Reading -/

theorem pushChar_eq_ok_iff {c : Char} {r : Except Error (List Char × List Char)} {chars rest : List Char} :
    pushChar c r = .ok (chars, rest) ↔ ∃ cs, r = .ok (cs, rest) ∧ chars = c :: cs := by
  cases r with
  | error e => simp [pushChar]
  | ok x =>
    obtain ⟨cs, rest'⟩ := x
    simp [pushChar]
    grind

theorem mem_shortEscapes {letter c : Char} (h : shortEscape? letter = some c) : (letter, c) ∈ shortEscapes := by
  unfold shortEscape? at h
  split_ifs at h with hself <;> obtain rfl := Option.some.inj h
  · simp only [Bool.or_eq_true, beq_iff_eq] at hself
    rcases hself with (rfl | rfl) | rfl <;> decide
  all_goals simp_all [shortEscapes]

/-- Four characters that are read as a code unit are digits of it. -/
theorem numeral_of_codeUnit? {a b c d : Char} {unit : Nat} (h : codeUnit? a b c d = some unit) :
    Text.Numeral 16 [a, b, c, d] unit := (Text.hexadecimal?_eq_some_iff_numeral (List.cons_ne_nil _ _)).mp h

/-- What is read of a string is a literal that says what was read. -/
theorem exists_literal_of_stringChars {cs chars rest : List Char} (h : stringChars cs = .ok (chars, rest)) :
    ∃ literal : Literal, cs = literal.inner ++ rest ∧ literal.decode? = some chars := by
  fun_induction stringChars cs generalizing chars rest with
  | case2 rest' =>
    obtain ⟨rfl, rfl⟩ := Prod.mk.inj (Except.ok.inj h)
    exact ⟨[], rfl, rfl⟩
  | case6 a b c d unit hunit hlow hhigh a' b' c' d' rest' low hunit' hlow' ih =>
    obtain ⟨cs, hcs, rfl⟩ := pushChar_eq_ok_iff.mp h
    obtain ⟨literal, rfl, hdecode⟩ := ih hcs
    refine ⟨.code a b c d unit (numeral_of_codeUnit? hunit) :: .code a' b' c' d' low (numeral_of_codeUnit? hunit') :: literal,
      rfl, ?_⟩
    rw [Literal.decode?, if_neg hlow, if_pos hhigh, if_pos hlow', hdecode]
    rfl
  | case12 a b c d rest' unit hunit hlow hhigh ih =>
    obtain ⟨cs, hcs, rfl⟩ := pushChar_eq_ok_iff.mp h
    obtain ⟨literal, rfl, hdecode⟩ := ih hcs
    refine ⟨.code a b c d unit (numeral_of_codeUnit? hunit) :: literal, rfl, ?_⟩
    rw [Literal.decode?_code hlow hhigh, hdecode]
    rfl
  | case14 letter rest' _ hletter c hescape ih =>
    obtain ⟨cs, hcs, rfl⟩ := pushChar_eq_ok_iff.mp h
    obtain ⟨literal, rfl, hdecode⟩ := ih hcs
    refine ⟨.short letter c (mem_shortEscapes hescape) :: literal, rfl, ?_⟩
    rw [Literal.decode?, hdecode]
    rfl
  | case18 c rest' hquote _ _ hslash hend hcontrol ih =>
    obtain ⟨cs, hcs, rfl⟩ := pushChar_eq_ok_iff.mp h
    obtain ⟨literal, rfl, hdecode⟩ := ih hcs
    have hplain : c ≠ '\\' := by
      rintro rfl
      cases htail : literal.inner ++ rest with
      | nil => exact hend rfl htail
      | cons c tail => exact hslash c tail rfl htail
    refine ⟨.plain c ⟨hquote, hplain, Nat.not_lt.mp hcontrol⟩ :: literal, rfl, ?_⟩
    rw [Literal.decode?, hdecode]
    rfl
  | _ => cases h

/-! ## Whole texts -/

/-- Whether a document is one string literal, with spaces around it, that says a text. -/
def IsString (document text : String) : Prop :=
  ∃ before literal after, document = (⟨before, .string literal, after⟩ : Placed Layout).text ∧ literal.text? = some text

/-- What is read of a whole text leaves no more than spaces. -/
theorem read_eq_ok_iff_gap {α : Type} {R : Reader α} {document : String} {a : α} :
    read R document = .ok a ↔ ∃ after : Gap, R document.toList = .ok (a, after.chars) := by
  unfold read
  cases hR : R document.toList with
  | error e => exact iff_of_false nofun nofun
  | ok x =>
    obtain ⟨a', rest⟩ := x
    change (if (rest.dropWhile isSpace).isEmpty then Except.ok a' else _) = _ ↔ _
    split
    · rename_i hspaces
      rw [List.isEmpty_iff, List.dropWhile_eq_nil_iff] at hspaces
      simp only [Except.ok.injEq, Prod.mk.injEq]
      exact ⟨fun ha => ⟨⟨rest, hspaces⟩, ha, rfl⟩, fun ⟨_, ha, _⟩ => ha⟩
    · rename_i hspaces
      refine iff_of_false nofun ?_
      rintro ⟨after, h⟩
      obtain ⟨-, rfl⟩ := Prod.mk.inj (Except.ok.inj h)
      exact hspaces (List.isEmpty_iff.mpr (List.dropWhile_eq_nil_iff.mpr after.spaces))

theorem exists_literal_of_string {cs rest : List Char} {s : String} (h : string cs = .ok (s, rest)) :
    ∃ (before : Gap) (literal : Literal), cs = before.chars ++ (literal.chars ++ rest) ∧ literal.text? = some s := by
  have hpeek : ∀ F : Option Char → Reader String,
      (peek? >>= F) cs = F (cs.dropWhile isSpace).head? (cs.dropWhile isSpace) := fun _ => rfl
  have hsplit := List.takeWhile_append_dropWhile (p := isSpace) (l := cs)
  rw [string, hpeek] at h
  cases htail : cs.dropWhile isSpace with
  | nil =>
    rw [htail] at h
    cases h
  | cons c tail =>
    rw [htail] at h hsplit
    dsimp only [List.head?_cons] at h
    split at h
    · subst c
      rw [stringBody, eat_bind] at h
      obtain ⟨chars, rest', hchars, hs⟩ := Reader.bind_eq_ok_iff.mp h
      obtain ⟨rfl, rfl⟩ := Prod.mk.inj (Reader.pure_eq_ok_iff.mp hs)
      obtain ⟨literal, htail', hdecode⟩ := exists_literal_of_stringChars hchars
      refine ⟨⟨cs.takeWhile isSpace, fun c => List.mem_takeWhile_imp⟩, literal, ?_, ?_⟩
      · rw [htail'] at hsplit
        exact hsplit.symm
      · rw [Literal.text?, hdecode, Option.map_some]
    · exact absurd h (fails_refuse _ _ _)

theorem read_string_eq_ok_iff {document text : String} : read string document = .ok text ↔ IsString document text := by
  constructor
  · intro h
    obtain ⟨after, hread⟩ := read_eq_ok_iff_gap.mp h
    obtain ⟨before, literal, hchars, htext⟩ := exists_literal_of_string hread
    refine ⟨before, literal, after, ?_, htext⟩
    rw [Placed.text, Layout.chars, List.append_assoc, ← hchars, String.ofList_toList]
  · rintro ⟨before, literal, after, rfl, htext⟩
    exact (read_eq_ok_iff reads_string _ text).mpr (congrArg Tree.string htext)

end OfflineSigner.Json
