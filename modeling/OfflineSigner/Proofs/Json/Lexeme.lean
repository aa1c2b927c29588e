import OfflineSigner.Proofs.Json.Layout

/-!
# Reading literals

The readers of strings and numbers, on literals as they are written. Main statements: a string literal is read as the
characters that it says (`stringChars_inner_eq_ok_iff`); a number is read to its end, as an integer of 64 bits exactly when it
is written as the digits of one (`numberBody_eq_ok`, `numberBody_integer`); and where no value is asked for, both are
skipped (`skipStringChars_inner`, `skipNumber_eq`).
-/

namespace OfflineSigner.Json

/-! ## Strings -/

/-- The number of four digits. -/
theorem codeUnit?_eq {a b c d : Char} {unit : Nat} (h : Text.Numeral 16 [a, b, c, d] unit) : codeUnit? a b c d = some unit :=
  (Text.hexadecimal?_eq_some_iff_numeral (List.cons_ne_nil _ _)).mpr h

theorem shortEscape?_eq {letter c : Char} (h : (letter, c) ∈ shortEscapes) : shortEscape? letter = some c ∧ letter ≠ 'u' := by
  simp only [shortEscapes, List.mem_cons, Prod.mk.injEq, List.not_mem_nil, or_false] at h
  rcases h with ⟨rfl, rfl⟩ | ⟨rfl, rfl⟩ | ⟨rfl, rfl⟩ | ⟨rfl, rfl⟩ | ⟨rfl, rfl⟩ | ⟨rfl, rfl⟩ | ⟨rfl, rfl⟩ | ⟨rfl, rfl⟩ <;>
    exact ⟨rfl, by decide⟩

theorem toOption_pushChar (c : Char) (r : Except Error (List Char × List Char)) :
    (pushChar c r).toOption = r.toOption.map fun x => (c :: x.1, x.2) := by
  cases r <;> rfl

theorem Literal.inner_cons_append (part : Part) (literal : Literal) (rest : List Char) :
    Literal.inner (part :: literal) ++ rest = part.chars ++ (literal.inner ++ rest) := by
  simp [Literal.inner]

section Parts

variable {rest : List Char} {a b c d : Char} {unit : Nat}

theorem stringChars_plain (h : c ≠ '"' ∧ c ≠ '\\' ∧ 0x20 ≤ c.toNat) :
    stringChars (c :: rest) = pushChar c (stringChars rest) := by
  simp [stringChars, h.2.1, Nat.not_lt.mpr h.2.2, h.1]

theorem stringChars_short {letter : Char} (h : (letter, c) ∈ shortEscapes) :
    stringChars ('\\' :: letter :: rest) = pushChar c (stringChars rest) := by
  obtain ⟨hescape, hletter⟩ := shortEscape?_eq h
  simp [stringChars, hletter, hescape]

/-- The contents of a string behind the first half of a pair. -/
def secondHalf (high : Nat) : List Char → Except Error (List Char × List Char)
  | '\\' :: 'u' :: a :: b :: c :: d :: rest =>
    match codeUnit? a b c d with
    | none => .error .invalidEscape
    | some low => if isLowSurrogate low then pushChar (ofPair high low) (stringChars rest) else .error .loneSurrogate
  | '\\' :: 'u' :: rest => .error (badCode rest)
  | ['\\'] => .error .eofString
  | [] => .error .eofString
  | _ => .error .unpairedSurrogate

theorem stringChars_code (h : Text.Numeral 16 [a, b, c, d] unit) : stringChars ('\\' :: 'u' :: a :: b :: c :: d :: rest) =
    if isLowSurrogate unit then .error .loneSurrogate
    else if isHighSurrogate unit then secondHalf unit rest
    else pushChar (Char.ofNat unit) (stringChars rest) := by
  rw [stringChars, codeUnit?_eq h]
  rfl

theorem secondHalf_code {low : Nat} (h : Text.Numeral 16 [a, b, c, d] low) :
    secondHalf unit ('\\' :: 'u' :: a :: b :: c :: d :: rest) =
      if isLowSurrogate low then pushChar (ofPair unit low) (stringChars rest) else .error .loneSurrogate := by
  rw [secondHalf, codeUnit?_eq h]

/-- The first half of a pair is refused before any other part. -/
theorem secondHalf_unpaired (literal : Literal)
    (hother : ∀ a' b' c' d' low h' literal', literal = .code a' b' c' d' low h' :: literal' → False) :
    secondHalf unit (literal.inner ++ rest) = .error .unpairedSurrogate := by
  match literal with
  | [] => rfl
  | .plain c' h' :: literal => simp [secondHalf, Literal.inner_cons_append, Part.chars, h'.2.1]
  | .short letter c' h' :: literal => simp [secondHalf, Literal.inner_cons_append, Part.chars, (shortEscape?_eq h').2]
  | .code a' b' c' d' low h' :: literal => exact (hother _ _ _ _ _ _ _ rfl).elim

end Parts

/-- A string literal is read as what it says. -/
theorem toOption_stringChars_inner (literal : Literal) (rest : List Char) :
    (stringChars (literal.inner ++ rest)).toOption = literal.decode?.map (·, rest) := by
  fun_induction Literal.decode? literal with
  | case1 => rfl
  | case2 c h literal ih =>
    simp only [Literal.inner_cons_append, Part.chars, List.cons_append, List.nil_append]
    rw [stringChars_plain h, toOption_pushChar, ih]
    simp [Function.comp_def]
  | case3 letter c h literal ih =>
    simp only [Literal.inner_cons_append, Part.chars, List.cons_append, List.nil_append]
    rw [stringChars_short h, toOption_pushChar, ih]
    simp [Function.comp_def]
  | case4 a b c d unit h literal hlow =>
    simp only [Literal.inner_cons_append, Part.chars, List.cons_append, List.nil_append]
    rw [stringChars_code h, if_pos hlow]
    rfl
  | case5 a b c d unit h hlow hhigh a' b' c' d' low h' literal hlow' ih =>
    simp only [Literal.inner_cons_append, Part.chars, List.cons_append, List.nil_append]
    rw [stringChars_code h, if_neg hlow, if_pos hhigh, secondHalf_code h', if_pos hlow', toOption_pushChar, ih]
    simp [Function.comp_def]
  | case6 a b c d unit h hlow hhigh a' b' c' d' low h' literal hlow' =>
    simp only [Literal.inner_cons_append, Part.chars, List.cons_append, List.nil_append]
    rw [stringChars_code h, if_neg hlow, if_pos hhigh, secondHalf_code h', if_neg hlow']
    rfl
  | case7 a b c d unit h literal hlow hhigh hother =>
    simp only [Literal.inner_cons_append, Part.chars, List.cons_append, List.nil_append]
    rw [stringChars_code h, if_neg hlow, if_pos hhigh, secondHalf_unpaired literal hother]
    rfl
  | case8 a b c d unit h literal hlow hhigh ih =>
    simp only [Literal.inner_cons_append, Part.chars, List.cons_append, List.nil_append]
    rw [stringChars_code h, if_neg hlow, if_neg hhigh, toOption_pushChar, ih]
    simp [Function.comp_def]

theorem stringChars_inner_eq_ok_iff (literal : Literal) (rest : List Char) (x : List Char × List Char) :
    stringChars (literal.inner ++ rest) = .ok x ↔ ∃ cs, literal.decode? = some cs ∧ x = (cs, rest) := by
  have hiff : stringChars (literal.inner ++ rest) = .ok x ↔ (stringChars (literal.inner ++ rest)).toOption = some x := by
    cases stringChars (literal.inner ++ rest) <;> simp [Except.toOption]
  rw [hiff, toOption_stringChars_inner, Option.map_eq_some_iff]
  simp only [eq_comm]

theorem skipStringChars_inner (literal : Literal) (rest : List Char) : skipStringChars (literal.inner ++ rest) = .ok rest := by
  induction literal with
  | nil => rfl
  | cons part literal ih =>
    rw [Literal.inner_cons_append]
    cases part with
    | plain c h => simp [Part.chars, skipStringChars, h.2.1, Nat.not_lt.mpr h.2.2, h.1, ih]
    | short letter c h =>
      obtain ⟨hescape, hletter⟩ := shortEscape?_eq h
      simp [Part.chars, skipStringChars, hletter, hescape, ih]
    | code a b c d unit h => simp [Part.chars, skipStringChars, codeUnit?_eq h, ih]

/-! ## Numbers -/

/-- Whether a number cannot go on: nothing, a space, or a mark of punctuation stands next. -/
def Stops (rest : List Char) : Prop := ∀ c ∈ rest.head?, isSpace c = true ∨ c = ',' ∨ c = ']' ∨ c = '\x7d'

theorem isSpace_iff {c : Char} : isSpace c = true ↔ c = ' ' ∨ c = '\n' ∨ c = '\t' ∨ c = '\r' := by
  simp [isSpace, or_assoc]

/-- What stands after a number is no part of one. -/
theorem Stops.not_part {rest : List Char} (h : Stops rest) :
    ∀ c ∈ rest.head?, Text.isDigit c = false ∧ c ≠ '.' ∧ c ≠ 'e' ∧ c ≠ 'E' := by
  intro c hc
  rcases h c hc with hspace | rfl | rfl | rfl
  · rcases isSpace_iff.mp hspace with rfl | rfl | rfl | rfl <;> decide
  all_goals decide

section Digits

variable {cs rest : List Char} (hcs : ∀ c ∈ cs, Text.isDigit c = true) (hrest : ∀ c ∈ rest.head?, Text.isDigit c = false)
include hcs hrest

theorem takeWhile_isDigit_append : (cs ++ rest).takeWhile Text.isDigit = cs := by
  rw [List.takeWhile_append_of_pos hcs]
  cases rest with
  | nil => simp
  | cons c rest => simp [hrest c rfl]

theorem dropWhile_isDigit_append : (cs ++ rest).dropWhile Text.isDigit = rest := by
  rw [List.dropWhile_append_of_pos hcs]
  cases rest with
  | nil => rfl
  | cons c rest => simp [hrest c rfl]

end Digits

theorem le_foldl_digits (ds : List Nat) (n : Nat) : n ≤ ds.foldl (fun n d => 10 * n + d) n := by
  induction ds generalizing n with
  | nil => exact le_rfl
  | cons d ds ih => exact le_trans (show n ≤ 10 * n + d by omega) (ih _)

/-- Digits are taken up to the last when they write a number of 64 bits. -/
theorem absorb_eq_iff {ds : List Nat} {n m : Nat} (hn : n < UInt64.size) :
    absorb n ds = (m, 0) ↔ ds.foldl (fun n d => 10 * n + d) n = m ∧ m < UInt64.size := by
  induction ds generalizing n with
  | nil =>
    simp only [absorb, Prod.mk.injEq, List.foldl_nil]
    grind
  | cons d ds ih =>
    rw [absorb, List.foldl_cons]
    split
    · exact ih ‹_›
    · have := le_foldl_digits ds (10 * n + d)
      refine iff_of_false (by simp) ?_
      rintro ⟨rfl, hlt⟩
      omega

namespace NumberText

variable {n : NumberText} {rest : List Char}

theorem exponentChars_of_none (h : n.exponent = none) : n.exponentChars = [] := by
  rw [exponentChars, h]

theorem exponentChars_of_some {e : Exponent} (h : n.exponent = some e) :
    n.exponentChars = e.mark :: (e.sign ++ e.digits.chars) := by
  rw [exponentChars, h]
  rfl

theorem tailChars_of_none (h : n.fraction = none) : n.tailChars = n.exponentChars := by
  rw [tailChars, fractionChars, h]
  rfl

theorem tailChars_of_some {digits : Digits} (h : n.fraction = some digits) :
    n.tailChars = '.' :: (digits.chars ++ n.exponentChars) := by
  rw [tailChars, fractionChars, h]
  rfl

theorem head?_exponentChars_append (hrest : Stops rest) :
    ∀ c ∈ (n.exponentChars ++ rest).head?, Text.isDigit c = false ∧ c ≠ '.' := by
  intro c hc
  cases he : n.exponent with
  | none =>
    rw [exponentChars_of_none he] at hc
    exact ⟨(hrest.not_part c hc).1, (hrest.not_part c hc).2.1⟩
  | some e =>
    rw [exponentChars_of_some he] at hc
    obtain rfl := Option.some.inj hc
    rcases e.mark_eq with hmark | hmark <;> rw [hmark] <;> decide

theorem head?_tailChars_append (hrest : Stops rest) : ∀ c ∈ (n.tailChars ++ rest).head?, Text.isDigit c = false := by
  intro c hc
  cases hf : n.fraction with
  | none =>
    rw [tailChars_of_none hf] at hc
    exact (head?_exponentChars_append hrest c hc).1
  | some digits =>
    rw [tailChars_of_some hf] at hc
    obtain rfl := Option.some.inj hc
    rfl

/-- A number starts with a zero that stands alone or with another digit. -/
theorem whole_cases (n : NumberText) :
    n.whole.chars = ['0'] ∨ ∃ c ds, n.whole.chars = c :: ds ∧ Text.isDigit c = true ∧ c ≠ '0' := by
  obtain ⟨c, ds, hchars⟩ := List.exists_cons_of_ne_nil n.whole.ne_nil
  by_cases hzero : c = '0'
  · exact .inl (n.alone (by rw [hchars, hzero]; rfl))
  · exact .inr ⟨c, ds, hchars, n.whole.digits c (by simp [hchars]), hzero⟩

end NumberText

/-- Whether a number is read as one that is no integer of 64 bits. -/
def Number.IsFloat (x : Number) : Prop := ∃ text, x = .float text

section Reading

variable {negative : Bool} {significand left : Nat} {k : Int} {n : NumberText} {rest cs : List Char} {x : Number}

theorem floatOf_eq_ok (h : floatOf negative significand k = .ok x) : x.IsFloat := by
  unfold floatOf at h
  split at h
  · cases h
  · split at h
    · cases h
    · cases h
      exact ⟨_, rfl⟩

/-- Characters without a sign in front. -/
def unsigned : List Char → List Char
  | '+' :: cs => cs
  | '-' :: cs => cs
  | cs => cs

theorem unsigned_exponent (e : Exponent) (rest : List Char) :
    unsigned (e.sign ++ e.digits.chars ++ rest) = e.digits.chars ++ rest := by
  obtain ⟨c, ds, hchars⟩ := List.exists_cons_of_ne_nil e.digits.ne_nil
  have hc : Text.isDigit c = true := e.digits.digits c (by simp [hchars])
  rcases e.sign_eq with hs | hs | hs
  · rw [hs, hchars]
    unfold unsigned
    split
    · rename_i heq
      obtain ⟨rfl, -⟩ := List.cons.inj heq
      cases hc
    · rename_i heq
      obtain ⟨rfl, -⟩ := List.cons.inj heq
      cases hc
    · rfl
  · rw [hs]
    rfl
  · rw [hs]
    rfl

theorem exponentPart_eq_ok (h : exponentPart negative significand k cs = .ok (x, rest)) :
    x.IsFloat ∧ rest = (unsigned cs).dropWhile Text.isDigit := by
  unfold exponentPart at h
  split at h
  rename_i down digits hsign
  have hdigits : digits = unsigned cs := by
    unfold unsigned
    split at hsign <;> simp_all
  rw [hdigits] at h
  split at h
  · cases h
  split at h
  · cases h
  dsimp only at h
  split at h
  · split at h
    · cases h
    · cases h
      exact ⟨⟨_, rfl⟩, rfl⟩
  · split at h
    · cases h
      exact ⟨floatOf_eq_ok ‹_›, rfl⟩
    · cases h

theorem skipExponent_eq (cs : List Char) : skipExponent cs =
    if ((unsigned cs).dropWhile Text.isDigit).length < (unsigned cs).length then .ok ((unsigned cs).dropWhile Text.isDigit)
    else .error .invalidNumber := rfl

theorem afterDigits_eq_ok (hrest : Stops rest)
    (h : afterDigits negative significand k (n.exponentChars ++ rest) = .ok (x, cs)) : x.IsFloat ∧ cs = rest := by
  cases he : n.exponent with
  | none =>
    rw [n.exponentChars_of_none he, List.nil_append] at h
    unfold afterDigits at h
    split at h
    · exact absurd rfl (hrest.not_part 'e' rfl).2.2.1
    · exact absurd rfl (hrest.not_part 'E' rfl).2.2.2
    · split at h
      · cases h
        exact ⟨floatOf_eq_ok ‹_›, rfl⟩
      · cases h
  | some e =>
    have hmark : afterDigits negative significand k (e.mark :: (e.sign ++ e.digits.chars ++ rest)) =
        exponentPart negative significand k (e.sign ++ e.digits.chars ++ rest) := by
      rcases e.mark_eq with hmark | hmark <;> rw [hmark] <;> rfl
    rw [n.exponentChars_of_some he, List.cons_append, hmark] at h
    obtain ⟨hx, hcs⟩ := exponentPart_eq_ok h
    refine ⟨hx, ?_⟩
    rw [hcs, unsigned_exponent]
    exact dropWhile_isDigit_append e.digits.digits fun c hc => (hrest.not_part c hc).1

theorem fractionPart_eq_ok (digits : Digits) (hrest : Stops rest)
    (h : fractionPart negative significand k (digits.chars ++ (n.exponentChars ++ rest)) = .ok (x, cs)) :
    x.IsFloat ∧ cs = rest := by
  have hdrop := dropWhile_isDigit_append digits.digits fun c hc => (n.head?_exponentChars_append hrest c hc).1
  unfold fractionPart at h
  dsimp only at h
  rw [hdrop] at h
  split at h
  · cases h
  · exact afterDigits_eq_ok hrest h

/-- Digits with neither a fraction nor an exponent behind them are an integer when all of them are taken. -/
theorem afterInteger_stops (hrest : Stops rest) : afterInteger negative significand left rest =
    if left = 0 ∧ !negative then .ok (.integer significand, rest)
    else if left = 0 ∧ significand ≠ 0 ∧ significand ≤ 0x8000000000000000 then .ok (.integer (-significand), rest)
    else afterDigits negative significand left rest := by
  unfold afterInteger
  split
  · exact absurd rfl (hrest.not_part '.' rfl).2.1
  · exact absurd rfl (hrest.not_part 'e' rfl).2.2.1
  · exact absurd rfl (hrest.not_part 'E' rfl).2.2.2
  · rfl

/-- What is read after the integer digits of a number. It is an integer only where nothing is left of the number. -/
theorem afterInteger_eq_ok (hrest : Stops rest) (h : afterInteger negative significand left (n.tailChars ++ rest) = .ok (x, cs)) :
    cs = rest ∧ (x.IsFloat ∨ n.fraction = none ∧ n.exponent = none ∧ left = 0 ∧
      (negative = false ∧ x = .integer significand ∨
        negative = true ∧ significand ≠ 0 ∧ significand ≤ 0x8000000000000000 ∧ x = .integer (-significand))) := by
  cases hf : n.fraction with
  | some digits =>
    rw [n.tailChars_of_some hf, List.cons_append, List.append_assoc] at h
    obtain ⟨hx, hcs⟩ := fractionPart_eq_ok digits hrest h
    exact ⟨hcs, .inl hx⟩
  | none =>
    rw [n.tailChars_of_none hf] at h
    cases he : n.exponent with
    | some e =>
      have hmark : afterInteger negative significand left (n.exponentChars ++ rest) =
          afterDigits negative significand left (n.exponentChars ++ rest) := by
        rw [n.exponentChars_of_some he]
        rcases e.mark_eq with hmark | hmark <;> rw [hmark] <;> rfl
      obtain ⟨hx, hcs⟩ := afterDigits_eq_ok hrest (hmark.symm.trans h)
      exact ⟨hcs, .inl hx⟩
    | none =>
      rw [n.exponentChars_of_none he, List.nil_append, afterInteger_stops hrest] at h
      split at h
      · obtain ⟨hleft, hsign⟩ := ‹left = 0 ∧ _›
        cases h
        exact ⟨rfl, .inr ⟨rfl, rfl, hleft, .inl ⟨by simpa using hsign, rfl⟩⟩⟩
      split at h
      · rename_i hsign hinteger
        obtain ⟨hleft, hne, hle⟩ := hinteger
        cases h
        exact ⟨rfl, .inr ⟨rfl, rfl, hleft, .inr ⟨by simpa [hleft] using hsign, hne, hle, rfl⟩⟩⟩
      · rw [← List.nil_append rest, ← n.exponentChars_of_none he] at h
        obtain ⟨hx, hcs⟩ := afterDigits_eq_ok hrest h
        exact ⟨hcs, .inl hx⟩

/-- No digit follows a zero that stands alone. -/
theorem head?_isDigit_getD (h : ∀ c ∈ rest.head?, Text.isDigit c = false) : (rest.head?.map Text.isDigit).getD false = false := by
  cases hc : rest.head? with
  | none => rfl
  | some c => exact h c hc

/-- A number is read by its digits in front of the point first. -/
theorem number_eq (negative : Bool) (n : NumberText) (hrest : Stops rest) :
    number negative (n.whole.chars ++ (n.tailChars ++ rest)) =
      afterInteger negative (absorb 0 (digitValues n.whole.chars)).1 (absorb 0 (digitValues n.whole.chars)).2
        (n.tailChars ++ rest) := by
  have hhead := n.head?_tailChars_append hrest
  have hspan := takeWhile_isDigit_append n.whole.digits hhead
  have hdrop := dropWhile_isDigit_append n.whole.digits hhead
  rcases n.whole_cases with hzero | ⟨c, ds, hchars, hc, hne⟩
  · rw [hzero, List.singleton_append, number]
    simp only [head?_isDigit_getD hhead]
    rfl
  · rw [hchars, List.cons_append] at hspan hdrop ⊢
    simp [number, hc, hspan, hdrop]

theorem numberBody_apply (cs : List Char) :
    numberBody cs = if cs.head? = some '-' then number true (cs.drop 1) else number false cs := by
  change (if cs.head? = some '-' then eat >>= fun _ => lexeme (number true) else lexeme (number false) : Reader Number) cs = _
  split <;> rfl

theorem numberBody_eq (n : NumberText) (rest : List Char) :
    numberBody (n.chars ++ rest) = number n.negative (n.whole.chars ++ (n.tailChars ++ rest)) := by
  unfold NumberText.chars NumberText.signChars
  rw [numberBody_apply]
  cases n.negative with
  | true => simp
  | false =>
    obtain ⟨c, ds, hchars⟩ := List.exists_cons_of_ne_nil n.whole.ne_nil
    have hc : c ≠ '-' := by
      rintro rfl
      cases n.whole.digits '-' (by simp [hchars])
    simp [hchars, hc]

/-- The least integer that is read as one. -/
def minInteger : Int := -0x8000000000000000

/-- What is read of a number ends where it does, and is an integer only where the digits of one are written. -/
theorem numberBody_eq_ok (hrest : Stops rest) (h : numberBody (n.chars ++ rest) = .ok (x, cs)) :
    cs = rest ∧ ∀ i : Int, x = .integer i → n.Integer i := by
  rw [numberBody_eq, number_eq _ _ hrest] at h
  obtain ⟨hcs, hfloat | ⟨hfraction, hexponent, hleft, hsign⟩⟩ := afterInteger_eq_ok hrest h
  · refine ⟨hcs, fun i hi => ?_⟩
    obtain ⟨text, rfl⟩ := hfloat
    cases hi
  · refine ⟨hcs, fun i hi => ?_⟩
    have habsorb := (absorb_eq_iff (by decide)).mp (Prod.ext rfl hleft)
    rcases hsign with ⟨hnegative, rfl⟩ | ⟨hnegative, hne, -, rfl⟩
    · obtain rfl := Number.integer.inj hi
      exact NumberText.integer_natCast_iff.mpr ⟨hnegative, hfraction, hexponent, habsorb.1⟩
    · obtain rfl := Number.integer.inj hi
      refine ⟨iff_of_true hnegative (by omega), hfraction, hexponent, ?_⟩
      rw [Int.natAbs_neg, Int.natAbs_natCast]
      exact habsorb.1

/-- The digits of an integer of 64 bits, with or without a sign, are read as it. -/
theorem numberBody_integer {i : Int} (hn : n.Integer i) (hlow : minInteger ≤ i) (hhigh : i < UInt64.size) (hrest : Stops rest) :
    numberBody (n.chars ++ rest) = .ok (.integer i, rest) := by
  have habs : i.natAbs < UInt64.size := by
    unfold minInteger at hlow
    simp only [UInt64.size] at hhigh ⊢
    omega
  have habsorb : absorb 0 (digitValues n.whole.chars) = (i.natAbs, 0) := (absorb_eq_iff (by decide)).mpr ⟨hn.natAbs_eq, habs⟩
  rw [numberBody_eq, number_eq _ _ hrest, habsorb, n.tailChars_of_none hn.fraction, n.exponentChars_of_none hn.exponent,
    List.nil_append, afterInteger_stops hrest]
  cases hnegative : n.negative with
  | false =>
    have hi : ¬i < 0 := by rw [← hn.negative_iff, hnegative]; exact nofun
    rw [if_pos ⟨rfl, rfl⟩, Int.natAbs_of_nonneg (Int.not_lt.mp hi)]
  | true =>
    have hi := hn.negative_iff.mp hnegative
    unfold minInteger at hlow
    rw [if_neg (by simp), if_pos ⟨rfl, by omega, by omega⟩, Int.ofNat_natAbs_of_nonpos hi.le, Int.neg_neg]

theorem length_dropWhile_append_lt (digits : Digits) (hrest : ∀ c ∈ rest.head?, Text.isDigit c = false) :
    ((digits.chars ++ rest).dropWhile Text.isDigit).length < (digits.chars ++ rest).length := by
  rw [dropWhile_isDigit_append digits.digits hrest, List.length_append]
  have := List.length_pos_iff.mpr digits.ne_nil
  omega

theorem skipAfterDigits_eq (hrest : Stops rest) : skipAfterDigits (n.exponentChars ++ rest) = .ok rest := by
  cases he : n.exponent with
  | none =>
    rw [n.exponentChars_of_none he, List.nil_append]
    unfold skipAfterDigits
    split
    · exact absurd rfl (hrest.not_part 'e' rfl).2.2.1
    · exact absurd rfl (hrest.not_part 'E' rfl).2.2.2
    · rfl
  | some e =>
    have hdigits : ∀ c ∈ rest.head?, Text.isDigit c = false := fun c hc => (hrest.not_part c hc).1
    have hmark : skipAfterDigits (e.mark :: (e.sign ++ e.digits.chars ++ rest)) =
        skipExponent (e.sign ++ e.digits.chars ++ rest) := by
      rcases e.mark_eq with hmark | hmark <;> rw [hmark] <;> rfl
    rw [n.exponentChars_of_some he, List.cons_append, hmark, skipExponent_eq, unsigned_exponent,
      if_pos (length_dropWhile_append_lt e.digits hdigits), dropWhile_isDigit_append e.digits.digits hdigits]

theorem skipAfterInteger_eq (hrest : Stops rest) : skipAfterInteger (n.tailChars ++ rest) = .ok rest := by
  have hhead := n.head?_exponentChars_append hrest
  cases hf : n.fraction with
  | some digits =>
    have hdigits : ∀ c ∈ (n.exponentChars ++ rest).head?, Text.isDigit c = false := fun c hc => (hhead c hc).1
    rw [n.tailChars_of_some hf, List.cons_append, List.append_assoc, skipAfterInteger,
      if_pos (length_dropWhile_append_lt digits hdigits), dropWhile_isDigit_append digits.digits hdigits,
        skipAfterDigits_eq hrest]
  | none =>
    rw [n.tailChars_of_none hf]
    unfold skipAfterInteger
    split
    · rename_i heq
      exact absurd rfl (hhead '.' (by rw [heq]; rfl)).2
    · exact skipAfterDigits_eq hrest

/-- A number is skipped to its end. -/
theorem skipNumber_eq (n : NumberText) (hrest : Stops rest) : skipNumber (n.whole.chars ++ (n.tailChars ++ rest)) = .ok rest := by
  have hhead := n.head?_tailChars_append hrest
  have hdrop := dropWhile_isDigit_append n.whole.digits hhead
  rcases n.whole_cases with hzero | ⟨c, ds, hchars, hc, hne⟩
  · rw [hzero, List.singleton_append, skipNumber, head?_isDigit_getD hhead, if_neg nofun, skipAfterInteger_eq hrest]
  · rw [hchars, List.cons_append] at hdrop ⊢
    simp [skipNumber, hc, hdrop, skipAfterInteger_eq hrest]

end Reading

end OfflineSigner.Json
