import OfflineSigner.Proofs.Json.Lexeme

/-!
# Steps of readers

What the steps from which readers are put together do on a document as it is written: spaces are passed over, and the character
behind them tells the kind of the value that it starts.
-/

namespace OfflineSigner.Json

variable {α β : Type}

/-! ## Success of readers -/

/-- Two readers one after the other succeed when the first does, and the second on what the first leaves. -/
theorem Reader.bind_eq_ok_iff {R : Reader α} {F : α → Reader β} {cs : List Char} {x : β × List Char} :
    (R >>= F) cs = .ok x ↔ ∃ a cs', R cs = .ok (a, cs') ∧ F a cs' = .ok x := by
  change (R cs >>= fun p => F p.1 p.2) = .ok x ↔ _
  cases R cs with
  | error e => simp [bind, Except.bind]
  | ok p =>
    obtain ⟨a, cs'⟩ := p
    simp [bind, Except.bind]

theorem Reader.bind_of_ok {R : Reader α} {cs cs' : List Char} {a : α} (h : R cs = .ok (a, cs')) (F : α → Reader β) :
    (R >>= F) cs = F a cs' := by
  change (R cs >>= fun p => F p.1 p.2) = _
  rw [h]
  rfl

theorem Reader.pure_eq_ok_iff {a : α} {cs : List Char} {x : α × List Char} : (pure a : Reader α) cs = .ok x ↔ x = (a, cs) := by
  change Except.ok (a, cs) = .ok x ↔ _
  rw [Except.ok.injEq, eq_comm]

/-- Whether a reader succeeds on no text. -/
def Fails (R : Reader α) : Prop := ∀ cs x, R cs ≠ .ok x

theorem fails_throw (e : Error) : Fails (throw e : Reader α) := fun _ _ => nofun

theorem fails_bind {R : Reader α} {F : α → Reader β} (h : ∀ a, Fails (F a)) : Fails (R >>= F) := by
  intro cs x hx
  obtain ⟨a, cs', -, ha⟩ := Reader.bind_eq_ok_iff.mp hx
  exact h a cs' x ha

/-- Whatever stands where something else is expected, it is not read. -/
theorem fails_refuse (expected : String) : Fails (refuse expected : Reader α) := by
  refine fails_bind fun c => ?_
  cases c with
  | none => exact fails_throw _
  | some c =>
    dsimp only
    split_ifs
    · exact fails_bind fun _ => fails_bind fun _ => fails_throw _
    · exact fails_bind fun _ => fails_bind fun _ => fails_throw _
    · exact fails_bind fun _ => fails_bind fun _ => fails_throw _
    · exact fails_bind fun _ => fails_throw _
    · exact fails_bind fun _ => fails_throw _
    · exact fails_throw _
    · exact fails_throw _
    · exact fails_throw _

/-! ## Spaces -/

theorem dropWhile_isSpace_append (gap : Gap) {c : Char} (hc : isSpace c = false) (cs : List Char) :
    (gap.chars ++ c :: cs).dropWhile isSpace = c :: cs := by
  rw [List.dropWhile_append_of_pos gap.spaces, List.dropWhile_cons_of_neg (by simp [hc])]

/-- The next character is looked at behind spaces. -/
theorem peek?_bind (gap : Gap) {c : Char} (hc : isSpace c = false) (cs : List Char) (F : Option Char → Reader β) :
    (peek? >>= F) (gap.chars ++ c :: cs) = F (some c) (c :: cs) := by
  change F ((gap.chars ++ c :: cs).dropWhile isSpace).head? ((gap.chars ++ c :: cs).dropWhile isSpace) = _
  rw [dropWhile_isSpace_append gap hc]
  rfl

/-- Spaces behind spaces. -/
def Gap.append (gap gap' : Gap) : Gap :=
  ⟨gap.chars ++ gap'.chars, fun c hc => (List.mem_append.mp hc).elim (gap.spaces c) (gap'.spaces c)⟩

theorem eat_bind (c : Char) (cs : List Char) (F : Unit → Reader β) : (eat >>= F) (c :: cs) = F () cs := rfl

theorem get_bind (cs : List Char) (F : List Char → Reader β) : (get >>= F : Reader β) cs = F cs cs := rfl

theorem Stops.gap {rest : List Char} (gap : Gap) (h : Stops rest) : Stops (gap.chars ++ rest) := by
  intro c hc
  cases hgap : gap.chars with
  | nil =>
    rw [hgap] at hc
    exact h c hc
  | cons c' cs =>
    rw [hgap] at hc
    obtain rfl := Option.some.inj hc
    exact .inl (gap.spaces _ (by simp [hgap]))

/-! ## The start of a value -/

/-- Whether a character is the first of a value. -/
def Layout.Starts : Layout → Char → Prop
  | .null, c => c = 'n'
  | .bool true, c => c = 't'
  | .bool false, c => c = 'f'
  | .number _, c => c = '-' ∨ Text.isDigit c = true
  | .string _, c => c = '"'
  | .array _ _, c => c = '['
  | .object _ _, c => c = '\x7b'

theorem NumberText.exists_start (n : NumberText) : ∃ c cs, n.chars = c :: cs ∧ (c = '-' ∨ Text.isDigit c = true) := by
  unfold NumberText.chars NumberText.signChars
  cases n.negative with
  | true => exact ⟨'-', _, rfl, .inl rfl⟩
  | false =>
    obtain ⟨c, cs, hchars⟩ := List.exists_cons_of_ne_nil n.whole.ne_nil
    exact ⟨c, cs ++ n.tailChars, by simp [hchars], .inr (n.whole.digits c (by simp [hchars]))⟩

theorem Layout.exists_start (d : Layout) : ∃ c cs, d.chars = c :: cs ∧ d.Starts c := by
  cases d with
  | null => exact ⟨_, _, rfl, rfl⟩
  | bool b => cases b <;> exact ⟨_, _, rfl, rfl⟩
  | number n => exact n.exists_start
  | string literal => exact ⟨_, _, rfl, rfl⟩
  | array space items => exact ⟨_, _, rfl, rfl⟩
  | object space members => exact ⟨_, _, rfl, rfl⟩

theorem ne_of_isDigit {c c' : Char} (hc : Text.isDigit c = true) (hc' : Text.isDigit c' = false) : c ≠ c' := by
  rintro rfl
  rw [hc] at hc'
  cases hc'

/-- Characters that start no value. -/
theorem Layout.Starts.ne {d : Layout} {c : Char} (h : d.Starts c) : isSpace c = false ∧ c ≠ ',' ∧ c ≠ ']' ∧ c ≠ '\x7d' := by
  have hdigit : Text.isDigit c = true → isSpace c = false ∧ c ≠ ',' ∧ c ≠ ']' ∧ c ≠ '\x7d' := by
    intro hc
    refine ⟨?_, ne_of_isDigit hc rfl, ne_of_isDigit hc rfl, ne_of_isDigit hc rfl⟩
    rw [← Bool.not_eq_true, isSpace_iff]
    rintro (rfl | rfl | rfl | rfl) <;> cases hc
  cases d with
  | number n =>
    rcases h with rfl | h
    · decide
    · exact hdigit h
  | bool b => cases b <;> cases h <;> decide
  | null => cases h; decide
  | string literal => cases h; decide
  | array space items => cases h; decide
  | object space members => cases h; decide

/-- A value is looked at behind spaces. -/
theorem Layout.exists_peek (d : Layout) : ∃ c, d.Starts c ∧
    ∀ (gap : Gap) (rest : List Char) {β : Type} (F : Option Char → Reader β),
      (peek? >>= F) (gap.chars ++ (d.chars ++ rest)) = F (some c) (d.chars ++ rest) := by
  obtain ⟨c, cs, hchars, hc⟩ := d.exists_start
  refine ⟨c, hc, fun gap rest β F => ?_⟩
  rw [hchars, List.cons_append]
  exact peek?_bind gap hc.ne.1 _ F

/-! ## Between elements and members -/

/-- Pieces between brackets, each but the first behind a comma. `first` tells whether the first of all is among them. -/
def listed (first : Bool) (pieces : List (List Char)) : List Char :=
  if first then separated [','] pieces else pieces.flatMap (',' :: ·)

theorem separated_cons (piece : List Char) (pieces : List (List Char)) :
    separated [','] (piece :: pieces) = piece ++ listed false pieces := by
  induction pieces generalizing piece with
  | nil => simp [separated, listed]
  | cons piece' pieces ih => simp [separated, listed, ih]

theorem listed_nil (first : Bool) : listed first [] = [] := by cases first <;> rfl

theorem listed_true_cons (piece : List Char) (pieces : List (List Char)) :
    listed true (piece :: pieces) = piece ++ listed false pieces := separated_cons piece pieces

theorem listed_false_cons (piece : List Char) (pieces : List (List Char)) :
    listed false (piece :: pieces) = ',' :: (piece ++ listed false pieces) := rfl

theorem Layout.array_append (space : Gap) (items : List (Placed Layout)) (rest : List Char) :
    (Layout.array space items).chars ++ rest = '[' :: (space.chars ++ (listed true (itemTexts items) ++ ']' :: rest)) := by
  simp [Layout.chars, listed]

theorem Layout.object_append (space : Gap) (members : List (Placed Literal × Placed Layout)) (rest : List Char) :
    (Layout.object space members).chars ++ rest =
      '\x7b' :: (space.chars ++ (listed true (memberTexts members) ++ '\x7d' :: rest)) := by
  simp [Layout.chars, listed]

/-- A number ends before the next element or member, and before the closing bracket. -/
theorem Stops.listed {close : Char} (hclose : close = ']' ∨ close = '\x7d') (pieces : List (List Char)) (rest : List Char) :
    Stops (listed false pieces ++ close :: rest) := by
  cases pieces with
  | nil =>
    rw [listed_nil]
    rintro c hc
    obtain rfl := Option.some.inj hc
    exact .inr (.inr hclose)
  | cons piece pieces =>
    intro c hc
    obtain rfl := Option.some.inj hc
    exact .inr (.inl rfl)

section Lists

variable (gap : Gap) (rest : List Char)

theorem nextElement_nil (first : Bool) :
    nextElement first (gap.chars ++ (listed first [] ++ ']' :: rest)) = .ok (false, ']' :: rest) := by
  rw [listed_nil, List.nil_append, nextElement, peek?_bind gap (by decide)]
  rfl

/-- A list goes on with its next element, from its first character on. -/
theorem nextElement_cons (first : Bool) (d : Placed Layout) (items : List (Placed Layout)) :
    nextElement first (gap.chars ++ (listed first (Layout.itemTexts (d :: items)) ++ ']' :: rest)) =
      .ok (true, d.value.chars ++ (d.after.chars ++ (listed false (Layout.itemTexts items) ++ ']' :: rest))) := by
  obtain ⟨before, d, after⟩ := d
  obtain ⟨c, hc, hpeek⟩ := d.exists_peek
  rw [Layout.itemTexts, nextElement]
  cases first with
  | true =>
    have hgap := hpeek (gap.append before)
    simp only [Gap.append, List.append_assoc] at hgap
    simp only [listed_true_cons, List.append_assoc]
    rw [hgap]
    simp only [hc.ne.2.2.1, if_false, if_true]
    rfl
  | false =>
    simp only [listed_false_cons, List.append_assoc, List.cons_append]
    rw [peek?_bind gap (by decide)]
    simp only [Char.reduceEq, if_false, Bool.false_eq_true, if_true, eat_bind]
    have hne := hc.ne.2.2.1
    rw [hpeek]
    simp only
    rfl

theorem endList_nil : endList (gap.chars ++ (listed false [] ++ ']' :: rest)) = .ok ((), rest) := by
  rw [listed_nil, List.nil_append, endList, peek?_bind gap (by decide)]
  rfl

/-- A list whose elements are not all read does not end. -/
theorem endList_cons_ne_ok (d : Placed Layout) (items : List (Placed Layout)) (x : Unit × List Char) :
    endList (gap.chars ++ (listed false (Layout.itemTexts (d :: items)) ++ ']' :: rest)) ≠ .ok x := by
  rw [Layout.itemTexts, listed_false_cons, List.cons_append, endList, peek?_bind gap (by decide)]
  exact fails_bind (fun _ => fails_bind fun _ => fails_throw _) _ _

/-- A string literal is read as the text that it says. -/
theorem stringBody_eq_ok_iff (literal : Literal) (x : String × List Char) :
    stringBody (literal.chars ++ rest) = .ok x ↔ ∃ s, literal.text? = some s ∧ x = (s, rest) := by
  rw [Literal.chars, List.cons_append, stringBody, eat_bind, Reader.bind_eq_ok_iff]
  simp only [lexeme, Reader.pure_eq_ok_iff, stringChars_inner_eq_ok_iff, Literal.text?, Option.map_eq_some_iff, Prod.mk.injEq]
  grind

theorem nextKey_nil (first : Bool) :
    nextKey first (gap.chars ++ (listed first [] ++ '\x7d' :: rest)) = .ok (none, '\x7d' :: rest) := by
  rw [listed_nil, List.nil_append, nextKey, peek?_bind gap (by decide)]
  rfl

/-- An object goes on with the key of its next member, if that says a text. -/
theorem nextKey_cons_eq_ok_iff (first : Bool) (key : Placed Literal) (d : Placed Layout)
    (members : List (Placed Literal × Placed Layout)) (x : Option String × List Char) :
    nextKey first (gap.chars ++ (listed first (Layout.memberTexts ((key, d) :: members)) ++ '\x7d' :: rest)) = .ok x ↔
      ∃ s, key.value.text? = some s ∧ x = (some s, key.after.chars ++ (':' :: (d.before.chars ++ (d.value.chars ++
        (d.after.chars ++ (listed false (Layout.memberTexts members) ++ '\x7d' :: rest)))))) := by
  obtain ⟨before, literal, after⟩ := key
  obtain ⟨before', d, after'⟩ := d
  have hkey : ∀ cs : List Char, (do return some (← stringBody) : Reader (Option String)) (literal.chars ++ cs) = .ok x ↔
      ∃ s, literal.text? = some s ∧ x = (some s, cs) := by
    intro cs
    rw [Reader.bind_eq_ok_iff]
    simp only [stringBody_eq_ok_iff, Reader.pure_eq_ok_iff]
    grind
  have hchars : ∀ cs : List Char, literal.chars ++ cs = '"' :: (literal.inner ++ cs) := fun cs => rfl
  rw [Layout.memberTexts, nextKey]
  cases first with
  | true =>
    have hpeek : ∀ cs (F : Option Char → Reader (Option String)), (peek? >>= F) ((gap.append before).chars ++ '"' :: cs) =
        F (some '"') ('"' :: cs) := peek?_bind (gap.append before) (by decide)
    simp only [Gap.append, List.append_assoc] at hpeek
    simp only [listed_true_cons, List.append_assoc, List.cons_append]
    rw [hchars, hpeek, ← hchars]
    exact hkey _
  | false =>
    simp only [listed_false_cons, List.append_assoc, List.cons_append]
    rw [peek?_bind gap (by decide)]
    simp only [Char.reduceEq, if_false, Bool.false_eq_true, if_true, eat_bind]
    rw [hchars, peek?_bind before (by decide), ← hchars]
    exact hkey _

theorem colon_eq (gap : Gap) (cs : List Char) : colon (gap.chars ++ ':' :: cs) = .ok ((), cs) := by
  rw [colon, peek?_bind gap (by decide)]
  rfl

end Lists

end OfflineSigner.Json
