import OfflineSigner.Path
import OfflineSigner.Proofs.Checked
import OfflineSigner.Proofs.Text
import Mathlib.Data.List.Forall2

/-!
# What is read as a path

The grammar of derivation paths, told of their texts without reference to how they are read (`ChildNumber.Writes`,
`DerivationPath.Writes`). A text is cut at its slashes into pieces that are put together again (`flatMap_pieces`), and pieces
without slashes are found again in what they are put together to (`pieces_append_flatMap`). Main statement: a path is read from
a text exactly when the text writes it, and every path is read back from its own text (`parse_exact`).
-/

namespace OfflineSigner

/-! ## Components -/

namespace ChildNumber

/-- What stands behind the digits of a child that is not hardened, or is. -/
inductive Marks : List Char → Bool → Prop where
  | none : Marks [] false
  | stroke : Marks ['\''] true
  | small : Marks ['h'] true
  | capital : Marks ['H'] true

/-- Whether characters write a child: between blanks, digits that write its index, of which there is at least one and zeros in
front do not count, and behind them one mark if the child is hardened. -/
inductive Writes (cs : List Char) (c : ChildNumber) : Prop where
  | intro {digits mark : List Char} (htrim : Text.trimChars cs = digits ++ mark) (hne : digits ≠ [])
    (hdigits : ∀ d ∈ digits, Text.isDigit d = true) (hindex : Text.digitsValue digits = c.index)
    (hmark : Marks mark c.hardened)

theorem Marks.notMem {mark : List Char} {hardened : Bool} (h : Marks mark hardened) : '/' ∉ mark := by
  cases h <;> decide

theorem ofIndex_eq_ok_iff {index : Nat} {hardened : Bool} {c : ChildNumber} :
    ofIndex index hardened = .ok c ↔ index = c.index ∧ hardened = c.hardened := by
  unfold ofIndex
  constructor
  · intro h
    split at h
    · cases h
      exact ⟨rfl, rfl⟩
    · cases h
  · rintro ⟨rfl, rfl⟩
    rw [dif_pos c.index_lt]

/-- Digits are no marks. -/
theorem isMark_of_isDigit {c : Char} (h : Text.isDigit c = true) : isMark c = false := by
  by_contra hmark
  simp only [isMark, Bool.not_eq_false, Bool.or_eq_true, beq_iff_eq] at hmark
  rcases hmark with (rfl | rfl) | rfl <;> cases h

theorem splitMark_append {digits mark : List Char} {hardened : Bool} (hdigits : ∀ d ∈ digits, Text.isDigit d = true)
    (hmark : Marks mark hardened) : splitMark (digits ++ mark) = (digits, hardened) := by
  cases hmark with
  | none =>
    rw [List.append_nil, splitMark]
    split
    · rename_i c hlast
      have hc := isMark_of_isDigit (hdigits c (List.mem_of_getLast? hlast))
      simp [hc]
    · rfl
  | stroke => simp [splitMark, isMark]
  | small => simp [splitMark, isMark]
  | capital => simp [splitMark, isMark]

theorem exists_mark (cs : List Char) : ∃ mark, cs = (splitMark cs).1 ++ mark ∧ Marks mark (splitMark cs).2 := by
  unfold splitMark
  split
  · rename_i c hlast
    split
    · rename_i hmark
      refine ⟨[c], (List.dropLast_append_getLast? c hlast).symm, ?_⟩
      simp only [isMark, Bool.or_eq_true, beq_iff_eq] at hmark
      rcases hmark with (rfl | rfl) | rfl
      · exact .stroke
      · exact .small
      · exact .capital
    · exact ⟨[], (List.append_nil _).symm, .none⟩
  · exact ⟨[], (List.append_nil _).symm, .none⟩

/-- A child is read from characters exactly when they write it. -/
theorem parseChars_eq_ok_iff {cs : List Char} {c : ChildNumber} : parseChars cs = .ok c ↔ Writes cs c := by
  constructor
  · intro h
    unfold parseChars at h
    dsimp only at h
    split at h
    · cases h
    · split at h
      · rename_i n hdecimal
        split at h
        · cases h
        · rename_i hrange
          obtain ⟨hindex, hhardened⟩ := ofIndex_eq_ok_iff.mp h
          obtain ⟨hdigits, hvalue⟩ := Text.decimal?_eq_some_iff.mp hdecimal
          obtain ⟨mark, htrim, hmark⟩ := exists_mark (Text.trimChars cs)
          rw [hhardened] at hmark
          refine .intro htrim ?_ hdigits (hvalue.trans hindex) hmark
          intro hnil
          exact hrange (Or.inl (List.isEmpty_iff.mpr hnil))
      · cases h
  · rintro ⟨htrim, hne, hdigits, hindex, hmark⟩
    have hdecimal := Text.decimal?_eq_some_iff.mpr ⟨hdigits, hindex⟩
    have hlt : ¬UInt32.size ≤ c.index := by
      have hindex := c.index_lt
      simp only [childCount] at hindex
      simp only [UInt32.size]
      omega
    unfold parseChars
    simp [htrim, splitMark_append hdigits hmark, hdecimal, hne, hlt, ofIndex_eq_ok_iff]

/-- There is no slash in a component. -/
theorem Writes.notMem {cs : List Char} {c : ChildNumber} (h : Writes cs c) : '/' ∉ cs := by
  obtain ⟨htrim, -, hdigits, -, hmark⟩ := h
  intro hmem
  have htrimmed := Text.mem_trimChars hmem (by decide)
  rw [htrim] at htrimmed
  rcases List.mem_append.mp htrimmed with hmem | hmem
  · cases hdigits '/' hmem
  · exact hmark.notMem hmem

theorem toList_text (c : ChildNumber) :
    c.text.toList = (toString c.index).toList ++ if c.hardened then ['\''] else [] := by
  unfold text
  split <;> simp

/-- There are no blanks in the text of a child. -/
theorem isBlank_of_mem_text {c : ChildNumber} {d : Char} (h : d ∈ c.text.toList) : Text.isBlank d = false := by
  obtain ⟨-, hdigits, -⟩ := Text.toList_toString c.index
  rw [toList_text] at h
  rcases List.mem_append.mp h with h | h
  · exact Text.isBlank_of_isDigit (hdigits d h)
  · split at h
    · rw [List.mem_singleton.mp h]
      decide
    · cases h

/-- The text of a child writes it. -/
theorem writes_text (c : ChildNumber) : Writes c.text.toList c := by
  obtain ⟨hne, hdigits, hvalue⟩ := Text.toList_toString c.index
  have htrim := Text.trimChars_eq_self fun d => isBlank_of_mem_text (c := c) (d := d)
  rw [toList_text] at htrim ⊢
  refine .intro htrim hne hdigits hvalue ?_
  cases c.hardened
  · exact .none
  · exact .stroke

end ChildNumber

/-! ## Pieces -/

namespace DerivationPath

/-- The pieces of a text, each behind a slash, are the text behind a slash. -/
theorem flatMap_pieces (cs : List Char) : (pieces cs).flatMap ('/' :: ·) = '/' :: cs := by
  induction cs with
  | nil => rfl
  | cons c cs ih =>
    unfold pieces
    split
    · rename_i hslash
      rw [List.flatMap_cons, ih, hslash]
      rfl
    · split
      · rename_i piece rest hpieces
        rw [hpieces, List.flatMap_cons, List.cons_append, List.cons.injEq] at ih
        rw [List.flatMap_cons, List.cons_append, List.cons_append, ih.2]
      · rename_i hpieces
        rw [hpieces] at ih
        cases ih

theorem pieces_of_notMem {piece : List Char} (h : '/' ∉ piece) : pieces piece = [piece] := by
  induction piece with
  | nil => rfl
  | cons c piece ih =>
    rw [List.mem_cons, not_or] at h
    simp [pieces, Ne.symm h.1, ih h.2]

theorem pieces_append {piece : List Char} (h : '/' ∉ piece) (rest : List Char) :
    pieces (piece ++ '/' :: rest) = piece :: pieces rest := by
  induction piece with
  | nil => simp [pieces]
  | cons c piece ih =>
    rw [List.mem_cons, not_or] at h
    simp [pieces, Ne.symm h.1, ih h.2]

/-- Pieces without slashes are found again. -/
theorem pieces_append_flatMap {piece : List Char} {rest : List (List Char)} (h : ∀ cs ∈ piece :: rest, '/' ∉ cs) :
    pieces (piece ++ rest.flatMap ('/' :: ·)) = piece :: rest := by
  induction rest generalizing piece with
  | nil => rw [List.flatMap_nil, List.append_nil, pieces_of_notMem (h piece List.mem_cons_self)]
  | cons next rest ih =>
    rw [List.flatMap_cons, List.cons_append, pieces_append (h piece List.mem_cons_self),
      ih fun cs hcs => h cs (List.mem_cons_of_mem piece hcs)]

/-! ## Paths -/

/-- Whether a text writes a path: between blanks, the letter `m` or `M`, and behind it the components in their order, each behind
a slash. There may be 255 of them, as in every path, or none. -/
inductive Writes (s : String) (p : DerivationPath) : Prop where
  | intro {root : Char} {parts : List (List Char)} (hroot : root = 'm' ∨ root = 'M')
    (htrim : Text.trimChars s.toList = root :: parts.flatMap ('/' :: ·))
    (hparts : List.Forall₂ ChildNumber.Writes parts p.components)

theorem ofComponents_eq_ok_iff {cs : List ChildNumber} {p : DerivationPath} : ofComponents cs = .ok p ↔ cs = p.components := by
  unfold ofComponents
  constructor
  · intro h
    split at h
    · cases h
      rfl
    · cases h
  · rintro rfl
    rw [dif_pos p.length_le]

/-- The children that pieces write are read from them. -/
theorem mapM_parseChars_eq_ok_iff {parts : List (List Char)} {cs : List ChildNumber} :
    parts.mapM ChildNumber.parseChars = .ok cs ↔ List.Forall₂ ChildNumber.Writes parts cs := by
  simp only [mapM_eq_ok_iff, ChildNumber.parseChars_eq_ok_iff]

theorem notMem_of_forall₂ {parts : List (List Char)} {cs : List ChildNumber} (h : List.Forall₂ ChildNumber.Writes parts cs) :
    ∀ part ∈ parts, '/' ∉ part := by
  induction h with
  | nil => simp
  | cons hpart _ ih =>
    intro part hmem
    rcases List.mem_cons.mp hmem with rfl | hmem
    · exact hpart.notMem
    · exact ih part hmem

/-- A path is read from a text exactly when the text writes it. -/
theorem parse_eq_ok_iff {s : String} {p : DerivationPath} : parse s = .ok p ↔ Writes s p := by
  constructor
  · intro h
    unfold parse at h
    split at h
    · cases h
    · rename_i root rest htrim
      split at h
      · cases h
      · rename_i hroot
        have hroot : root = 'm' ∨ root = 'M' := by
          by_contra hne
          exact hroot (not_or.mp hne)
        split at h
        · have hbare : Text.trimChars s.toList = root :: ([] : List (List Char)).flatMap ('/' :: ·) := htrim
          cases h
          exact .intro hroot hbare .nil
        · rename_i slash body
          split at h
          · cases h
          · rename_i hslash
            obtain ⟨components, hcomponents, h⟩ := bind_eq_ok_iff.mp h
            obtain rfl := ofComponents_eq_ok_iff.mp h
            refine .intro hroot ?_ (mapM_parseChars_eq_ok_iff.mp hcomponents)
            rw [htrim, flatMap_pieces, Decidable.not_not.mp hslash]
  · rintro ⟨hroot, htrim, hparts⟩
    have hslash := notMem_of_forall₂ hparts
    unfold parse
    rw [htrim]
    dsimp only
    rw [if_neg fun hne => hroot.elim hne.1 hne.2]
    obtain ⟨components, hlength⟩ := p
    cases hparts with
    | nil => rfl
    | @cons part c parts components hpart hrest =>
      have hpieces : pieces (part ++ parts.flatMap ('/' :: ·)) = part :: parts := pieces_append_flatMap hslash
      have hcomponents := mapM_parseChars_eq_ok_iff.mpr (.cons hpart hrest)
      rw [List.flatMap_cons, List.cons_append]
      dsimp only
      rw [if_neg (not_not_intro rfl), hpieces, hcomponents, ok_bind]
      exact ofComponents_eq_ok_iff.mpr rfl

theorem toList_text (p : DerivationPath) :
    p.text.toList = 'm' :: (p.components.map fun c => c.text.toList).flatMap ('/' :: ·) := by
  simp [text, List.flatMap_map]

/-- There are no blanks in the text of a path. -/
theorem isBlank_of_mem_text {p : DerivationPath} {d : Char} (h : d ∈ p.text.toList) : Text.isBlank d = false := by
  rw [toList_text] at h
  rcases List.mem_cons.mp h with rfl | h
  · decide
  · obtain ⟨part, hpart, h⟩ := List.mem_flatMap.mp h
    obtain ⟨c, -, rfl⟩ := List.mem_map.mp hpart
    rcases List.mem_cons.mp h with rfl | h
    · decide
    · exact ChildNumber.isBlank_of_mem_text h

/-- The text of a path writes it. -/
theorem writes_text (p : DerivationPath) : Writes p.text p := by
  have htrim := Text.trimChars_eq_self fun d => isBlank_of_mem_text (p := p) (d := d)
  refine .intro (Or.inl rfl) (htrim.trans p.toList_text) ?_
  rw [List.forall₂_map_left_iff]
  exact List.forall₂_same.mpr fun c _ => c.writes_text

/-- A path is read from a text exactly when the text writes it. Every path is read back from its own text, so a text that is
accepted and the text of its path are read alike, and different paths have different texts. -/
theorem parse_exact :
    (∀ s p, parse s = .ok p ↔ Writes s p) ∧ (∀ p, parse p.text = .ok p) ∧
      (∀ s p, parse s = .ok p → parse p.text = parse s) ∧ Function.Injective text := by
  have hread : ∀ p : DerivationPath, parse p.text = .ok p := fun p => parse_eq_ok_iff.mpr p.writes_text
  refine ⟨fun s p => parse_eq_ok_iff, hread, ?_, ?_⟩
  · intro s p h
    rw [hread, h]
  · intro p p' h
    have hp := hread p
    rw [h, hread] at hp
    exact (Except.ok.inj hp).symm

example : (parse " M/44h/ 60H /0'/0/007").toOption.map text = some "m/44'/60'/0'/0/7" := by decide +kernel

end DerivationPath

end OfflineSigner
