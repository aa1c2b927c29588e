import OfflineSigner.Proofs.Json.Literal
import OfflineSigner.Proofs.Json.Reads

/-!
# Values as documents

What a value says when it is written (`Value.tree`), and that both of its written forms are texts of documents that say it
(`Value.exists_layout`). Main statement: what a reader reads from either form is what the value says (`read_text_eq_ok_iff`).
-/

namespace OfflineSigner.Json

/-! ## Numbers -/

/-- The digits of a natural number. -/
def Digits.ofNat (n : Nat) : Digits where
  chars := (toString n).toList
  ne_nil := (Text.toList_toString n).1
  digits := (Text.toList_toString n).2.1

/-- An integer as it is written. -/
def NumberText.ofInt (n : Int) : NumberText where
  negative := n < 0
  whole := .ofNat n.natAbs
  alone := by
    have htext : (toString n.natAbs).toList = Nat.toDigits 10 n.natAbs := by
      rw [Nat.toString_eq_ofList_toDigits, String.toList_ofList]
    intro hzero
    have habs : n.natAbs = 0 := Text.eq_zero_of_head?_toDigits (htext ▸ hzero)
    simp [Digits.ofNat, habs]
  fraction := none
  exponent := none

theorem NumberText.chars_ofInt (n : Int) : (NumberText.ofInt n).chars = (toString n).toList := by
  have hchars : (NumberText.ofInt n).chars = (if n < 0 then ['-'] else []) ++ (toString n.natAbs).toList := by
    simp [NumberText.chars, signChars, tailChars, fractionChars, exponentChars, ofInt, Digits.ofNat]
  rw [hchars]
  cases n with
  | ofNat m => rfl
  | negSucc m =>
    have htext : toString (Int.negSucc m) = "-" ++ toString (m + 1) := rfl
    rw [htext, String.toList_append, if_pos (Int.negSucc_lt_zero m)]
    rfl

/-- An integer is written as its digits. -/
theorem NumberText.integer_ofInt (n : Int) : (NumberText.ofInt n).Integer n where
  negative_iff := by simp [ofInt]
  fraction := rfl
  exponent := rfl
  natAbs_eq := (Text.toList_toString n.natAbs).2.2

theorem saysInteger_ofInt (n : Int) : SaysInteger (.number (.ofInt n)) n := ⟨_, rfl, NumberText.integer_ofInt n⟩

theorem saysNatural_ofInt (v : Nat) : SaysNatural (.number (.ofInt v)) v := saysInteger_natCast_iff.mp (saysInteger_ofInt v)

/-! ## Values -/

mutual

/-- What a value says. -/
def Value.tree : Value → Tree
  | .null => .null
  | .bool b => .bool b
  | .number n => .number (.ofInt n)
  | .string s => .string (some s)
  | .array items => .array (Value.itemTrees items)
  | .object members => .object (Value.memberTrees members)

/-- What the elements of an array say. -/
def Value.itemTrees : List Value → List Tree
  | [] => []
  | item :: items => item.tree :: Value.itemTrees items

/-- What the members of an object say. -/
def Value.memberTrees : List (String × Value) → List (Option String × Tree)
  | [] => []
  | (key, value) :: members => (some key, value.tree) :: Value.memberTrees members

end

/-! ## Lines

Elements and members are written with the same characters in front of each, and others behind the last: none in the compact
form, new lines in the other. -/

section Lines

variable {α : Type} (before space after : Gap)

/-- Things placed with a gap in front of each, and one behind the last. -/
def spread : List α → List (Placed α)
  | [] => []
  | [a] => [⟨before, a, after⟩]
  | a :: b :: as => ⟨before, a, .none⟩ :: spread (b :: as)

theorem map_value_spread (as : List α) : (spread before after as).map (·.value) = as := by
  fun_induction spread before after as with
  | case1 => rfl
  | case2 a => rfl
  | case3 a b as ih => rw [List.map_cons, ih]

theorem separated_cons_cons (separator piece piece' : List Char) (pieces : List (List Char)) :
    separated separator (piece :: piece' :: pieces) = piece ++ separator ++ separated separator (piece' :: pieces) := rfl

theorem spread_ne_nil {as : List α} (h : as ≠ []) : spread before after as ≠ [] := by
  rintro hnil
  rw [← map_value_spread before after as, hnil] at h
  exact h rfl

theorem separated_spread (text : α → List Char) {as : List α} (h : as ≠ []) :
    separated [','] ((spread before after as).map fun p => p.before.chars ++ text p.value ++ p.after.chars) =
      before.chars ++ separated (',' :: before.chars) (as.map text) ++ after.chars := by
  fun_induction spread before after as with
  | case1 => exact absurd rfl h
  | case2 a => rfl
  | case3 a b as ih =>
    obtain ⟨p, ps, hps⟩ := List.exists_cons_of_ne_nil (spread_ne_nil before after (List.cons_ne_nil b as))
    have ih := ih (List.cons_ne_nil b as)
    rw [hps, List.map_cons] at ih ⊢
    rw [List.map_cons, separated_cons_cons, ih]
    simp [separated_cons_cons, Gap.none]

theorem itemTexts_eq_map (items : List (Placed Layout)) :
    Layout.itemTexts items = items.map fun d => d.before.chars ++ d.value.chars ++ d.after.chars := by
  induction items with
  | nil => rfl
  | cons d items ih => rw [Layout.itemTexts, ih, List.map_cons]

theorem itemTrees_eq_map (items : List (Placed Layout)) : Layout.itemTrees items = items.map fun d => d.value.tree := by
  induction items with
  | nil => rfl
  | cons d items ih => rw [Layout.itemTrees, ih, List.map_cons]

/-- Documents as elements, spread. -/
def Layout.ofItems (ds : List Layout) : Layout := .array .none (spread before after ds)

theorem chars_ofItems {ds : List Layout} (h : ds ≠ []) : (Layout.ofItems before after ds).chars =
    '[' :: (before.chars ++ separated (',' :: before.chars) (ds.map Layout.chars) ++ after.chars) ++ [']'] := by
  rw [Layout.ofItems, Layout.chars, itemTexts_eq_map, ← separated_spread before after Layout.chars h]
  rfl

theorem tree_ofItems (ds : List Layout) : (Layout.ofItems before after ds).tree = .array (ds.map Layout.tree) := by
  conv_rhs => rw [← map_value_spread before after ds]
  rw [Layout.ofItems, Layout.tree, itemTrees_eq_map, List.map_map]
  rfl

theorem memberTexts_eq_map (members : List (Placed Literal × Placed Layout)) : Layout.memberTexts members = members.map fun m =>
    m.1.before.chars ++ m.1.value.chars ++ m.1.after.chars ++
      ':' :: m.2.before.chars ++ m.2.value.chars ++ m.2.after.chars := by
  induction members with
  | nil => rfl
  | cons m members ih => rw [Layout.memberTexts, ih, List.map_cons]

theorem memberTrees_eq_map (members : List (Placed Literal × Placed Layout)) :
    Layout.memberTrees members = members.map fun m => (m.1.value.text?, m.2.value.tree) := by
  induction members with
  | nil => rfl
  | cons m members ih => rw [Layout.memberTrees, ih, List.map_cons]

/-- A key and a value, with a gap behind the colon. -/
def memberText (m : Literal × Layout) : List Char := m.1.chars ++ ':' :: (space.chars ++ m.2.chars)

/-- Keys and documents as members, spread. -/
def Layout.ofMembers (ms : List (Literal × Layout)) : Layout :=
  .object .none ((spread before after ms).map fun p => (⟨p.before, p.value.1, .none⟩, ⟨space, p.value.2, p.after⟩))

theorem chars_ofMembers {ms : List (Literal × Layout)} (h : ms ≠ []) : (Layout.ofMembers before space after ms).chars =
    '\x7b' :: (before.chars ++ separated (',' :: before.chars) (ms.map (memberText space)) ++ after.chars) ++ ['\x7d'] := by
  rw [Layout.ofMembers, Layout.chars, memberTexts_eq_map, List.map_map, ← separated_spread before after (memberText space) h]
  simp [Function.comp_def, memberText, Gap.none]

theorem tree_ofMembers (ms : List (Literal × Layout)) :
    (Layout.ofMembers before space after ms).tree = .object (ms.map fun m => (m.1.text?, m.2.tree)) := by
  conv_rhs => rw [← map_value_spread before after ms]
  rw [Layout.ofMembers, Layout.tree, memberTrees_eq_map, List.map_map, List.map_map]
  rfl

end Lines

/-! ## Both forms -/

/-- A form in which values are written: without any space, or with one member or element a line. -/
inductive Form where
  | compact
  | pretty

namespace Form

/-- The characters of a value at a level. -/
def chars (level : Nat) (v : Value) : Form → List Char
  | compact => v.compactChars
  | pretty => v.prettyChars level

/-- The elements of an array at a level. -/
def items (level : Nat) (vs : List Value) : Form → List (List Char)
  | compact => Value.compactItems vs
  | pretty => Value.prettyItems level vs

/-- The members of an object at a level. -/
def members (level : Nat) (vs : List (String × Value)) : Form → List (List Char)
  | compact => Value.compactMembers vs
  | pretty => Value.prettyMembers level vs

/-- What stands in front of each element or member at a level, and behind the last of a deeper level. -/
def line (level : Nat) : Form → Gap
  | compact => .none
  | pretty => ⟨newLine level, by simp [newLine, isSpace]⟩

/-- What stands behind a colon. -/
def space : Form → Gap
  | compact => .none
  | pretty => ⟨[' '], by simp [isSpace]⟩

variable (form : Form) (level : Nat)

theorem items_cons (v : Value) (vs : List Value) :
    form.items level (v :: vs) = form.chars level v :: form.items level vs := by
  cases form <;> rfl

theorem members_cons (key : String) (v : Value) (vs : List (String × Value)) : form.members level ((key, v) :: vs) =
    (writeString key ++ ':' :: (form.space.chars ++ form.chars level v)) :: form.members level vs := by
  cases form <;> rfl

theorem chars_array (vs : List Value) (h : vs ≠ []) : form.chars level (.array vs) =
    '[' :: ((form.line (level + 1)).chars ++ separated (',' :: (form.line (level + 1)).chars) (form.items (level + 1) vs) ++
      (form.line level).chars) ++ [']'] := by
  obtain ⟨v, vs, rfl⟩ := List.exists_cons_of_ne_nil h
  cases form with
  | compact => simp [chars, items, line, Value.compactChars, Gap.none]
  | pretty => simp [chars, items, line, Value.prettyChars, Value.prettyItems, bracketed]

theorem chars_object (vs : List (String × Value)) (h : vs ≠ []) : form.chars level (.object vs) =
    '\x7b' :: ((form.line (level + 1)).chars ++ separated (',' :: (form.line (level + 1)).chars) (form.members (level + 1) vs) ++
      (form.line level).chars) ++ ['\x7d'] := by
  obtain ⟨⟨key, v⟩, vs, rfl⟩ := List.exists_cons_of_ne_nil h
  cases form with
  | compact => simp [chars, members, line, Value.compactChars, Gap.none]
  | pretty => simp [chars, members, line, Value.prettyChars, Value.prettyMembers, bracketed]

end Form

mutual

/-- A value is written as a document that says it. -/
theorem Value.exists_layout (form : Form) : ∀ (level : Nat) (v : Value),
    ∃ d : Layout, d.chars = form.chars level v ∧ d.tree = v.tree
  | _, .null => ⟨.null, by cases form <;> rfl, rfl⟩
  | _, .bool true => ⟨.bool true, by cases form <;> rfl, rfl⟩
  | _, .bool false => ⟨.bool false, by cases form <;> rfl, rfl⟩
  | _, .number n => ⟨.number (.ofInt n), by cases form <;> exact NumberText.chars_ofInt n, rfl⟩
  | _, .string s => by
    obtain ⟨literal, hchars, htext⟩ := exists_literal s
    exact ⟨.string literal, by cases form <;> exact hchars, congrArg Tree.string htext⟩
  | _, .array [] => ⟨.array .none [], by cases form <;> rfl, rfl⟩
  | level, .array (v :: vs) => by
    obtain ⟨ds, hchars, htrees⟩ := Value.exists_itemLayouts form (level + 1) (v :: vs)
    have hne : ds ≠ [] := by
      rintro rfl
      cases form <;> cases hchars
    refine ⟨.ofItems (form.line (level + 1)) (form.line level) ds, ?_, by rw [tree_ofItems, htrees, Value.tree]⟩
    rw [chars_ofItems _ _ hne, form.chars_array level _ (List.cons_ne_nil v vs), hchars]
  | _, .object [] => ⟨.object .none [], by cases form <;> rfl, rfl⟩
  | level, .object ((key, v) :: vs) => by
    obtain ⟨ms, hchars, htrees⟩ := Value.exists_memberLayouts form (level + 1) ((key, v) :: vs)
    have hne : ms ≠ [] := by
      rintro rfl
      cases form <;> cases hchars
    refine ⟨.ofMembers (form.line (level + 1)) form.space (form.line level) ms, ?_, by rw [tree_ofMembers, htrees, Value.tree]⟩
    rw [chars_ofMembers _ _ _ hne, form.chars_object level _ (List.cons_ne_nil (key, v) vs), hchars]

theorem Value.exists_itemLayouts (form : Form) : ∀ (level : Nat) (vs : List Value), ∃ ds : List Layout,
    ds.map Layout.chars = form.items level vs ∧ ds.map Layout.tree = Value.itemTrees vs
  | _, [] => ⟨[], by cases form <;> rfl, rfl⟩
  | level, v :: vs => by
    obtain ⟨d, hchars, htree⟩ := v.exists_layout form level
    obtain ⟨ds, hdchars, hdtrees⟩ := Value.exists_itemLayouts form level vs
    refine ⟨d :: ds, ?_, by rw [List.map_cons, htree, hdtrees, Value.itemTrees]⟩
    rw [List.map_cons, hchars, hdchars, form.items_cons]

theorem Value.exists_memberLayouts (form : Form) : ∀ (level : Nat) (vs : List (String × Value)), ∃ ms : List (Literal × Layout),
    ms.map (memberText form.space) = form.members level vs ∧ ms.map (fun m => (m.1.text?, m.2.tree)) = Value.memberTrees vs
  | _, [] => ⟨[], by cases form <;> rfl, rfl⟩
  | level, (key, v) :: vs => by
    obtain ⟨literal, hkey, htext⟩ := exists_literal key
    obtain ⟨d, hchars, htree⟩ := v.exists_layout form level
    obtain ⟨ms, hmchars, hmtrees⟩ := Value.exists_memberLayouts form level vs
    refine ⟨(literal, d) :: ms, ?_, by rw [List.map_cons, htext, htree, hmtrees, Value.memberTrees]⟩
    rw [List.map_cons, memberText, hkey, hchars, hmchars, form.members_cons]

end

/-- The text of a value. -/
def Form.text (v : Value) : Form → String
  | compact => v.compact
  | pretty => v.pretty

/-- What a reader reads from a value that is written is what the value says. -/
theorem read_text_eq_ok_iff {α : Type} {R : Reader α} {Says : Tree → α → Prop} (h : Reads R Says) (form : Form) (v : Value) (a : α) :
    read R (form.text v) = .ok a ↔ Says v.tree a := by
  obtain ⟨d, hchars, htree⟩ := v.exists_layout form 0
  have htext : (⟨.none, d, .none⟩ : Placed Layout).text = form.text v := by
    rw [Placed.text, hchars]
    cases form <;> simp [Gap.none, Form.chars, Form.text, Value.compact, Value.pretty]
  rw [← htext, ← htree]
  exact read_eq_ok_iff h _ a

end OfflineSigner.Json
