import OfflineSigner.Proofs.Json.Skip

/-!
# Reading values

What it is for a reader to read what values say (`Reads`): on every layout it succeeds exactly with what the tree of the layout
says, and ends where the value does. The readers of scalars, lists and choices are told in this way, each by a relation between
trees and what is read; `read_eq_ok_iff` takes it to whole texts.
-/

namespace OfflineSigner.Json

variable {α β : Type}

/-! ## Kinds by their first character -/

section Kinds

variable {d : Layout} {c : Char}

theorem Layout.Starts.eq_null_iff (h : d.Starts c) : c = 'n' ↔ d = .null := by
  rcases d with _ | ⟨_ | _⟩ | _ | _ | _ | _ <;> simp_all [Layout.Starts, Text.isDigit, Text.digit?]
  rintro rfl
  simp at h

theorem Layout.Starts.eq_true_iff (h : d.Starts c) : c = 't' ↔ d = .bool true := by
  rcases d with _ | ⟨_ | _⟩ | _ | _ | _ | _ <;> simp_all [Layout.Starts, Text.isDigit, Text.digit?]
  rintro rfl
  simp at h

theorem Layout.Starts.eq_false_iff (h : d.Starts c) : c = 'f' ↔ d = .bool false := by
  rcases d with _ | ⟨_ | _⟩ | _ | _ | _ | _ <;> simp_all [Layout.Starts, Text.isDigit, Text.digit?]
  rintro rfl
  simp at h

theorem Layout.Starts.eq_quote_iff (h : d.Starts c) : c = '"' ↔ ∃ literal, d = .string literal := by
  rcases d with _ | ⟨_ | _⟩ | _ | _ | _ | _ <;> simp_all [Layout.Starts, Text.isDigit, Text.digit?]
  rintro rfl
  simp at h

theorem Layout.Starts.eq_square_iff (h : d.Starts c) : c = '[' ↔ ∃ space items, d = .array space items := by
  rcases d with _ | ⟨_ | _⟩ | _ | _ | _ | _ <;> simp_all [Layout.Starts, Text.isDigit, Text.digit?]
  rintro rfl
  simp at h

theorem Layout.Starts.eq_curly_iff (h : d.Starts c) : c = '\x7b' ↔ ∃ space members, d = .object space members := by
  rcases d with _ | ⟨_ | _⟩ | _ | _ | _ | _ <;> simp_all [Layout.Starts, Text.isDigit, Text.digit?]
  rintro rfl
  simp at h

theorem Layout.Starts.digit_iff (h : d.Starts c) : c = '-' ∨ Text.isDigit c = true ↔ ∃ n, d = .number n := by
  rcases d with _ | ⟨_ | _⟩ | _ | _ | _ | _ <;> simp_all [Layout.Starts, Text.isDigit, Text.digit?]

theorem Layout.tree_eq_null (h : d.tree = .null) : d = .null := by
  cases d <;> simp_all [Layout.tree]

theorem Layout.tree_eq_bool {b : Bool} (h : d.tree = .bool b) : d = .bool b := by
  rcases d with _ | ⟨_ | _⟩ | _ | _ | _ | _ <;> simp_all [Layout.tree]

theorem Layout.tree_eq_number {n : NumberText} (h : d.tree = .number n) : d = .number n := by
  cases d <;> simp_all [Layout.tree]

theorem Layout.tree_eq_string {s : Option String} (h : d.tree = .string s) : ∃ literal, d = .string literal := by
  cases d <;> simp_all [Layout.tree]

theorem Layout.tree_eq_array {ts : List Tree} (h : d.tree = .array ts) : ∃ space items, d = .array space items := by
  cases d <;> simp_all [Layout.tree]

theorem Layout.tree_eq_object {ms : List (Option String × Tree)} (h : d.tree = .object ms) :
    ∃ space members, d = .object space members := by
  cases d <;> simp_all [Layout.tree]

end Kinds

/-- Whether a reader reads from values what they say, however they are written. -/
def Reads (R : Reader α) (Says : Tree → α → Prop) : Prop :=
  ∀ (gap : Gap) (d : Layout) (rest : List Char), Stops rest → ∀ a cs,
    R (gap.chars ++ (d.chars ++ rest)) = .ok (a, cs) ↔ Says d.tree a ∧ cs = rest

/-- Without spaces in front. -/
theorem Reads.here {R : Reader α} {Says : Tree → α → Prop} (h : Reads R Says) (d : Layout) {rest : List Char} (hrest : Stops rest)
    {a : α} {cs : List Char} : R (d.chars ++ rest) = .ok (a, cs) ↔ Says d.tree a ∧ cs = rest := h Gap.none d rest hrest a cs

/-! ## Scalars -/

/-- Whether a value is a text. -/
def SaysText (t : Tree) (s : String) : Prop := t = .string (some s)

theorem reads_string : Reads string SaysText := by
  intro gap d rest hrest a cs
  obtain ⟨c, hc, hpeek⟩ := d.exists_peek
  rw [string, hpeek]
  dsimp only
  split
  · obtain ⟨literal, rfl⟩ := hc.eq_quote_iff.mp ‹_›
    refine (stringBody_eq_ok_iff rest literal _).trans ?_
    simp only [SaysText, Layout.tree, Tree.string.injEq, Prod.mk.injEq]
    grind
  · rename_i hne
    refine iff_of_false (fails_refuse _ _ _) ?_
    rintro ⟨htext, -⟩
    exact hne (hc.eq_quote_iff.mpr (Layout.tree_eq_string htext))

/-- Whether a value is a natural number as its digits. -/
def SaysNatural (t : Tree) (v : Nat) : Prop := ∃ n : NumberText, t = .number n ∧ n.Natural v

/-- Whether a value is an integer as its digits, behind a sign where it is negative. -/
def SaysInteger (t : Tree) (v : Int) : Prop := ∃ n : NumberText, t = .number n ∧ n.Integer v

theorem saysInteger_natCast_iff {t : Tree} {v : Nat} : SaysInteger t v ↔ SaysNatural t v := by
  simp only [SaysInteger, SaysNatural, NumberText.integer_natCast_iff]

/-- Integers within bounds of 64 bits are read from their digits, and from nothing else. -/
theorem reads_integer {low high : Int} (hlow : minInteger ≤ low) (hhigh : high < UInt64.size) (expected : String) :
    Reads (integer low high expected) fun t i => SaysInteger t i ∧ low ≤ i ∧ i ≤ high := by
  intro gap d rest hrest i cs
  obtain ⟨c, hc, hpeek⟩ := d.exists_peek
  rw [integer, hpeek]
  dsimp only
  split
  · obtain ⟨n, rfl⟩ := hc.digit_iff.mp ‹_›
    rw [Reader.bind_eq_ok_iff]
    constructor
    · rintro ⟨x, cs', hx, hi⟩
      obtain ⟨rfl, hinteger⟩ := numberBody_eq_ok hrest hx
      cases x with
      | float text => exact absurd hi (fails_throw _ _ _)
      | integer i' =>
        dsimp only at hi
        split at hi
        · rename_i hrange
          obtain ⟨rfl, rfl⟩ := Prod.mk.inj (Reader.pure_eq_ok_iff.mp hi)
          exact ⟨⟨⟨n, rfl, hinteger i rfl⟩, hrange⟩, rfl⟩
        · exact absurd hi (fails_throw _ _ _)
    · rintro ⟨⟨⟨n', hn', hi⟩, hrange⟩, rfl⟩
      obtain rfl := Tree.number.inj hn'
      refine ⟨_, _, numberBody_integer hi (hlow.trans hrange.1) (hrange.2.trans_lt hhigh) hrest, ?_⟩
      dsimp only
      rw [if_pos hrange]
      rfl
  · rename_i hne
    refine iff_of_false (fails_refuse _ _ _) ?_
    rintro ⟨⟨⟨n, hn, -⟩, -⟩, -⟩
    exact hne (hc.digit_iff.mpr ⟨n, Layout.tree_eq_number hn⟩)

theorem Reads.map {R : Reader α} {Says : Tree → α → Prop} (h : Reads R Says) (f : α → β) :
    Reads (do return f (← R)) fun t b => ∃ a, Says t a ∧ b = f a := by
  intro gap d rest hrest b cs
  rw [Reader.bind_eq_ok_iff]
  simp only [h gap d rest hrest, Reader.pure_eq_ok_iff, Prod.mk.injEq]
  grind

theorem Reads.congr {R : Reader α} {Says Says' : Tree → α → Prop} (h : Reads R Says) (ha : ∀ t a, Says t a ↔ Says' t a) :
    Reads R Says' := fun gap d rest hrest a cs => (h gap d rest hrest a cs).trans (and_congr_left' (ha d.tree a))

theorem reads_uint64 : Reads uint64 fun t w => SaysNatural t w.toNat := by
  refine ((reads_integer (by decide) (by decide) "u64").map fun m => UInt64.ofNat m.toNat).congr fun t w => ?_
  simp only [← saysInteger_natCast_iff]
  constructor
  · rintro ⟨m, ⟨hm, hlow, hhigh⟩, rfl⟩
    obtain ⟨v, rfl⟩ := Int.eq_ofNat_of_zero_le hlow
    rwa [Int.toNat_natCast, UInt64.toNat_ofNat_of_lt' (Nat.lt_succ_of_le (Int.ofNat_le.mp hhigh))]
  · intro h
    exact ⟨_, ⟨h, Int.natCast_nonneg _, Int.ofNat_le.mpr (Nat.le_of_lt_succ w.toNat_lt)⟩, by simp⟩

theorem reads_uint32 : Reads uint32 fun t w => SaysNatural t w.toNat := by
  refine ((reads_integer (by decide) (by decide) "u32").map fun m => UInt32.ofNat m.toNat).congr fun t w => ?_
  simp only [← saysInteger_natCast_iff]
  constructor
  · rintro ⟨m, ⟨hm, hlow, hhigh⟩, rfl⟩
    obtain ⟨v, rfl⟩ := Int.eq_ofNat_of_zero_le hlow
    rwa [Int.toNat_natCast, UInt32.toNat_ofNat_of_lt' (Nat.lt_succ_of_le (Int.ofNat_le.mp hhigh))]
  · intro h
    exact ⟨_, ⟨h, Int.natCast_nonneg _, Int.ofNat_le.mpr (Nat.le_of_lt_succ w.toNat_lt)⟩, by simp⟩

theorem reads_int32 : Reads int32 fun t w => SaysInteger t w.toInt := by
  refine ((reads_integer (by decide) (by decide) "i32").map Int32.ofInt).congr fun t w => ?_
  constructor
  · rintro ⟨i, ⟨hi, hlow, hhigh⟩, rfl⟩
    rwa [Int32.toInt_ofInt_of_le hlow (by omega)]
  · intro h
    have hlow := w.minValue_le_toInt
    have hhigh := w.toInt_lt
    exact ⟨_, ⟨h, hlow, by omega⟩, w.ofInt_toInt.symm⟩

/-- Whether a value is a truth value. -/
def SaysBool (t : Tree) (b : Bool) : Prop := t = .bool b

theorem reads_bool : Reads bool SaysBool := by
  intro gap d rest hrest b cs
  obtain ⟨c, hc, hpeek⟩ := d.exists_peek
  rw [bool, hpeek]
  dsimp only
  split
  · obtain rfl := hc.eq_true_iff.mp ‹_›
    have hword : (do eat; word ['r', 'u', 'e']; return true : Reader Bool) ((Layout.bool true).chars ++ rest) =
        .ok (true, rest) := rfl
    rw [hword]
    simp only [Except.ok.injEq, Prod.mk.injEq, SaysBool, Layout.tree, Tree.bool.injEq, eq_comm]
  split
  · obtain rfl := hc.eq_false_iff.mp ‹_›
    have hword : (do eat; word ['a', 'l', 's', 'e']; return false : Reader Bool) ((Layout.bool false).chars ++ rest) =
        .ok (false, rest) := rfl
    rw [hword]
    simp only [Except.ok.injEq, Prod.mk.injEq, SaysBool, Layout.tree, Tree.bool.injEq, eq_comm]
  · rename_i htrue hfalse
    refine iff_of_false (fails_refuse _ _ _) ?_
    rintro ⟨hb, -⟩
    cases b with
    | true => exact htrue (hc.eq_true_iff.mpr (Layout.tree_eq_bool hb))
    | false => exact hfalse (hc.eq_false_iff.mpr (Layout.tree_eq_bool hb))

/-- Whether a value is null and nothing is said, or it is another and says something. -/
def SaysOptional (Says : Tree → α → Prop) (t : Tree) (a : Option α) : Prop :=
  t = .null ∧ a = none ∨ t ≠ .null ∧ ∃ v, Says t v ∧ a = some v

/-- Only null starts as null does, so what is no null is read as a value that has to be there. -/
theorem Reads.optional {R : Reader α} {Says : Tree → α → Prop} (h : Reads R Says) : Reads (optional R) (SaysOptional Says) := by
  intro gap d rest hrest a cs
  obtain ⟨c, hc, hpeek⟩ := d.exists_peek
  rw [Json.optional, hpeek]
  simp only [Option.some.injEq]
  split
  · obtain rfl := hc.eq_null_iff.mp ‹_›
    have hnull : (do eat; word ['u', 'l', 'l']; return none : Reader (Option α)) (Layout.null.chars ++ rest) =
        .ok (none, rest) := rfl
    rw [hnull]
    simp only [Except.ok.injEq, Prod.mk.injEq, SaysOptional, Layout.tree]
    grind
  · rename_i hne
    have hnull : d.tree ≠ .null := fun htree => hne (hc.eq_null_iff.mpr (Layout.tree_eq_null htree))
    rw [Reader.bind_eq_ok_iff]
    simp only [h.here d hrest, Reader.pure_eq_ok_iff, Prod.mk.injEq, SaysOptional]
    grind

/-! ## Lists -/

theorem elements_eq_ok_iff {R : Reader α} {Says : Tree → α → Prop} (h : Reads R Says) {items : List (Placed Layout)} {count : Nat}
    (hcount : items.length < count) (first : Bool) (gap : Gap) (rest : List Char) (as : List α) (cs : List Char) :
    elements R count first (gap.chars ++ (listed first (Layout.itemTexts items) ++ ']' :: rest)) = .ok (as, cs) ↔
      List.Forall₂ Says (Layout.itemTrees items) as ∧ cs = ']' :: rest := by
  induction items generalizing count first gap as with
  | nil =>
    obtain ⟨count, rfl⟩ := Nat.exists_eq_add_one_of_ne_zero (Nat.ne_of_gt hcount)
    rw [elements, Layout.itemTexts, Reader.bind_of_ok (nextElement_nil gap rest first), if_neg nofun, Reader.pure_eq_ok_iff,
      Layout.itemTrees, List.forall₂_nil_left_iff, Prod.mk.injEq]
  | cons d items ih =>
    obtain ⟨count, rfl⟩ := Nat.exists_eq_add_one_of_ne_zero (Nat.ne_of_gt (Nat.zero_lt_of_lt hcount))
    have hstops := (Stops.listed (.inl rfl) (Layout.itemTexts items) rest).gap d.after
    have ih := fun as => ih (show items.length < count from Nat.lt_of_succ_lt_succ hcount) false d.after as
    rw [elements, Reader.bind_of_ok (nextElement_cons gap rest first d items), if_pos rfl, Reader.bind_eq_ok_iff,
      Layout.itemTrees, List.forall₂_cons_left_iff]
    simp only [h.here d.value hstops, Reader.bind_eq_ok_iff, Reader.pure_eq_ok_iff, Prod.mk.injEq]
    constructor
    · rintro ⟨a, _, ⟨ha, rfl⟩, as', cs', helements, rfl, rfl⟩
      obtain ⟨has, rfl⟩ := (ih as').mp helements
      exact ⟨⟨a, as', ha, has, rfl⟩, rfl⟩
    · rintro ⟨⟨a, as', ha, has, rfl⟩, rfl⟩
      exact ⟨a, _, ⟨ha, rfl⟩, as', _, (ih as').mpr ⟨has, rfl⟩, rfl, rfl⟩

/-- Whether a value is an array of what is said one by one. -/
def SaysList (Says : Tree → α → Prop) (t : Tree) (as : List α) : Prop := ∃ ts, t = .array ts ∧ List.Forall₂ Says ts as

/-- A list is read element by element, up to its last. -/
theorem Reads.list {R : Reader α} {Says : Tree → α → Prop} (h : Reads R Says) : Reads (list R) (SaysList Says) := by
  intro gap d rest hrest as cs
  obtain ⟨c, hc, hpeek⟩ := d.exists_peek
  rw [Json.list, hpeek]
  dsimp only
  split
  · obtain ⟨space, items, rfl⟩ := hc.eq_square_iff.mp ‹_›
    have hcount : items.length < (space.chars ++ (listed true (Layout.itemTexts items) ++ ']' :: rest)).length + 1 := by
      have := Layout.length_items_le items
      simp only [List.length_append]
      omega
    have hlast : endList (']' :: rest) = .ok ((), rest) := endList_nil Gap.none rest
    rw [Layout.array_append, eat_bind, get_bind, Reader.bind_eq_ok_iff]
    simp only [elements_eq_ok_iff h hcount, SaysList, Layout.tree, Tree.array.injEq]
    constructor
    · rintro ⟨as', _, ⟨has, rfl⟩, hend⟩
      rw [Reader.bind_of_ok hlast, Reader.pure_eq_ok_iff] at hend
      obtain ⟨rfl, rfl⟩ := Prod.mk.inj hend
      exact ⟨⟨_, rfl, has⟩, rfl⟩
    · rintro ⟨⟨_, rfl, has⟩, rfl⟩
      exact ⟨as, _, ⟨has, rfl⟩, Reader.bind_of_ok hlast _⟩
  · rename_i hne
    refine iff_of_false (fails_refuse _ _ _) ?_
    rintro ⟨⟨ts, hts, -⟩, -⟩
    exact hne (hc.eq_square_iff.mpr (Layout.tree_eq_array hts))

/-! ## Choices -/

/-- Whether a value names a choice: by a text, or by an object with the name as its only key and null as its value. -/
def SaysChoice (ofName? : String → Option α) (t : Tree) (a : α) : Prop :=
  ∃ name, ofName? name = some a ∧ (t = .string (some name) ∨ t = .object [(some name, .null)])

/-- The choice of a name. -/
def named (names : List String) (ofName? : String → Option α) (s : String) : Reader α :=
  match ofName? s with
  | some a => pure a
  | none => throw (.unknownVariant s names)

/-- The rest of a choice behind its key. -/
def choiceEnd (a : α) : Reader α := do
  colon
  match ← peek? with
  | none => throw .eofValue
  | some 'n' => do eat; word ['u', 'l', 'l']
  | some _ => refuse "unit"
  match ← peek? with
  | none => throw .eofObject
  | some '\x7d' => eat
  | some _ => throw .expectedValue
  return a

section Choices

variable {names : List String} {ofName? : String → Option α}

theorem named_eq_ok_iff {s : String} {cs : List Char} {x : α × List Char} :
    named names ofName? s cs = .ok x ↔ ∃ a, ofName? s = some a ∧ x = (a, cs) := by
  unfold named
  cases ofName? s with
  | none => exact iff_of_false nofun (by simp)
  | some a => simp [Reader.pure_eq_ok_iff]

theorem choiceEnd_eq_ok_iff (gap : Gap) (d : Placed Layout) (members : List (Placed Literal × Placed Layout))
    (rest : List Char) (a : α) (x : α × List Char) :
    choiceEnd a (gap.chars ++ (':' :: (d.before.chars ++ (d.value.chars ++ (d.after.chars ++
      (listed false (Layout.memberTexts members) ++ '\x7d' :: rest)))))) = .ok x ↔
      d.value = .null ∧ members = [] ∧ x = (a, rest) := by
  obtain ⟨before, d, after⟩ := d
  obtain ⟨c, hc, hpeek⟩ := d.exists_peek
  rw [choiceEnd, Reader.bind_of_ok (colon_eq gap _), hpeek]
  by_cases hn : c = 'n'
  · subst hn
    obtain rfl := hc.eq_null_iff.mp rfl
    have hnull : ∀ cs, Layout.null.chars ++ cs = 'n' :: 'u' :: 'l' :: 'l' :: cs := fun cs => rfl
    have hword : ∀ cs, word ['u', 'l', 'l'] ('u' :: 'l' :: 'l' :: cs) = .ok ((), cs) := fun cs => rfl
    simp only
    rw [hnull, eat_bind, Reader.bind_of_ok (hword _)]
    cases members with
    | nil =>
      rw [Layout.memberTexts, listed_nil, List.nil_append, peek?_bind after (by decide)]
      simp only
      rw [eat_bind, Reader.pure_eq_ok_iff]
      simp
    | cons member members =>
      rw [Layout.memberTexts, listed_false_cons, List.cons_append, peek?_bind after (by decide)]
      exact iff_of_false nofun (by simp)
  · refine iff_of_false ?_ fun h => hn (hc.eq_null_iff.mpr h.1)
    simp only
    intro h
    obtain ⟨_, cs, hrefuse, -⟩ := Reader.bind_eq_ok_iff.mp h
    exact fails_refuse _ _ _ hrefuse

/-- In an object, a choice is the key of the first member. -/
theorem choice_object (gap space : Gap) (key : Placed Literal) (d : Placed Layout)
    (members : List (Placed Literal × Placed Layout)) (rest : List Char) :
    choice names ofName? (gap.chars ++ ((Layout.object space ((key, d) :: members)).chars ++ rest)) =
      (stringBody >>= fun s => named names ofName? s >>= choiceEnd)
        (key.value.chars ++ (key.after.chars ++ (':' :: (d.before.chars ++ (d.value.chars ++ (d.after.chars ++
          (listed false (Layout.memberTexts members) ++ '\x7d' :: rest))))))) := by
  obtain ⟨before, key, after⟩ := key
  have hkey : ∀ cs, key.chars ++ cs = '"' :: (key.inner ++ cs) := fun cs => rfl
  have hspace : ∀ cs, space.chars ++ (before.chars ++ cs) = (space.append before).chars ++ cs := fun cs =>
    (List.append_assoc _ _ _).symm
  rw [choice, Layout.object_append, peek?_bind gap (by decide)]
  dsimp only
  rw [if_neg (by decide), if_pos rfl, eat_bind]
  simp only [Layout.memberTexts, listed_true_cons, List.append_assoc, List.cons_append]
  rw [hspace, hkey, peek?_bind (space.append before) (by decide)]
  rfl

/-- A choice is read from a name, as a text or as a key. -/
theorem reads_choice : Reads (choice names ofName?) (SaysChoice ofName?) := by
  intro gap d rest hrest a cs
  obtain ⟨c, hc, hpeek⟩ := d.exists_peek
  by_cases hquote : c = '"'
  · obtain ⟨literal, rfl⟩ := hc.eq_quote_iff.mp hquote
    have hstring : choice names ofName? (gap.chars ++ ((Layout.string literal).chars ++ rest)) =
        (stringBody >>= named names ofName?) (literal.chars ++ rest) := peek?_bind gap (by decide) _ _
    rw [hstring, Reader.bind_eq_ok_iff]
    simp only [stringBody_eq_ok_iff, named_eq_ok_iff, SaysChoice, Layout.tree, Tree.string.injEq, Prod.mk.injEq]
    grind
  by_cases hcurly : c = '\x7b'
  · obtain ⟨space, members, rfl⟩ := hc.eq_curly_iff.mp hcurly
    cases members with
    | nil =>
      rw [choice, Layout.object_append, peek?_bind gap (by decide)]
      dsimp only
      rw [if_neg (by decide), if_pos rfl, eat_bind, Layout.memberTexts, listed_nil, List.nil_append, peek?_bind space (by decide)]
      refine iff_of_false nofun ?_
      rintro ⟨⟨name, -, htree | htree⟩, -⟩ <;> cases htree
    | cons member members =>
      obtain ⟨key, d⟩ := member
      rw [choice_object, Reader.bind_eq_ok_iff]
      simp only [stringBody_eq_ok_iff, Reader.bind_eq_ok_iff, named_eq_ok_iff]
      constructor
      · rintro ⟨name, _, ⟨_, htext, heq⟩, _, _, ⟨a', ha, heq'⟩, hend⟩
        obtain ⟨rfl, rfl⟩ := Prod.mk.inj heq
        obtain ⟨rfl, rfl⟩ := Prod.mk.inj heq'
        obtain ⟨hnull, hnil, heq⟩ := (choiceEnd_eq_ok_iff ..).mp hend
        obtain ⟨rfl, rfl⟩ := Prod.mk.inj heq
        refine ⟨⟨name, ha, .inr ?_⟩, rfl⟩
        simp only [Layout.tree, Layout.memberTrees, hnull, hnil, htext]
      · rintro ⟨⟨name, ha, htree | htree⟩, rfl⟩
        · cases htree
        · obtain ⟨hmember, hnil⟩ := List.cons.inj (Tree.object.inj htree)
          obtain ⟨htext, hnull⟩ := Prod.mk.inj hmember
          refine ⟨name, _, ⟨name, htext, rfl⟩, a, _, ⟨a, ha, rfl⟩, (choiceEnd_eq_ok_iff ..).mpr ?_⟩
          refine ⟨Layout.tree_eq_null hnull, ?_, rfl⟩
          cases members with
          | nil => rfl
          | cons member members => cases hnil
  · rw [choice, hpeek]
    simp only [hquote, hcurly, if_false]
    refine iff_of_false (fails_throw _ _ _) ?_
    rintro ⟨⟨name, -, htree | htree⟩, -⟩
    · exact hquote (hc.eq_quote_iff.mpr (Layout.tree_eq_string htree))
    · exact hcurly (hc.eq_curly_iff.mpr (Layout.tree_eq_object htree))

end Choices

/-! ## Whole texts -/

/-- What a reader reads from values it reads from whole texts, and nothing from texts that say nothing for it. -/
theorem read_eq_ok_iff {R : Reader α} {Says : Tree → α → Prop} (h : Reads R Says) (d : Placed Layout) (a : α) :
    read R d.text = .ok a ↔ Says d.value.tree a := by
  have hstops : Stops (d.after.chars ++ []) := Stops.gap d.after nofun
  have hspaces : d.after.chars.dropWhile isSpace = [] := List.dropWhile_eq_nil_iff.mpr d.after.spaces
  have hread := h d.before d.value _ hstops
  have htext : d.text.toList = d.before.chars ++ (d.value.chars ++ (d.after.chars ++ [])) := by
    simp [Placed.text]
  unfold read
  rw [htext]
  cases hR : R (d.before.chars ++ (d.value.chars ++ (d.after.chars ++ []))) with
  | error e =>
    refine iff_of_false nofun fun ha => ?_
    rw [(hread a _).mpr ⟨ha, rfl⟩] at hR
    cases hR
  | ok x =>
    obtain ⟨a', cs⟩ := x
    obtain ⟨ha, rfl⟩ := (hread a' cs).mp hR
    change (if ((d.after.chars ++ []).dropWhile isSpace).isEmpty then Except.ok a' else _) = _ ↔ _
    rw [List.append_nil, hspaces, List.isEmpty_nil, if_pos rfl, Except.ok.injEq]
    constructor
    · rintro rfl
      exact ha
    · intro ha'
      rw [(hread a _).mpr ⟨ha', rfl⟩] at hR
      cases hR
      rfl

end OfflineSigner.Json
