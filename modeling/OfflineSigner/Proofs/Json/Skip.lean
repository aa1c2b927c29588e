import OfflineSigner.Proofs.Json.Step

/-!
# Skipping values

Values that nothing is read from are skipped whole, however deep they are (`skip_eq`). The brackets that are open are kept on a
stack, so what is told of one step is where it leads within all the brackets around it.
-/

namespace OfflineSigner.Json

/-- Goes on within brackets, after a value or at the start of the innermost, with at most `count` more values. -/
def skipFrom (value : Bool) (count : Nat) (brackets : List Bracket) : Reader Unit := do
  match ← skipClosing value brackets with
  | [] => pure ()
  | top :: below => do
    skipKey top
    skipWithin count (top :: below)

section Start

variable (gap : Gap) (rest : List Char)

/-- Whether a value is no list and no object. -/
def Layout.IsScalar : Layout → Prop
  | .array _ _ => False
  | .object _ _ => False
  | _ => True

theorem skipStart_scalar {d : Layout} (hd : d.IsScalar) (hrest : Stops rest) :
    skipStart (gap.chars ++ (d.chars ++ rest)) = .ok (none, rest) := by
  cases d with
  | null =>
    rw [skipStart, Layout.chars, List.cons_append, peek?_bind gap (by decide)]
    rfl
  | bool b =>
    cases b with
    | true =>
      rw [skipStart, Layout.chars, List.cons_append, peek?_bind gap (by decide)]
      rfl
    | false =>
      rw [skipStart, Layout.chars, List.cons_append, peek?_bind gap (by decide)]
      rfl
  | string literal =>
    have hskip : (fun cs => (skipStringChars cs).map ((), ·) : Reader Unit) (literal.inner ++ rest) = .ok ((), rest) :=
      congrArg (Except.map ((), ·)) (skipStringChars_inner literal rest)
    rw [skipStart, Layout.chars, Literal.chars, List.cons_append, peek?_bind gap (by decide)]
    exact (eat_bind _ _ _).trans (Reader.bind_of_ok hskip _)
  | number n =>
    have hskip : (fun cs => (skipNumber cs).map ((), ·) : Reader Unit) (n.whole.chars ++ (n.tailChars ++ rest)) =
        .ok ((), rest) := congrArg (Except.map ((), ·)) (skipNumber_eq n hrest)
    rw [skipStart, Layout.chars, NumberText.chars, NumberText.signChars]
    cases n.negative with
    | true =>
      rw [if_pos rfl, List.append_assoc, List.append_assoc, List.singleton_append, peek?_bind gap (by decide)]
      exact (eat_bind _ _ _).trans (Reader.bind_of_ok hskip _)
    | false =>
      obtain ⟨c, cs, hchars⟩ := List.exists_cons_of_ne_nil n.whole.ne_nil
      have hc : Text.isDigit c = true := n.whole.digits c (by simp [hchars])
      have hstarts : (Layout.number n).Starts c := .inr hc
      rw [if_neg Bool.false_ne_true, List.nil_append, List.append_assoc, hchars, List.cons_append, peek?_bind gap hstarts.ne.1]
      rw [hchars, List.cons_append] at hskip
      have hne : c ≠ 'n' ∧ c ≠ 't' ∧ c ≠ 'f' ∧ c ≠ '-' :=
        ⟨ne_of_isDigit hc rfl, ne_of_isDigit hc rfl, ne_of_isDigit hc rfl, ne_of_isDigit hc rfl⟩
      simp only [hne.1, hne.2.1, hne.2.2.1, hne.2.2.2, hc, if_false, if_true]
      exact Reader.bind_of_ok hskip _
  | array space items => exact hd.elim
  | object space members => exact hd.elim

theorem skipStart_array (space : Gap) (items : List (Placed Layout)) :
    skipStart (gap.chars ++ ((Layout.array space items).chars ++ rest)) =
      .ok (some .square, space.chars ++ (listed true (Layout.itemTexts items) ++ ']' :: rest)) := by
  rw [skipStart, Layout.array_append, peek?_bind gap (by decide)]
  rfl

theorem skipStart_object (space : Gap) (members : List (Placed Literal × Placed Layout)) :
    skipStart (gap.chars ++ ((Layout.object space members).chars ++ rest)) =
      .ok (some .curly, space.chars ++ (listed true (Layout.memberTexts members) ++ '\x7d' :: rest)) := by
  rw [skipStart, Layout.object_append, peek?_bind gap (by decide)]
  rfl

end Start

section Closing

variable (gap : Gap) (cs : List Char) (top : Bracket) (below : List Bracket)

theorem skipClosing_close (value : Bool) :
    skipClosing value (top :: below) (gap.chars ++ top.close :: cs) = skipClosing true below cs := by
  cases top <;> rw [skipClosing, Bracket.close, peek?_bind gap (by decide)] <;> simp [eat_bind]

theorem skipClosing_comma : skipClosing true (top :: below) (gap.chars ++ ',' :: cs) = .ok (top :: below, cs) := by
  rw [skipClosing, peek?_bind gap (by decide)]
  rfl

theorem skipClosing_first {c : Char} (hspace : isSpace c = false) (hc : c ≠ top.close) :
    skipClosing false (top :: below) (gap.chars ++ c :: cs) = .ok (top :: below, c :: cs) := by
  rw [skipClosing, peek?_bind gap hspace]
  simp only [Bool.false_eq_true, false_and, if_false, hc]
  rfl

/-- A key is skipped with its colon. -/
theorem skipKey_curly (literal : Literal) (after : Gap) :
    skipKey .curly (gap.chars ++ (literal.chars ++ (after.chars ++ ':' :: cs))) = .ok ((), cs) := by
  have hskip : (fun cs => (skipStringChars cs).map ((), ·) : Reader Unit) (literal.inner ++ (after.chars ++ ':' :: cs)) =
      .ok ((), after.chars ++ ':' :: cs) := congrArg (Except.map ((), ·)) (skipStringChars_inner literal _)
  rw [skipKey, Literal.chars, List.cons_append, peek?_bind gap (by decide)]
  exact (eat_bind _ _ _).trans ((Reader.bind_of_ok hskip _).trans (colon_eq after cs))

variable (count : Nat)

theorem skipFrom_close (value : Bool) :
    skipFrom value count (top :: below) (gap.chars ++ top.close :: cs) = skipFrom true count below cs := by
  have hclose := skipClosing_close gap cs top below value
  change (skipClosing value (top :: below) (gap.chars ++ top.close :: cs) >>= _) = _
  rw [hclose]
  rfl

end Closing

theorem skipFrom_next {value : Bool} {count : Nat} {brackets below : List Bracket} {top : Bracket} {cs cs' cs'' : List Char}
    (hopen : skipClosing value brackets cs = .ok (top :: below, cs')) (hkey : skipKey top cs' = .ok ((), cs'')) :
    skipFrom value count brackets cs = skipWithin count (top :: below) cs'' :=
  (Reader.bind_of_ok hopen _).trans (Reader.bind_of_ok hkey _)

mutual

/-- The number of values in a value, with itself. -/
def Layout.nodes : Layout → Nat
  | .array _ items => itemNodes items + 1
  | .object _ members => memberNodes members + 1
  | _ => 1

def Layout.itemNodes : List (Placed Layout) → Nat
  | [] => 0
  | ⟨_, d, _⟩ :: items => d.nodes + itemNodes items

def Layout.memberNodes : List (Placed Literal × Placed Layout) → Nat
  | [] => 0
  | (_, ⟨_, d, _⟩) :: members => d.nodes + memberNodes members

end

theorem Layout.nodes_pos (d : Layout) : 0 < d.nodes := by
  cases d <;> exact Nat.succ_pos _

theorem skipWithin_scalar {count : Nat} {brackets : List Bracket} {cs cs' : List Char} (h : skipStart cs = .ok (none, cs')) :
    skipWithin (count + 1) brackets cs = skipFrom true count brackets cs' := Reader.bind_of_ok h _

theorem skipWithin_open {count : Nat} {brackets : List Bracket} {cs cs' : List Char} {top : Bracket}
    (h : skipStart cs = .ok (some top, cs')) : skipWithin (count + 1) brackets cs = skipFrom false count (top :: brackets) cs' :=
  Reader.bind_of_ok h _

mutual

/-- A value is skipped to its end, wherever it stands. -/
theorem skipWithin_layout (d : Layout) (gap : Gap) {rest : List Char} (hrest : Stops rest) (count : Nat)
    (brackets : List Bracket) :
    skipWithin (count + d.nodes) brackets (gap.chars ++ (d.chars ++ rest)) = skipFrom true count brackets rest := by
  cases d with
  | array space items =>
    rw [Layout.nodes, ← Nat.add_assoc, skipWithin_open (skipStart_array gap rest space items)]
    exact skipFrom_items items false space hrest count brackets
  | object space members =>
    rw [Layout.nodes, ← Nat.add_assoc, skipWithin_open (skipStart_object gap rest space members)]
    exact skipFrom_members members false space hrest count brackets
  | null => exact skipWithin_scalar (skipStart_scalar gap rest trivial hrest)
  | bool b => exact skipWithin_scalar (skipStart_scalar gap rest trivial hrest)
  | number n => exact skipWithin_scalar (skipStart_scalar gap rest trivial hrest)
  | string literal => exact skipWithin_scalar (skipStart_scalar gap rest trivial hrest)

theorem skipFrom_items (items : List (Placed Layout)) (value : Bool) (gap : Gap) {rest : List Char} (hrest : Stops rest)
    (count : Nat) (brackets : List Bracket) :
    skipFrom value (count + Layout.itemNodes items) (.square :: brackets)
      (gap.chars ++ (listed (!value) (Layout.itemTexts items) ++ ']' :: rest)) = skipFrom true count brackets rest := by
  match items with
  | [] =>
    rw [Layout.itemTexts, listed_nil]
    exact skipFrom_close gap rest .square brackets _ value
  | ⟨before, d, after⟩ :: items =>
    have hstops := (Stops.listed (.inl rfl) (Layout.itemTexts items) rest).gap after
    rw [Layout.itemTexts, Layout.itemNodes, Nat.add_comm d.nodes, ← Nat.add_assoc]
    -- Behind a comma the spaces are still there, at the start they are not.
    cases value with
    | true =>
      simp only [Bool.not_true, listed_false_cons, List.cons_append, List.append_assoc]
      rw [skipFrom_next (skipClosing_comma gap _ _ _) rfl, skipWithin_layout d before hstops]
      exact skipFrom_items items true after hrest count brackets
    | false =>
      obtain ⟨c, cs, hchars, hc⟩ := d.exists_start
      have hfirst : ∀ cs', skipClosing false (.square :: brackets) (gap.chars ++ (before.chars ++ (d.chars ++ cs'))) =
          .ok (.square :: brackets, d.chars ++ cs') := by
        intro cs'
        rw [← List.append_assoc, hchars]
        exact skipClosing_first (gap.append before) (cs ++ cs') .square brackets hc.ne.1 hc.ne.2.2.1
      simp only [Bool.not_false, listed_true_cons, List.append_assoc]
      rw [skipFrom_next (hfirst _) rfl]
      exact (skipWithin_layout d Gap.none hstops _ _).trans (skipFrom_items items true after hrest count brackets)

theorem skipFrom_members (members : List (Placed Literal × Placed Layout)) (value : Bool) (gap : Gap) {rest : List Char}
    (hrest : Stops rest) (count : Nat) (brackets : List Bracket) :
    skipFrom value (count + Layout.memberNodes members) (.curly :: brackets)
      (gap.chars ++ (listed (!value) (Layout.memberTexts members) ++ '\x7d' :: rest)) = skipFrom true count brackets rest := by
  match members with
  | [] =>
    rw [Layout.memberTexts, listed_nil]
    exact skipFrom_close gap rest .curly brackets _ value
  | (⟨before, key, after⟩, ⟨before', d, after'⟩) :: members =>
    have hstops := (Stops.listed (.inr rfl) (Layout.memberTexts members) rest).gap after'
    rw [Layout.memberTexts, Layout.memberNodes, Nat.add_comm d.nodes, ← Nat.add_assoc]
    cases value with
    | true =>
      simp only [Bool.not_true, listed_false_cons, List.cons_append, List.append_assoc]
      rw [skipFrom_next (skipClosing_comma gap _ _ _) (skipKey_curly before _ key after), skipWithin_layout d before' hstops]
      exact skipFrom_members members true after' hrest count brackets
    | false =>
      have hfirst : ∀ cs, skipClosing false (.curly :: brackets) (gap.chars ++ (before.chars ++ (key.chars ++ cs))) =
          .ok (.curly :: brackets, key.chars ++ cs) := by
        intro cs
        rw [← List.append_assoc]
        exact skipClosing_first (gap.append before) (key.inner ++ cs) .curly brackets (by decide) (by decide)
      simp only [Bool.not_false, listed_true_cons, List.cons_append, List.append_assoc]
      rw [skipFrom_next (hfirst _) (skipKey_curly Gap.none _ key after), skipWithin_layout d before' hstops]
      exact skipFrom_members members true after' hrest count brackets

end

theorem length_flatten_le_listed (first : Bool) (pieces : List (List Char)) :
    pieces.flatten.length ≤ (listed first pieces).length := by
  induction pieces generalizing first with
  | nil => simp
  | cons piece pieces ih =>
    have := ih false
    cases first with
    | true => simpa [listed_true_cons] using this
    | false =>
      rw [listed_false_cons, List.flatten_cons, List.length_cons, List.length_append, List.length_append]
      omega

mutual

/-- Each value takes a character. -/
theorem Layout.nodes_le_length (d : Layout) : d.nodes ≤ d.chars.length := by
  cases d with
  | array space items =>
    have := itemNodes_le_length items
    have := length_flatten_le_listed true (itemTexts items)
    have := congrArg List.length (array_append space items [])
    simp only [List.append_nil, List.length_cons, List.length_append, List.length_nil] at this
    rw [nodes]
    omega
  | object space members =>
    have := memberNodes_le_length members
    have := length_flatten_le_listed true (memberTexts members)
    have := congrArg List.length (object_append space members [])
    simp only [List.append_nil, List.length_cons, List.length_append, List.length_nil] at this
    rw [nodes]
    omega
  | null => decide
  | bool b => cases b <;> decide
  | number n =>
    obtain ⟨c, cs, hchars, -⟩ := n.exists_start
    rw [chars, hchars]
    exact Nat.le_add_left 1 _
  | string literal => exact Nat.le_add_left 1 _

theorem Layout.itemNodes_le_length (items : List (Placed Layout)) : itemNodes items ≤ (itemTexts items).flatten.length := by
  match items with
  | [] => exact Nat.zero_le _
  | ⟨before, d, after⟩ :: items =>
    have := d.nodes_le_length
    have := itemNodes_le_length items
    simp only [itemNodes, itemTexts, List.flatten_cons, List.length_append]
    omega

theorem Layout.memberNodes_le_length (members : List (Placed Literal × Placed Layout)) :
    memberNodes members ≤ (memberTexts members).flatten.length := by
  match members with
  | [] => exact Nat.zero_le _
  | (key, ⟨before, d, after⟩) :: members =>
    have := d.nodes_le_length
    have := memberNodes_le_length members
    simp only [memberNodes, memberTexts, List.flatten_cons, List.length_append]
    omega

end

/-- Elements take a character each, and so do members. -/
theorem Layout.length_items_le (items : List (Placed Layout)) : items.length ≤ (listed true (itemTexts items)).length := by
  have hnodes : items.length ≤ itemNodes items := by
    induction items with
    | nil => exact le_rfl
    | cons d items ih =>
      have := d.value.nodes_pos
      rw [List.length_cons, itemNodes]
      omega
  exact hnodes.trans ((itemNodes_le_length items).trans (length_flatten_le_listed true _))

theorem Layout.length_members_le (members : List (Placed Literal × Placed Layout)) :
    members.length ≤ (listed true (memberTexts members)).length := by
  have hnodes : members.length ≤ memberNodes members := by
    induction members with
    | nil => exact le_rfl
    | cons member members ih =>
      obtain ⟨key, d⟩ := member
      have := d.value.nodes_pos
      rw [List.length_cons, memberNodes]
      omega
  exact hnodes.trans ((memberNodes_le_length members).trans (length_flatten_le_listed true _))

/-- A value is skipped to its end. -/
theorem skip_eq (d : Layout) (gap : Gap) {rest : List Char} (hrest : Stops rest) :
    skip (gap.chars ++ (d.chars ++ rest)) = .ok ((), rest) := by
  have hle := d.nodes_le_length
  have hlength : (gap.chars ++ (d.chars ++ rest)).length + 1 =
      (gap.chars ++ (d.chars ++ rest)).length + 1 - d.nodes + d.nodes := by
    simp only [List.length_append]
    omega
  rw [skip, get_bind, hlength, skipWithin_layout d gap hrest]
  rfl

end OfflineSigner.Json
