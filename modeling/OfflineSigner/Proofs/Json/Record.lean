import Mathlib.Data.List.Pairwise
import OfflineSigner.Proofs.Json.Reads

/-!
# Reading records

A record is told by its slots (`Slot`): for each the names that its member may have, what the member's value says, and where
what is read is kept. From an object a record is read exactly when no member of a slot stands twice and each says what its slot
asks for (`members_eq_ok_iff`), in whatever order and whatever else stands between them; from an array, when the slots are said
in their order.
-/

namespace OfflineSigner.Json

variable {α β σ : Type}

/-! ## Slots -/

/-- A member of a record: its names, what its value says and how it is read, and where in the state of the reading it is kept. -/
structure Slot (σ : Type) where
  {α : Type}
  names : List String
  Says : Tree → α → Prop
  reader : Reader α
  reads : Reads reader Says
  get : σ → Option α
  set : α → σ → σ

/-- Whether two slots have no name in common, and what is kept for one is no matter of the other. -/
structure Slot.Apart (slot slot' : Slot σ) : Prop where
  names : ∀ key ∈ slot.names, key ∉ slot'.names
  get_set : ∀ v st, slot'.get (slot.set v st) = slot'.get st
  set_get : ∀ v st, slot.get (slot'.set v st) = slot.get st

instance : Std.Symm (@Slot.Apart σ) where
  symm _ _ h := ⟨fun key hkey' hkey => h.names key hkey hkey', h.set_get, h.get_set⟩

/-- Whether the keys of a record are read by slots, each on its own. -/
structure Reading (field : σ → String → Option (Reader σ)) (empty : σ) (slots : List (Slot σ)) : Prop where
  known : ∀ slot ∈ slots, ∀ key ∈ slot.names, ∀ st,
    ∃ name, field st key = once (slot.get st) name slot.reader fun v => slot.set v st
  unknown : ∀ st key, (∀ slot ∈ slots, key ∉ slot.names) → field st key = none
  get_empty : ∀ slot ∈ slots, slot.get empty = none
  get_set : ∀ slot ∈ slots, ∀ v st, slot.get (slot.set v st) = some v
  apart : slots.Pairwise Slot.Apart
  ext : ∀ st st', (∀ slot ∈ slots, slot.get st = slot.get st') → st = st'

/-! ## Members of objects -/

/-- The values of the members under some names. -/
def under (names : List String) : List (Option String × Tree) → List Tree
  | [] => []
  | (key, t) :: members => if key.any (names.contains ·) then t :: under names members else under names members

/-- What a member of a record says: nothing where it is missing, else what its one value says. -/
def SaysMember (names : List String) (Says : Tree → α → Prop) (members : List (Option String × Tree)) (a : Option α) : Prop :=
  under names members = [] ∧ a = none ∨ ∃ t v, under names members = [t] ∧ Says t v ∧ a = some v

theorem saysMember_some {names : List String} {Says : Tree → α → Prop} {members : List (Option String × Tree)} {a : α} :
    SaysMember names Says members (some a) ↔ ∃ t, under names members = [t] ∧ Says t a := by
  simp only [SaysMember]
  grind

/-- A member that is said is not there twice. -/
theorem SaysMember.length_le {names : List String} {Says : Tree → α → Prop} {members : List (Option String × Tree)} {o : Option α}
    (h : SaysMember names Says members o) : (under names members).length ≤ 1 := by
  rcases h with ⟨h, -⟩ | ⟨t, v, h, -⟩ <;> rw [h] <;> simp

/-- What is kept for a slot after members of an object, which may say it only where nothing is kept before. -/
def Slot.Keeps (slot : Slot σ) (before : Option slot.α) (members : List (Option String × Tree)) (after : Option slot.α) : Prop :=
  under slot.names members = [] ∧ after = before ∨ before = none ∧ SaysMember slot.names slot.Says members after

theorem Slot.keeps_none {slot : Slot σ} {members : List (Option String × Tree)} {after : Option slot.α} :
    slot.Keeps none members after ↔ SaysMember slot.names slot.Says members after := by
  simp only [Slot.Keeps, SaysMember]
  grind

theorem Slot.keeps_nil {slot : Slot σ} {before after : Option slot.α} : slot.Keeps before [] after ↔ after = before := by
  simp only [Slot.Keeps, SaysMember, under]
  grind

theorem Slot.keeps_cons_of_mem {slot : Slot σ} {key : String} (hkey : key ∈ slot.names) {t : Tree}
    {members : List (Option String × Tree)} {before after : Option slot.α} :
    slot.Keeps before ((some key, t) :: members) after ↔
      before = none ∧ ∃ v, slot.Says t v ∧ slot.Keeps (some v) members after := by
  have hunder : under slot.names ((some key, t) :: members) = t :: under slot.names members := by simp [under, hkey]
  simp only [Slot.Keeps, SaysMember, hunder]
  grind

theorem Slot.keeps_cons_of_notMem {slot : Slot σ} {key : String} (hkey : key ∉ slot.names) {t : Tree}
    {members : List (Option String × Tree)} {before after : Option slot.α} :
    slot.Keeps before ((some key, t) :: members) after ↔ slot.Keeps before members after := by
  have hunder : under slot.names ((some key, t) :: members) = under slot.names members := by simp [under, hkey]
  simp only [Slot.Keeps, SaysMember, hunder]

/-- A key's value is kept where nothing was before. -/
theorem once_eq_ok_iff {R : Reader α} {Says : Tree → α → Prop} (h : Reads R Says) {before : Option α} {name : String}
    {store : α → σ} {value : Reader σ} (hvalue : once before name R store = some value) (gap : Gap) (d : Placed Layout) {rest : List Char}
    (hrest : Stops rest) (st : σ) (cs : List Char) :
    value (gap.chars ++ (':' :: (d.before.chars ++ (d.value.chars ++ rest)))) = .ok (st, cs) ↔
      before = none ∧ ∃ v, Says d.value.tree v ∧ st = store v ∧ cs = rest := by
  obtain rfl := Option.some.inj hvalue
  cases before with
  | some a => exact iff_of_false nofun (by simp)
  | none =>
    change (colon >>= fun _ => R >>= fun v => pure (store v)) _ = _ ↔ _
    rw [Reader.bind_of_ok (colon_eq gap _), Reader.bind_eq_ok_iff]
    simp only [h d.before d.value rest hrest, Reader.pure_eq_ok_iff, Prod.mk.injEq]
    grind

section Members

variable {field : σ → String → Option (Reader σ)} {empty : σ} {slots : List (Slot σ)} (hreading : Reading field empty slots)
include hreading

/-- What is kept for all slots after one more member that one of them knows. -/
theorem Reading.keeps_cons_of_mem {slot : Slot σ} (hslot : slot ∈ slots) {key : String} (hkey : key ∈ slot.names) {t : Tree}
    {members : List (Option String × Tree)} {st st' : σ} :
    (∀ s ∈ slots, s.Keeps (s.get st) ((some key, t) :: members) (s.get st')) ↔
      slot.get st = none ∧ ∃ v, slot.Says t v ∧ ∀ s ∈ slots, s.Keeps (s.get (slot.set v st)) members (s.get st') := by
  have hother : ∀ s ∈ slots, s ≠ slot → key ∉ s.names ∧ ∀ v st, s.get (slot.set v st) = s.get st := by
    intro s hs hne
    have hapart := hreading.apart.forall hslot hs hne.symm
    exact ⟨hapart.names key hkey, hapart.get_set⟩
  constructor
  · intro h
    obtain ⟨hnone, v, hv, hafter⟩ := Slot.keeps_cons_of_mem hkey |>.mp (h slot hslot)
    refine ⟨hnone, v, hv, fun s hs => ?_⟩
    by_cases heq : s = slot
    · subst heq
      rwa [hreading.get_set s hs]
    · rw [(hother s hs heq).2]
      exact (Slot.keeps_cons_of_notMem (hother s hs heq).1).mp (h s hs)
  · rintro ⟨hnone, v, hv, h⟩ s hs
    by_cases heq : s = slot
    · subst heq
      refine (Slot.keeps_cons_of_mem hkey).mpr ⟨hnone, v, hv, ?_⟩
      rw [← hreading.get_set s hs v st]
      exact h s hs
    · rw [Slot.keeps_cons_of_notMem (hother s hs heq).1, ← (hother s hs heq).2 v st]
      exact h s hs

/-- The members of an object are read exactly when their keys are texts and no slot is said twice, in any order. -/
theorem Reading.members_eq_ok_iff {members : List (Placed Literal × Placed Layout)} {count : Nat}
    (hcount : members.length < count) (first : Bool) (gap : Gap) (rest : List Char) (st st' : σ) (cs : List Char) :
    Json.members field count first st (gap.chars ++ (listed first (Layout.memberTexts members) ++ '\x7d' :: rest)) =
        .ok (st', cs) ↔
      ((∀ member ∈ Layout.memberTrees members, member.1 ≠ none) ∧
        ∀ slot ∈ slots, slot.Keeps (slot.get st) (Layout.memberTrees members) (slot.get st')) ∧ cs = '\x7d' :: rest := by
  induction members generalizing count first gap st with
  | nil =>
    obtain ⟨count, rfl⟩ := Nat.exists_eq_add_one_of_ne_zero (Nat.ne_of_gt hcount)
    rw [Json.members, Layout.memberTexts, Reader.bind_of_ok (nextKey_nil gap rest first)]
    simp only [Reader.pure_eq_ok_iff, Prod.mk.injEq, Layout.memberTrees, Slot.keeps_nil, List.not_mem_nil, false_implies,
      implies_true, true_and]
    refine and_congr_left fun _ => ⟨?_, fun h => hreading.ext st' st h⟩
    rintro rfl slot _
    rfl
  | cons member members ih =>
    obtain ⟨count, rfl⟩ := Nat.exists_eq_add_one_of_ne_zero (Nat.ne_of_gt (Nat.zero_lt_of_lt hcount))
    obtain ⟨key, d⟩ := member
    have hstops := (Stops.listed (.inr rfl) (Layout.memberTexts members) rest).gap d.after
    have ih := fun st => ih (show members.length < count from Nat.lt_of_succ_lt_succ hcount) false d.after st
    have hnext := nextKey_cons_eq_ok_iff gap rest first key d members
    rw [Json.members, Layout.memberTrees]
    cases htext : key.value.text? with
    | none =>
      refine iff_of_false (fun h => ?_) fun h => h.1.1 _ List.mem_cons_self rfl
      obtain ⟨_, _, hkey, -⟩ := Reader.bind_eq_ok_iff.mp h
      obtain ⟨s, hs, -⟩ := (hnext _).mp hkey
      rw [htext] at hs
      cases hs
    | some s =>
      have htexts : (∀ member ∈ (some s, d.value.tree) :: Layout.memberTrees members, member.1 ≠ none) ↔
          ∀ member ∈ Layout.memberTrees members, member.1 ≠ none := by simp
      rw [Reader.bind_of_ok ((hnext _).mpr ⟨s, htext, rfl⟩), htexts]
      dsimp only
      -- A slot that has the key takes the value; the value of any other key is skipped and changes nothing for the slots.
      by_cases hknown : ∃ slot ∈ slots, s ∈ slot.names
      · obtain ⟨slot, hslot, hs⟩ := hknown
        obtain ⟨name, hfield⟩ := hreading.known slot hslot s hs st
        rw [hfield, hreading.keeps_cons_of_mem hslot hs]
        dsimp only [once]
        rw [Reader.bind_eq_ok_iff]
        simp only [once_eq_ok_iff slot.reads rfl key.after d hstops]
        grind
      · have hunknown : ∀ slot ∈ slots, s ∉ slot.names := fun slot hslot hs => hknown ⟨slot, hslot, hs⟩
        rw [hreading.unknown st s hunknown]
        dsimp only
        rw [Reader.bind_of_ok (colon_eq key.after _), Reader.bind_of_ok (skip_eq d.value d.before hstops), ih]
        refine and_congr_left' (and_congr_right' ?_)
        exact forall₂_congr fun slot hslot => (Slot.keeps_cons_of_notMem (hunknown slot hslot)).symm

end Members

/-- What the members of an object say of a record: their keys are texts, and each slot is said once or not at all. -/
def SaysMembers (slots : List (Slot σ)) (members : List (Option String × Tree)) (st : σ) : Prop :=
  (∀ member ∈ members, member.1 ≠ none) ∧ ∀ slot ∈ slots, SaysMember slot.names slot.Says members (slot.get st)

theorem Reading.fields_eq_ok_iff {field : σ → String → Option (Reader σ)} {empty : σ} {slots : List (Slot σ)}
    (hreading : Reading field empty slots) (space : Gap) (members : List (Placed Literal × Placed Layout)) (rest : List Char)
    (st : σ) (cs : List Char) :
    fields field empty (space.chars ++ (listed true (Layout.memberTexts members) ++ '\x7d' :: rest)) = .ok (st, cs) ↔
      SaysMembers slots (Layout.memberTrees members) st ∧ cs = '\x7d' :: rest := by
  have hcount : members.length < (space.chars ++ (listed true (Layout.memberTexts members) ++ '\x7d' :: rest)).length + 1 := by
    have := Layout.length_members_le members
    simp only [List.length_append]
    omega
  have hkeeps : ∀ slot ∈ slots, slot.Keeps (slot.get empty) (Layout.memberTrees members) (slot.get st) ↔
      SaysMember slot.names slot.Says (Layout.memberTrees members) (slot.get st) := by
    intro slot hslot
    rw [hreading.get_empty slot hslot, Slot.keeps_none]
  rw [fields, get_bind, hreading.members_eq_ok_iff hcount, SaysMembers, forall₂_congr hkeeps]

/-- What the members of an object say of a record in which any member may be missing. -/
def SaysFilled (slots : List (Slot σ)) (finish : σ → α) (members : List (Option String × Tree)) (a : α) : Prop :=
  ∃ st, SaysMembers slots members st ∧ a = finish st

theorem Reading.filled_eq_ok_iff {field : σ → String → Option (Reader σ)} {empty : σ} {slots : List (Slot σ)}
    (hreading : Reading field empty slots) (finish : σ → α) (space : Gap) (members : List (Placed Literal × Placed Layout))
    (rest : List Char) (a : α) (cs : List Char) :
    (do return finish (← fields field empty) : Reader α)
        (space.chars ++ (listed true (Layout.memberTexts members) ++ '\x7d' :: rest)) = .ok (a, cs) ↔
      SaysFilled slots finish (Layout.memberTrees members) a ∧ cs = '\x7d' :: rest := by
  rw [Reader.bind_eq_ok_iff]
  simp only [hreading.fields_eq_ok_iff, Reader.pure_eq_ok_iff, Prod.mk.injEq, SaysFilled]
  grind

/-- Without members everything is missing. -/
theorem Reading.saysFilled_nil_iff {field : σ → String → Option (Reader σ)} {empty : σ} {slots : List (Slot σ)}
    (hreading : Reading field empty slots) {finish : σ → α} {a : α} : SaysFilled slots finish [] a ↔ a = finish empty := by
  have hnone : ∀ {slot : Slot σ} {o : Option slot.α}, SaysMember slot.names slot.Says [] o ↔ o = none := by
    simp [SaysMember, under]
  have hnil : ∀ st, SaysMembers slots [] st ↔ st = empty := by
    intro st
    simp only [SaysMembers, List.not_mem_nil, false_implies, implies_true, true_and, hnone]
    constructor
    · intro h
      exact hreading.ext st empty fun slot hslot => (h slot hslot).trans (hreading.get_empty slot hslot).symm
    · rintro rfl
      exact hreading.get_empty
  simp only [SaysFilled, hnil, exists_eq_left]

/-- What was read for a field that has to be there. -/
theorem required_eq_ok_iff {name : String} {o : Option α} {cs : List Char} {a : α} {cs' : List Char} :
    required name o cs = .ok (a, cs') ↔ o = some a ∧ cs' = cs := by
  cases o with
  | none => exact iff_of_false nofun (by simp)
  | some b =>
    rw [required, Reader.pure_eq_ok_iff, Prod.mk.injEq, Option.some.injEq, eq_comm]

/-! ## Elements of arrays -/

/-- What the elements left of an array say when the next one is asked for. -/
def NextSays (Says : Tree → α → Prop) (Rest : α → List Tree → β → Prop) (ts : List Tree) (b : β) : Prop :=
  ∃ t ts' a, ts = t :: ts' ∧ Says t a ∧ Rest a ts' b

/-- What the elements left of an array say when the next one may be missing. -/
def NextMaySay (Says : Tree → α → Prop) (Rest : Option α → List Tree → β → Prop) (ts : List Tree) (b : β) : Prop :=
  ts = [] ∧ Rest none [] b ∨ ∃ t ts' a, ts = t :: ts' ∧ Says t a ∧ Rest (some a) ts' b

/-- What is said at the end of an array. -/
def EndSays (a : α) (ts : List Tree) (b : α) : Prop := ts = [] ∧ b = a

/-- Whether a reader takes what is left of an array, with its end. -/
def ReadsElements (first : Bool) (R : Reader α) (Says : List Tree → α → Prop) : Prop :=
  ∀ (gap : Gap) (items : List (Placed Layout)) (rest : List Char) (a : α) (cs : List Char),
    R (gap.chars ++ (listed first (Layout.itemTexts items) ++ ']' :: rest)) = .ok (a, cs) ↔
      Says (Layout.itemTrees items) a ∧ cs = rest

theorem readsElements_end (a : α) : ReadsElements false (do endList; return a) (EndSays a) := by
  intro gap items rest b cs
  cases items with
  | nil =>
    rw [Layout.itemTexts, Reader.bind_of_ok (endList_nil gap rest)]
    simp [Reader.pure_eq_ok_iff, Layout.itemTrees, EndSays]
  | cons d items =>
    refine iff_of_false (fun h => ?_) ?_
    · obtain ⟨_, _, hend, -⟩ := Reader.bind_eq_ok_iff.mp h
      exact endList_cons_ne_ok gap rest d items _ hend
    · simp [Layout.itemTrees, EndSays]

/-- What an element that was asked for has to be. -/
def present (place : Nat) (expected : String) : Option α → Reader α
  | some a => pure a
  | none => throw (.wrongLength place expected)

section Elements

variable {R : Reader α} {Says : Tree → α → Prop} (h : Reads R Says) (place : Nat)
include h

omit h in
theorem elementAt?_nil (gap : Gap) (rest : List Char) :
    elementAt? place R (gap.chars ++ (listed (place == 0) (Layout.itemTexts []) ++ ']' :: rest)) = .ok (none, ']' :: rest) :=
  Reader.bind_of_ok (nextElement_nil gap rest _) _

theorem elementAt?_cons_eq_ok_iff (gap : Gap) (rest : List Char) (d : Placed Layout) (items : List (Placed Layout))
    (o : Option α) (cs : List Char) :
    elementAt? place R (gap.chars ++ (listed (place == 0) (Layout.itemTexts (d :: items)) ++ ']' :: rest)) = .ok (o, cs) ↔
      ∃ a, Says d.value.tree a ∧ o = some a ∧ cs = d.after.chars ++ (listed false (Layout.itemTexts items) ++ ']' :: rest) := by
  have hstops := (Stops.listed (.inl rfl) (Layout.itemTexts items) rest).gap d.after
  rw [elementAt?, Reader.bind_of_ok (nextElement_cons gap rest _ d items), if_pos rfl, Reader.bind_eq_ok_iff]
  simp only [h.here d.value hstops, Reader.pure_eq_ok_iff, Prod.mk.injEq]
  grind

/-- An element that may be missing when the array is at its end. -/
theorem ReadsElements.elementAt? {K : Option α → Reader β} {Rest : Option α → List Tree → β → Prop}
    (hrest : ∀ a, ReadsElements false (K a) (Rest a)) :
    ReadsElements (place == 0) (Json.elementAt? place R >>= K) (NextMaySay Says Rest) := by
  intro gap items rest b cs
  cases items with
  | nil =>
    rw [Reader.bind_of_ok (elementAt?_nil place gap rest)]
    refine (hrest none Gap.none [] rest b cs).trans ?_
    simp [Layout.itemTrees, NextMaySay]
  | cons d items =>
    rw [Reader.bind_eq_ok_iff]
    simp only [elementAt?_cons_eq_ok_iff h place, Layout.itemTrees]
    constructor
    · rintro ⟨_, _, ⟨a, ha, rfl, rfl⟩, hread⟩
      obtain ⟨hb, rfl⟩ := (hrest (some a) _ _ _ _ _).mp hread
      exact ⟨.inr ⟨_, _, a, rfl, ha, hb⟩, rfl⟩
    · rintro ⟨⟨hnil, -⟩ | ⟨t, ts, a, heq, ha, hb⟩, rfl⟩
      · cases hnil
      · obtain ⟨rfl, rfl⟩ := List.cons.inj heq
        exact ⟨_, _, ⟨a, ha, rfl, rfl⟩, (hrest (some a) _ _ _ _ _).mpr ⟨hb, rfl⟩⟩

/-- An element that has to be there. -/
theorem ReadsElements.elementAt (expected : String) {K : α → Reader β} {Rest : α → List Tree → β → Prop}
    (hrest : ∀ a, ReadsElements false (K a) (Rest a)) :
    ReadsElements (place == 0) (Json.elementAt expected place R >>= K) (NextSays Says Rest) := by
  have hpresent : ∀ o : Option α, ReadsElements false (present place expected o >>= K)
      fun ts b => ∃ a, o = some a ∧ Rest a ts b := by
    intro o gap items rest b cs
    cases o with
    | none =>
      refine iff_of_false (fun hread => ?_) (by simp)
      obtain ⟨_, _, hthrow, -⟩ := Reader.bind_eq_ok_iff.mp hread
      exact fails_throw _ _ _ hthrow
    | some a => simpa [present] using hrest a gap items rest b cs
  have hassoc : Json.elementAt expected place R >>= K = Json.elementAt? place R >>= fun o => present place expected o >>= K :=
    bind_assoc (Json.elementAt? place R) (present place expected) K
  rw [hassoc]
  intro gap items rest b cs
  refine (ReadsElements.elementAt? h place hpresent gap items rest b cs).trans ?_
  simp [NextMaySay, NextSays]

end Elements

/-! ## Records -/

/-- What a value says of a record, as an array or as an object. -/
def SaysRecord (OfArray : List Tree → α → Prop) (OfObject : List (Option String × Tree) → α → Prop) (t : Tree) (a : α) : Prop :=
  (∃ ts, t = .array ts ∧ OfArray ts a) ∨ ∃ members, t = .object members ∧ OfObject members a

/-- The end of an object, with what was read from its members. -/
def objectEnd (a : α) : Reader α := do
  match ← peek? with
  | none => throw .eofObject
  | some '\x7d' => eat
  | some ',' => throw .trailingComma
  | some _ => throw .trailingCharacters
  return a

/-- A record is read from an array or an object when each form is read within its brackets. -/
theorem reads_record {ofArray ofObject : Reader α} {OfArray : List Tree → α → Prop}
    {OfObject : List (Option String × Tree) → α → Prop} (name : String)
    (harray : ReadsElements true (do let a ← ofArray; endList; return a) OfArray)
    (hobject : ∀ (space : Gap) members rest a cs,
      ofObject (space.chars ++ (listed true (Layout.memberTexts members) ++ '\x7d' :: rest)) = .ok (a, cs) ↔
        OfObject (Layout.memberTrees members) a ∧ cs = '\x7d' :: rest) :
    Reads (record name ofArray ofObject) (SaysRecord OfArray OfObject) := by
  intro gap d rest hrest a cs
  obtain ⟨c, hc, hpeek⟩ := d.exists_peek
  rw [record, hpeek]
  dsimp only
  split
  · obtain ⟨space, items, rfl⟩ := hc.eq_square_iff.mp ‹_›
    rw [Layout.array_append, eat_bind]
    refine (harray space items rest a cs).trans ?_
    simp [SaysRecord, Layout.tree]
  split
  · obtain ⟨space, members, rfl⟩ := hc.eq_curly_iff.mp ‹_›
    have hlast : ∀ a : α, objectEnd a ('\x7d' :: rest) = .ok (a, rest) := fun a => peek?_bind Gap.none (by decide) _ _
    rw [Layout.object_append, eat_bind, Reader.bind_eq_ok_iff]
    simp only [hobject]
    constructor
    · rintro ⟨a', _, ⟨ha, rfl⟩, hend⟩
      obtain ⟨rfl, rfl⟩ := Prod.mk.inj (Except.ok.inj ((hlast a').symm.trans hend))
      exact ⟨.inr ⟨_, rfl, ha⟩, rfl⟩
    · rintro ⟨⟨ts, htree, -⟩ | ⟨members', htree, ha⟩, rfl⟩
      · cases htree
      · obtain rfl := Tree.object.inj htree
        exact ⟨a, _, ⟨ha, rfl⟩, hlast a⟩
  · rename_i hsquare hcurly
    refine iff_of_false (fails_refuse _ _ _) ?_
    rintro ⟨⟨ts, htree, -⟩ | ⟨members, htree, -⟩, -⟩
    · exact hsquare (hc.eq_square_iff.mpr (Layout.tree_eq_array htree))
    · exact hcurly (hc.eq_curly_iff.mpr (Layout.tree_eq_object htree))

end OfflineSigner.Json
