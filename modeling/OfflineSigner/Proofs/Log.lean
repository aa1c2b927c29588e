import Mathlib.Data.Bool.AllAny
import OfflineSigner.Log
import OfflineSigner.Proofs.Text

/-!
# What log lines show

A line is made by calls that add fields (`line?`). Main statements: a line is the same for all secrets of one size, and for all
ASCII addresses of one length with the same ends (`line_hides`); and there is a line exactly when no character of a value stands
across an offset at which the value is cut (`line_exists_iff`). ASCII values always have one, others may not
(`line_cut_within_character`).
-/

namespace OfflineSigner

namespace Text

/-! ## Cuts -/

/-- ASCII characters take a byte each. -/
theorem utf8Size_of_ascii {cs : List Char} (h : ∀ c ∈ cs, c.toNat < 128) : utf8Size cs = cs.length := by
  rw [← length_utf8Chars, utf8Chars_of_ascii h, List.length_map]

/-- A cut gives the two parts of a text of which the first has the given size. -/
theorem cut?_eq_some_iff {offset : Nat} {cs left right : List Char} :
    cut? offset cs = some (left, right) ↔ left ++ right = cs ∧ utf8Size left = offset := by
  induction cs generalizing offset left with
  | nil =>
    cases offset with
    | zero =>
      constructor
      · intro h
        cases h
        exact ⟨rfl, rfl⟩
      · rintro ⟨happend, -⟩
        obtain ⟨rfl, rfl⟩ := List.append_eq_nil_iff.mp happend
        rfl
    | succ offset =>
      simp only [cut?, reduceCtorEq, List.append_eq_nil_iff, false_iff]
      rintro ⟨⟨rfl, -⟩, hsize⟩
      cases hsize
  | cons c cs ih =>
    have hpos := c.utf8Size_pos
    cases left with
    | nil => cases offset <;> simp [cut?, utf8Size, eq_comm]
    | cons c' left =>
      cases offset with
      | zero =>
        simp only [cut?, utf8Size, List.cons_append, List.cons.injEq, Option.some.injEq, Prod.mk.injEq, reduceCtorEq,
          false_and, false_iff]
        rintro ⟨⟨rfl, -⟩, hsize⟩
        omega
      | succ offset =>
        rw [cut?]
        split
        · simp only [Option.map_eq_some_iff, List.cons_append, List.cons.injEq, utf8Size]
          constructor
          · rintro ⟨⟨left', right'⟩, hcut, h⟩
            cases h
            obtain ⟨happend, hsize⟩ := ih.mp hcut
            refine ⟨⟨rfl, happend⟩, ?_⟩
            dsimp only
            omega
          · rintro ⟨⟨rfl, happend⟩, hsize⟩
            exact ⟨(left, right), ih.mpr ⟨happend, by omega⟩, rfl⟩
        · simp only [reduceCtorEq, List.cons_append, List.cons.injEq, utf8Size, false_iff]
          rintro ⟨⟨rfl, -⟩, hsize⟩
          omega

/-- Whether a text can be cut after a number of bytes: a character ends there, or the text starts. -/
def Boundary (offset : Nat) (cs : List Char) : Prop := ∃ left right, left ++ right = cs ∧ utf8Size left = offset

theorem isSome_cut?_iff {offset : Nat} {cs : List Char} : (cut? offset cs).isSome = true ↔ Boundary offset cs := by
  simp only [Option.isSome_iff_exists, Prod.exists, cut?_eq_some_iff, Boundary]

/-- ASCII texts are cut where characters are counted. -/
theorem cut?_of_ascii {offset : Nat} {cs : List Char} (h : ∀ c ∈ cs, c.toNat < 128) (hle : offset ≤ cs.length) :
    cut? offset cs = some (cs.take offset, cs.drop offset) := by
  refine cut?_eq_some_iff.mpr ⟨List.take_append_drop offset cs, ?_⟩
  rw [utf8Size_of_ascii fun c hc => h c (List.mem_of_mem_take hc), List.length_take, Nat.min_eq_left hle]

/-- What is trimmed off leaves only characters of the text. -/
theorem mem_of_mem_trimChars {cs : List Char} {c : Char} (h : c ∈ trimChars cs) : c ∈ cs := by
  rw [trimChars, trimRight, List.mem_reverse] at h
  exact (List.dropWhile_suffix _).mem (List.mem_reverse.mp ((List.dropWhile_suffix _).mem h))

end Text

namespace Log

open Text

/-! ## Classes of keys -/

/-- Whether the lower case of a key has one of the words in it. -/
def HasWord (words : List String) (key : String) : Prop :=
  ∃ word ∈ words, word.toList <:+: key.toList.map lowerChar

theorem occursIn_iff {word cs : List Char} : occursIn word cs = true ↔ word <:+: cs := by
  induction cs with
  | nil => simp [occursIn]
  | cons c cs ih => rw [occursIn, Bool.or_eq_true, List.isPrefixOf_iff_prefix, ih, List.infix_cons_iff]

theorem mentions_iff {words : List String} {key : String} : mentions words key = true ↔ HasWord words key := by
  simp only [mentions, List.any_eq_true, occursIn_iff, HasWord]

/-- The keys of secrets are those with a word of secrets, whatever other words they have. -/
theorem classOf_of_secret {key : String} (h : HasWord secretWords key) : classOf key = .secret :=
  if_pos (mentions_iff.mpr h)

theorem classOf_of_address {key : String} (hsecret : ¬HasWord secretWords key) (h : HasWord addressWords key) :
    classOf key = .address := by
  rw [classOf, if_neg (mt mentions_iff.mp hsecret), if_pos (mentions_iff.mpr h)]

/-! ## Calls -/

/-- A call that adds a field to a line: one shown by its key, or one that is not shown whatever its key. -/
inductive Call where
  | field (key value : String)
  | secretField (key value : String)

/-- The line after a call. -/
def Entry.call? (entry : Entry) : Call → Option Entry
  | .field key value => entry.field? key value
  | .secretField key value => some (entry.secretField key value)

/-- The text of the line that calls make. -/
def line? (level : Level) (module message : String) (calls : List Call) : Option String :=
  (calls.foldlM Entry.call? { level, module, message }).map Entry.text

/-! ## What is seen of values -/

/-- What an address has to share with another to be shown the same: the length and the ends of what is left without the blanks
around it. -/
structure SameEnds (value value' : String) : Prop where
  ascii : ∀ c ∈ value.toList, c.toNat < 128
  ascii' : ∀ c ∈ value'.toList, c.toNat < 128
  length : (trimChars value.toList).length = (trimChars value'.toList).length
  first : (trimChars value.toList).take 8 = (trimChars value'.toList).take 8
  last : (trimChars value.toList).rtake 4 = (trimChars value'.toList).rtake 4

/-- Whether two calls differ at most in what a line is not to show. -/
inductive Alike : Call → Call → Prop where
  /-- The same call. -/
  | same (call : Call) : Alike call call
  /-- Values of one size that are not shown. -/
  | hidden (key : String) {value value' : String} (hsize : utf8Size value.toList = utf8Size value'.toList) :
    Alike (.secretField key value) (.secretField key value')
  /-- Values of one size under a key of secrets. -/
  | secret {key value value' : String} (hkey : HasWord secretWords key)
    (hsize : utf8Size value.toList = utf8Size value'.toList) : Alike (.field key value) (.field key value')
  /-- Values with the same ends under a key of addresses. -/
  | address {key value value' : String} (hkey : ¬HasWord secretWords key) (haddress : HasWord addressWords key)
    (hends : SameEnds value value') : Alike (.field key value) (.field key value')

/-- Of a masked value only the size is seen. -/
theorem masked_congr {value value' : String} (h : utf8Size value.toList = utf8Size value'.toList) :
    masked value = masked value' := by
  rw [masked, masked, h]

theorem isMarked_iff {cs : List Char} : isMarked cs = true ↔ cs.take 2 = ['0', 'x'] := by
  unfold isMarked
  split
  · simp
  · rename_i hne
    simp only [Bool.false_eq_true, false_iff]
    intro h
    refine hne (cs.drop 2) ?_
    rw [← List.take_append_drop 2 cs, h]
    rfl

/-- The ends of an ASCII text, by counting characters. -/
theorem ends?_of_ascii {first last : Nat} {cs : List Char} (h : ∀ c ∈ cs, c.toNat < 128) (hfirst : first ≤ cs.length) :
    ends? first last cs = some (String.ofList (cs.take first ++ ['.', '.', '.'] ++ cs.rtake last)) := by
  rw [ends?, cut?_of_ascii h hfirst, utf8Size_of_ascii h, cut?_of_ascii h (Nat.sub_le _ _)]
  rfl

/-- Of an ASCII address only the ends and the length are seen. -/
theorem SameEnds.shownAddress?_eq {value value' : String} (h : SameEnds value value') :
    shownAddress? value = shownAddress? value' := by
  have hascii : ∀ c ∈ trimChars value.toList, c.toNat < 128 := fun c hc => h.ascii c (mem_of_mem_trimChars hc)
  have hascii' : ∀ c ∈ trimChars value'.toList, c.toNat < 128 := fun c hc => h.ascii' c (mem_of_mem_trimChars hc)
  have hlength := h.length
  have hfirst := h.first
  have hlast := h.last
  rw [shownAddress?, shownAddress?]
  generalize trimChars value.toList = cs at *
  generalize trimChars value'.toList = cs' at *
  have htake : ∀ n ≤ 8, cs.take n = cs'.take n := by
    intro n hn
    rw [← Nat.min_eq_left hn, ← List.take_take, hfirst, List.take_take]
  have hmarked : isMarked cs = isMarked cs' := by
    rw [Bool.eq_iff_iff, isMarked_iff, isMarked_iff, htake 2 (by decide)]
  have hempty : cs.isEmpty = cs'.isEmpty := by
    rw [Bool.eq_iff_iff, List.isEmpty_iff_length_eq_zero, List.isEmpty_iff_length_eq_zero, hlength]
  rw [utf8Size_of_ascii hascii, utf8Size_of_ascii hascii', hmarked, hempty, hlength]
  have hle : (if isMarked cs' then 8 else 6) ≤ 8 := by split <;> decide
  generalize (if isMarked cs' then 8 else 6) = first at hle ⊢
  split
  · rfl
  · split
    · rfl
    · rw [ends?_of_ascii hascii (by omega), ends?_of_ascii hascii' (by omega), htake first hle, hlast]

theorem Alike.call?_eq {call call' : Call} (h : Alike call call') (entry : Entry) : entry.call? call = entry.call? call' := by
  cases h with
  | same => rfl
  | hidden key hsize => simp only [Entry.call?, Entry.secretField, masked_congr hsize]
  | secret hkey hsize => simp only [Entry.call?, Entry.field?, shown?, classOf_of_secret hkey, masked_congr hsize]
  | address hkey haddress hends =>
    simp only [Entry.call?, Entry.field?, shown?, classOf_of_address hkey haddress, hends.shownAddress?_eq]

/-- What a run of calls makes does not depend on what differs in each. -/
theorem foldlM_call?_eq {calls calls' : List Call} (h : List.Forall₂ Alike calls calls') (entry : Entry) :
    calls.foldlM Entry.call? entry = calls'.foldlM Entry.call? entry := by
  induction h generalizing entry with
  | nil => rfl
  | cons hcall _ ih =>
    rw [List.foldlM_cons, List.foldlM_cons, hcall.call?_eq]
    exact bind_congr ih

/-- A line depends on the values of secrets through their sizes alone, however often and under whatever keys of secrets they
are given, and on ASCII addresses through their lengths and ends alone: with others of these there is the same line, or none
for both. -/
theorem line_hides {calls calls' : List Call} (h : List.Forall₂ Alike calls calls') (level : Level) (module message : String) :
    line? level module message calls = line? level module message calls' := by
  rw [line?, line?, foldlM_call?_eq h]

/-- Calls with a secret under a key of both kinds, a value that is not shown, and an address with blanks around it. -/
def sampleCalls : List Call :=
  [.field "seed_address" "abandon", .secretField "pin" "1234", .field "inputs" "2",
    .field "to" " 0x3535350000000000000000000000000000003535 "]

/-- The same with others in their places. -/
def sampleCallsRevealed : List Call :=
  [.field "seed_address" "ability", .secretField "pin" "0é0", .field "inputs" "2",
    .field "to" "0x3535351111111111111111111111111111113535"]

/-- The two samples make one line, in which nothing tells them apart. -/
theorem line_hides_sample :
    List.Forall₂ Alike sampleCalls sampleCallsRevealed ∧
      line? .info "tx" "msg" sampleCalls = line? .info "tx" "msg" sampleCallsRevealed ∧
      line? .info "tx" "msg" sampleCallsRevealed =
        some "INFO [tx] msg | seed_address=[REDACTED:7chars] pin=[REDACTED] inputs=2 to=0x353535...3535" := by
  have hsecret : HasWord secretWords "seed_address" := mentions_iff.mp (by decide)
  have haddress : ¬HasWord secretWords "to" ∧ HasWord addressWords "to" :=
    ⟨mt mentions_iff.mpr (by decide), mentions_iff.mp (by decide)⟩
  have hends : SameEnds " 0x3535350000000000000000000000000000003535 " "0x3535351111111111111111111111111111113535" :=
    ⟨List.all_iff_forall_prop.mp rfl, List.all_iff_forall_prop.mp rfl, by decide, by decide, by decide⟩
  have halike : List.Forall₂ Alike sampleCalls sampleCallsRevealed :=
    .cons (.secret hsecret (by decide)) (.cons (.hidden "pin" (by decide)) (.cons (.same _)
      (.cons (.address haddress.1 haddress.2 hends) .nil)))
  exact ⟨halike, line_hides halike .info "tx" "msg", by decide⟩

/-! ## Where values are cut -/

/-- The size of what is shown of the start of an address. -/
def addressStart (cs : List Char) : Nat := if isMarked cs then 8 else 6

/-- The size of what is shown of the start of a hash. -/
def hashStart (cs : List Char) : Nat := if isMarked cs then 12 else 10

theorem hashStart_le (cs : List Char) : hashStart cs ≤ 12 := by
  unfold hashStart
  split <;> decide

/-- The offsets in bytes at which the value of a key is cut: the end of what is shown of its start, and the start of what is
shown of its end. -/
def cuts (key value : String) : List Nat :=
  let cs := trimChars value.toList
  match classOf key with
  | .address => if utf8Size cs ≤ addressStart cs + 7 then [] else [addressStart cs, utf8Size cs - 4]
  | .hash => if utf8Size cs ≤ 20 then [] else [hashStart cs, utf8Size cs - 6]
  | _ => []

/-- Cuts are within the value. -/
theorem le_of_mem_cuts {key value : String} {offset : Nat} (h : offset ∈ cuts key value) :
    offset ≤ utf8Size (trimChars value.toList) := by
  have hstart := hashStart_le (trimChars value.toList)
  unfold cuts at h
  dsimp only at h
  split at h
  · split at h
    · simp at h
    · simp only [List.mem_cons, List.not_mem_nil, or_false] at h
      omega
  · split at h
    · simp at h
    · simp only [List.mem_cons, List.not_mem_nil, or_false] at h
      omega
  · simp at h

theorem isSome_ends?_iff {first last : Nat} {cs : List Char} :
    (ends? first last cs).isSome = true ↔ Boundary first cs ∧ Boundary (utf8Size cs - last) cs := by
  rw [← isSome_cut?_iff, ← isSome_cut?_iff, ends?]
  cases cut? first cs with
  | none => simp
  | some parts => cases cut? (utf8Size cs - last) cs <;> simp

theorem shownAddress?_eq (value : String) : shownAddress? value =
    if (trimChars value.toList).isEmpty then some "[EMPTY]"
    else if utf8Size (trimChars value.toList) ≤ addressStart (trimChars value.toList) + 7 then
      some (maskedOfSize (utf8Size (trimChars value.toList)))
    else ends? (addressStart (trimChars value.toList)) 4 (trimChars value.toList) := rfl

theorem shownHash?_eq (value : String) : shownHash? value =
    if utf8Size (trimChars value.toList) ≤ 20 then some (String.ofList (trimChars value.toList))
    else ends? (hashStart (trimChars value.toList)) 6 (trimChars value.toList) := rfl

/-- A value has a shown form when no character stands across a cut. -/
theorem isSome_shown?_iff {key value : String} :
    (shown? key value).isSome = true ↔ ∀ offset ∈ cuts key value, Boundary offset (trimChars value.toList) := by
  unfold shown? cuts
  cases classOf key with
  | secret => simp
  | «open» => simp
  | hash =>
    rw [shownHash?_eq]
    by_cases hsize : utf8Size (trimChars value.toList) ≤ 20
    · simp [hsize]
    · simp [hsize, isSome_ends?_iff]
  | address =>
    rw [shownAddress?_eq]
    by_cases hempty : trimChars value.toList = []
    · simp [hempty, utf8Size]
    · by_cases hsize : utf8Size (trimChars value.toList) ≤ addressStart (trimChars value.toList) + 7
      · simp [hempty, hsize]
      · simp [hempty, hsize, isSome_ends?_iff]

/-- Whether no character of a call's value stands across a cut. -/
def Call.Whole : Call → Prop
  | .field key value => ∀ offset ∈ cuts key value, Boundary offset (trimChars value.toList)
  | .secretField _ _ => True

/-- The value that a call is given. -/
def Call.value : Call → String
  | .field _ value => value
  | .secretField _ value => value

theorem isSome_call?_iff (entry : Entry) {call : Call} : (entry.call? call).isSome = true ↔ call.Whole := by
  cases call with
  | field key value => rw [Entry.call?, Entry.field?, Option.isSome_map, isSome_shown?_iff, Call.Whole]
  | secretField key value => simp [Entry.call?, Call.Whole]

/-- Calls make a line when each of them does. -/
theorem isSome_foldlM_call?_iff {entry : Entry} {calls : List Call} :
    (calls.foldlM Entry.call? entry).isSome = true ↔ ∀ call ∈ calls, call.Whole := by
  induction calls generalizing entry with
  | nil => simp
  | cons call calls ih =>
    rw [List.foldlM_cons, List.forall_mem_cons, ← isSome_call?_iff entry]
    cases entry.call? call with
    | none => simp
    | some entry' => simpa using ih

/-- The characters of an ASCII value stand across no cut. -/
theorem Call.whole_of_ascii {call : Call} (h : ∀ c ∈ call.value.toList, c.toNat < 128) : call.Whole := by
  cases call with
  | secretField key value => exact trivial
  | field key value =>
    intro offset hoffset
    have hascii : ∀ c ∈ trimChars value.toList, c.toNat < 128 := fun c hc => h c (mem_of_mem_trimChars hc)
    have hle := le_of_mem_cuts hoffset
    rw [utf8Size_of_ascii hascii] at hle
    rw [← isSome_cut?_iff, cut?_of_ascii hascii hle]
    rfl

/-- There is a line exactly when no character of a value stands across an offset at which the value is cut. Every cut is within
the value that is cut, and where all values are ASCII there is a line. -/
theorem line_exists_iff (level : Level) (module message : String) (calls : List Call) :
    ((∃ text, line? level module message calls = some text) ↔ ∀ call ∈ calls, call.Whole) ∧
    (∀ key value, ∀ offset ∈ cuts key value, offset ≤ utf8Size (trimChars value.toList)) ∧
    ((∀ call ∈ calls, ∀ c ∈ call.value.toList, c.toNat < 128) → ∃ text, line? level module message calls = some text) := by
  have hiff : (∃ text, line? level module message calls = some text) ↔ ∀ call ∈ calls, call.Whole := by
    rw [← Option.isSome_iff_exists, line?, Option.isSome_map, isSome_foldlM_call?_iff]
  exact ⟨hiff, fun key value offset => le_of_mem_cuts, fun h => hiff.mpr fun call hcall => Call.whole_of_ascii (h call hcall)⟩

/-- The cut before the last four bytes of this address is within its `é`. -/
theorem line_cut_within_character :
    line? .info "tx::evm" "msg" [.field "recipient" "aaaaaaaaaaaaaaaéaaa"] = none := by decide

/-- An ASCII hash is cut within itself, and its line exists. -/
theorem line_exists_sample :
    (12 ∈ cuts "txid" "0xb00771c6acc9d84e503edb1c" ∧ 12 ≤ utf8Size (trimChars "0xb00771c6acc9d84e503edb1c".toList)) ∧
      ∃ text, line? .info "tx" "msg" [.field "txid" "0xb00771c6acc9d84e503edb1c"] = some text := by
  obtain ⟨-, hle, hascii⟩ := line_exists_iff .info "tx" "msg" [.field "txid" "0xb00771c6acc9d84e503edb1c"]
  have hcut : 12 ∈ cuts "txid" "0xb00771c6acc9d84e503edb1c" := by decide
  exact ⟨⟨hcut, hle _ _ 12 hcut⟩, hascii (List.forall_mem_singleton.mpr (List.all_iff_forall_prop.mp rfl))⟩

end Log

end OfflineSigner
