import OfflineSigner.Proofs.Amount
import Mathlib.Tactic.Linarith

/-!
# Which texts are amounts

What can be wrong with an amount, fault by fault and in order (`Fault`), and what it takes for one to be accepted (`Accepted`),
both told of the text without reference to how it is read. Main statement: `parse_outcome`, that what is accepted is read exactly
and all else is refused for its first fault. So an amount is read from each text that writes the same number (`parse_eq_ok_iff`).
-/

namespace OfflineSigner.Amount

open Text

/-! ## Places -/

/-- How many digits stand behind the point of a text, without the zeros at the end. -/
inductive Places : List Char → Nat → Prop where
  | whole {cs : List Char} (hcs : '.' ∉ cs) : Places cs 0
  | point {ws fs : List Char} {zeros : Nat} (hws : '.' ∉ ws) (hlast : fs.getLast? ≠ some '0') :
      Places (ws ++ '.' :: (fs ++ List.replicate zeros '0')) fs.length

theorem getLast?_trimEndZeros (cs : List Char) : (trimEndZeros cs).getLast? ≠ some '0' := by
  rw [trimEndZeros, List.getLast?_reverse]
  intro h
  have hhead := List.head?_dropWhile_not (· == '0') cs.reverse
  rw [h] at hhead
  cases hhead

/-- What does not end in zero is left when zeros at the end are dropped. -/
theorem trimEndZeros_append {fs : List Char} (h : fs.getLast? ≠ some '0') (k : Nat) :
    trimEndZeros (fs ++ List.replicate k '0') = fs := by
  have hzeros : ∀ c ∈ (List.replicate k '0').reverse, (c == '0') = true := by
    intro c hc
    rw [List.eq_of_mem_replicate (List.mem_reverse.mp hc)]
    rfl
  have hself : fs.reverse.dropWhile (· == '0') = fs.reverse := by
    refine List.dropWhile_eq_self_iff.mpr fun hpos hzero => h ?_
    rw [← List.head?_reverse, List.head?_eq_getElem?, List.getElem?_eq_getElem hpos, beq_iff_eq.mp hzero]
  rw [trimEndZeros, List.reverse_append, List.dropWhile_append_of_pos hzeros, hself, List.reverse_reverse]

/-- The places of a text are the digits behind its point that are kept. -/
theorem places_iff {cs : List Char} {n : Nat} : Places cs n ↔ (trimEndZeros (splitPoint cs).2).length = n := by
  constructor
  · rintro (hcs | ⟨hws, hlast⟩)
    · rw [splitPoint_of_notMem hcs]
      rfl
    · rw [splitPoint_append hws, trimEndZeros_append hlast]
  · rintro rfl
    rcases splitPoint_cases cs with ⟨hnone, hsplit⟩ | ⟨ws, rest, rfl, hnone, hsplit⟩
    · rw [hsplit]
      exact .whole hnone
    · obtain ⟨k, hk⟩ := exists_trimEndZeros rest
      have hplaces := @Places.point ws _ k hnone (getLast?_trimEndZeros rest)
      rw [← hk] at hplaces
      rwa [hsplit]

/-- A number that becomes whole when it is scaled has no more places than that. -/
theorem Places.le_of_writes {cs : List Char} {n decimals m : Nat} {q : ℚ} (hplaces : Places cs n) (h : Writes cs q)
    (hq : (m : ℚ) = q * 10 ^ decimals) : n ≤ decimals := by
  cases hplaces with
  | whole hcs => exact Nat.zero_le decimals
  | @point ws fs zeros hws hlast =>
    generalize hcs : ws ++ '.' :: (fs ++ List.replicate zeros '0') = cs at h
    cases h with
    | whole hw hne => exact absurd (by rw [← hcs]; simp) (point_notMem hw)
    | @point ws' rest w f hw hf hne =>
      have hsplit := congrArg splitPoint hcs
      rw [splitPoint_append hws, splitPoint_append (point_notMem hw)] at hsplit
      obtain ⟨rfl, rfl⟩ := Prod.mk.inj hsplit
      obtain ⟨hdigits, rfl⟩ := decimal?_eq_some_iff.mp hf
      by_contra hlt
      obtain ⟨e, he⟩ := Nat.exists_eq_add_of_lt (Nat.not_le.mp hlt)
      have hne : fs ≠ [] := by
        rintro rfl
        cases he
      have hfs : ∀ c ∈ fs, isDigit c = true := fun c hc => hdigits c (List.mem_append_left _ hc)
      -- The places that scaling leaves over are a factor ten of what is no multiple of it.
      have hscaled : m * 10 ^ (e + 1) = w * 10 ^ fs.length + digitsValue fs := by
        have hzeros := @digitsValue_append fs _ fun c hc => hdigits c (List.mem_append_right fs hc)
        rw [digitsValue_replicate, Nat.add_zero, List.length_replicate] at hzeros
        rw [hzeros, List.length_append, List.length_replicate] at hq
        have hpow : (10 : ℚ) ^ decimals * 10 ^ (e + 1) = 10 ^ fs.length := by rw [← pow_add, he, Nat.add_assoc]
        have hq' : (m : ℚ) * 10 ^ (e + 1) = w * 10 ^ fs.length + digitsValue fs := by
          rw [hq, mul_assoc, hpow, pow_add]
          push_cast
          field_simp
        exact_mod_cast hq'
      refine not_dvd_digitsValue hfs hne hlast ?_
      have hleft : 10 ∣ m * 10 ^ (e + 1) := Dvd.dvd.mul_left (dvd_pow_self 10 e.succ_ne_zero) m
      have hright : 10 ∣ w * 10 ^ fs.length := Dvd.dvd.mul_left (dvd_pow_self 10 (by omega)) w
      rw [hscaled] at hleft
      exact (Nat.dvd_add_right hright).mp hleft

/-! ## Faults -/

/-- What can be wrong with an amount, each fault with its place in the order in which they are looked for. -/
inductive Fault (cs : List Char) (decimals : Nat) : Nat → Error → Prop where
  | unit (h : 77 < decimals) : Fault cs decimals 0 (.decimalsTooLarge decimals)
  | blank (h : cs = []) : Fault cs decimals 1 .empty
  | character {before after : List Char} {c : Char} (hcs : cs = before ++ c :: after)
      (hbefore : ∀ d ∈ before, isDigit d = true ∨ d = '.') (hc : ¬(isDigit c = true ∨ c = '.')) :
      Fault cs decimals 2 (.invalidCharacter c)
  | points (h : 2 ≤ cs.count '.') : Fault cs decimals 3 .multipleDecimalPoints
  | digits (h : ∀ c ∈ cs, isDigit c = false) : Fault cs decimals 4 .empty
  | places {n : Nat} (h : Places cs n) (hlt : decimals < n) : Fault cs decimals 5 (.tooManyDecimals n decimals)
  | size {q : ℚ} (h : Writes cs q) (hle : 2 ^ 256 ≤ q * 10 ^ decimals) : Fault cs decimals 6 .overflow

/-- Whether nothing is wrong with an amount before a place in the order. -/
def SoundBefore (cs : List Char) (decimals step : Nat) : Prop := ∀ step' e, Fault cs decimals step' e → step ≤ step'

/-- Whether a fault is the first of those of an amount. -/
inductive FirstFault (cs : List Char) (decimals : Nat) (e : Error) : Prop where
  | intro {step : Nat} (fault : Fault cs decimals step e) (sound : SoundBefore cs decimals step)

theorem soundBefore_zero (cs : List Char) (decimals : Nat) : SoundBefore cs decimals 0 := fun _ _ _ => Nat.zero_le _

theorem SoundBefore.succ {cs : List Char} {decimals step : Nat} (h : SoundBefore cs decimals step)
    (hstep : ∀ e, ¬Fault cs decimals step e) : SoundBefore cs decimals (step + 1) := by
  intro step' e hfault
  refine Nat.lt_of_le_of_ne (h step' e hfault) ?_
  rintro rfl
  exact hstep e hfault

/-- There is one fault at most at a place in the order. -/
theorem Fault.unique {cs : List Char} {decimals step : Nat} {e e' : Error} (h : Fault cs decimals step e)
    (h' : Fault cs decimals step e') : e = e' := by
  cases h with
  | @character before after c hcs hbefore hc =>
    cases h' with
    | @character before' after' c' hcs' hbefore' hc' =>
      have hfind : ∀ {before after : List Char} {c : Char}, cs = before ++ c :: after →
          (∀ d ∈ before, isDigit d = true ∨ d = '.') → ¬(isDigit c = true ∨ c = '.') →
          cs.find? (fun d => decide ¬(isDigit d = true ∨ d = '.')) = some c := by
        intro before after c hcs hbefore hc
        refine List.find?_eq_some_iff_append.mpr ⟨decide_eq_true hc, before, after, hcs, fun d hd => ?_⟩
        simpa using hbefore d hd
      have hsame := (hfind hcs hbefore hc).symm.trans (hfind hcs' hbefore' hc')
      rw [Option.some.inj hsame]
  | places hn hlt =>
    cases h' with
    | places hn' hlt' => rw [← places_iff.mp hn, ← places_iff.mp hn']
  | _ => cases h'; rfl

theorem FirstFault.unique {cs : List Char} {decimals : Nat} {e e' : Error} (h : FirstFault cs decimals e)
    (h' : FirstFault cs decimals e') : e = e' := by
  obtain ⟨hfault, hsound⟩ := h
  obtain ⟨hfault', hsound'⟩ := h'
  obtain rfl := Nat.le_antisymm (hsound _ _ hfault') (hsound' _ _ hfault)
  exact hfault.unique hfault'

/-! ## What is accepted -/

/-- What it takes for a text to be an amount: digits with at most one point among them, not more places than the base units
have, and a number that is below the largest when it is scaled. -/
structure Accepted (cs : List Char) (decimals : Nat) : Prop where
  decimals_le : decimals ≤ 77
  characters : ∀ c ∈ cs, isDigit c = true ∨ c = '.'
  points : cs.count '.' ≤ 1
  digit : ∃ c ∈ cs, isDigit c = true
  places : ∃ n, Places cs n ∧ n ≤ decimals
  size : ∃ q, Writes cs q ∧ q * 10 ^ decimals < 2 ^ 256

/-- Nothing is wrong with what is accepted. -/
theorem Accepted.not_fault {cs : List Char} {decimals step : Nat} {e : Error} (h : Accepted cs decimals) :
    ¬Fault cs decimals step e := by
  obtain ⟨c, hc, hdigit⟩ := h.digit
  intro hfault
  cases hfault with
  | unit hlt => exact absurd h.decimals_le (Nat.not_le.mpr hlt)
  | blank hnil =>
    rw [hnil] at hc
    cases hc
  | @character before after c hcs hbefore hc => exact hc (h.characters c (by rw [hcs]; simp))
  | points hle => exact absurd h.points (Nat.not_le.mpr hle)
  | digits hnone =>
    rw [hnone c hc] at hdigit
    cases hdigit
  | places hn hlt =>
    obtain ⟨n, hplaces, hle⟩ := h.places
    rw [← places_iff.mp hplaces, places_iff.mp hn] at hle
    exact absurd hle (Nat.not_le.mpr hlt)
  | size hwrites hle =>
    obtain ⟨q, hq, hlt⟩ := h.size
    rw [hq.unique hwrites] at hlt
    exact absurd hle (not_le.mpr hlt)

/-- What writes a number has digits, and one point at most. -/
theorem Writes.characters {cs : List Char} {q : ℚ} (h : Writes cs q) :
    (∀ c ∈ cs, isDigit c = true ∨ c = '.') ∧ cs.count '.' ≤ 1 ∧ ∃ c ∈ cs, isDigit c = true := by
  have hcount : ∀ {ds : List Char} {n : Nat}, decimal? ds = some n → ds.count '.' = 0 := fun hn =>
    List.count_eq_zero.mpr (point_notMem hn)
  cases h with
  | @whole ws w hw hne =>
    have hdigits := (decimal?_eq_some_iff.mp hw).1
    obtain ⟨c, hc⟩ := List.exists_mem_of_ne_nil _ hne
    exact ⟨fun c hc => Or.inl (hdigits c hc), by rw [hcount hw]; omega, c, hc, hdigits c hc⟩
  | @point ws fs w f hw hf hne =>
    have hws := (decimal?_eq_some_iff.mp hw).1
    have hfs := (decimal?_eq_some_iff.mp hf).1
    refine ⟨fun c hc => ?_, ?_, ?_⟩
    · rcases List.mem_append.mp hc with hc | hc
      · exact Or.inl (hws c hc)
      · rcases List.mem_cons.mp hc with rfl | hc
        · exact Or.inr rfl
        · exact Or.inl (hfs c hc)
    · rw [List.count_append, List.count_cons_self, hcount hw, hcount hf]
    · rcases hne with hne | hne
      · obtain ⟨c, hc⟩ := List.exists_mem_of_ne_nil ws hne
        exact ⟨c, List.mem_append_left _ hc, hws c hc⟩
      · obtain ⟨c, hc⟩ := List.exists_mem_of_ne_nil fs hne
        exact ⟨c, List.mem_append_right _ (List.mem_cons_of_mem _ hc), hfs c hc⟩

/-- A text that writes a number is accepted when the number scaled is one of base units. -/
theorem Writes.accepted {cs : List Char} {decimals : Nat} {q : ℚ} {w : Word} (h : Writes cs q) (hdecimals : decimals ≤ 77)
    (hq : (w.toNat : ℚ) = q * 10 ^ decimals) : Accepted cs decimals := by
  obtain ⟨hcharacters, hpoints, hdigit⟩ := h.characters
  have hplaces : Places cs (trimEndZeros (splitPoint cs).2).length := places_iff.mpr rfl
  refine ⟨hdecimals, hcharacters, hpoints, hdigit, ⟨_, hplaces, hplaces.le_of_writes h hq⟩, q, h, ?_⟩
  rw [← hq]
  exact_mod_cast w.isLt

/-! ## Reading -/

/-- A second point is found behind the first. -/
theorem count_point_le_iff {cs : List Char} : cs.count '.' ≤ 1 ↔ '.' ∉ (splitPoint cs).2 := by
  rcases splitPoint_cases cs with ⟨hnone, hsplit⟩ | ⟨ws, rest, rfl, hnone, hsplit⟩
  · rw [hsplit, List.count_eq_zero.mpr hnone]
    simp
  · rw [hsplit, List.count_append, List.count_cons_self, List.count_eq_zero.mpr hnone, ← List.count_eq_zero (l := rest)]
    omega

/-- Among digits with one point at most there is none exactly when nothing stands before or behind the point. -/
theorem isDigit_eq_false_iff {cs : List Char} (hcharacters : ∀ c ∈ cs, isDigit c = true ∨ c = '.')
    (hpoint : '.' ∉ (splitPoint cs).2) :
    (∀ c ∈ cs, isDigit c = false) ↔ (splitPoint cs).1 = [] ∧ (splitPoint cs).2 = [] := by
  have hdigit : ∀ {ds : List Char}, (∀ c ∈ ds, c ∈ cs) → '.' ∉ ds → (∀ c ∈ cs, isDigit c = false) → ds = [] := by
    intro ds hsub hnone hfalse
    refine List.eq_nil_iff_forall_not_mem.mpr fun c hc => ?_
    rcases hcharacters c (hsub c hc) with hc' | rfl
    · rw [hfalse c (hsub c hc)] at hc'
      cases hc'
    · exact hnone hc
  rcases splitPoint_cases cs with ⟨hnone, hsplit⟩ | ⟨ws, rest, rfl, hnone, hsplit⟩
  · rw [hsplit]
    constructor
    · intro hfalse
      exact ⟨hdigit (fun _ hc => hc) hnone hfalse, rfl⟩
    · rintro ⟨hcs, -⟩ c hc
      dsimp only at hcs
      rw [hcs] at hc
      cases hc
  · rw [hsplit] at hpoint ⊢
    constructor
    · intro hfalse
      exact ⟨hdigit (fun _ hc => List.mem_append_left _ hc) hnone hfalse,
        hdigit (fun _ hc => List.mem_append_right _ (List.mem_cons_of_mem _ hc)) hpoint hfalse⟩
    · rintro ⟨rfl, rfl⟩ c hc
      rw [List.mem_singleton.mp hc]
      rfl

/-- The fault that is reported of digits and points is the first one. -/
theorem firstFault_of_scale {cs : List Char} {decimals : Nat} {e : Error} (hsound : SoundBefore cs decimals 3)
    (hcharacters : ∀ c ∈ cs, isDigit c = true ∨ c = '.') (h : scale cs decimals = .error e) : FirstFault cs decimals e := by
  unfold scale at h
  dsimp only at h
  split at h
  · rename_i hpoint
    cases h
    refine .intro (.points (Nat.lt_of_not_le fun hle => ?_)) hsound
    exact count_point_le_iff.mp hle (by simpa using hpoint)
  · rename_i hpoint
    have hpoint : '.' ∉ (splitPoint cs).2 := by simpa using hpoint
    have hsound : SoundBefore cs decimals 4 := hsound.succ fun e hfault => by
      cases hfault with
      | points hle => exact absurd (count_point_le_iff.mpr hpoint) (Nat.not_le.mpr hle)
    have hdigits := isDigit_eq_false_iff hcharacters hpoint
    rw [← List.isEmpty_iff, ← List.isEmpty_iff] at hdigits
    split at h
    · rename_i hempty
      cases h
      exact .intro (.digits (hdigits.mpr hempty)) hsound
    · rename_i hempty
      have hsound : SoundBefore cs decimals 5 := hsound.succ fun e hfault => by
        cases hfault with
        | digits hnone => exact hempty (hdigits.mp hnone)
      split at h
      · rename_i hplaces
        cases h
        exact .intro (.places (places_iff.mpr rfl) hplaces) hsound
      · rename_i hplaces
        have hsound : SoundBefore cs decimals 6 := hsound.succ fun e hfault => by
          cases hfault with
          | places hn hlt => exact hplaces (places_iff.mp hn ▸ hlt)
        split at h
        · cases h
        · rename_i hsize
          cases h
          rw [List.isEmpty_iff, List.isEmpty_iff, not_and_or] at hempty
          obtain ⟨q, hq, hscaled⟩ := exists_writes (fun c hc hne => (hcharacters c hc).resolve_right hne) hpoint hempty
            (Nat.not_lt.mp hplaces)
          refine .intro (.size hq ?_) hsound
          rw [← hscaled]
          exact_mod_cast Word.ofNat?_eq_none_iff.mp hsize

/-- The fault that is reported of a text is the first one. -/
theorem firstFault_of_parse {s : String} {decimals : Nat} {e : Error} (h : parse s decimals = .error e) :
    FirstFault (trimChars s.toList) decimals e := by
  have hsound := soundBefore_zero (trimChars s.toList) decimals
  unfold parse at h
  dsimp only at h
  split at h
  · rename_i hlt
    cases h
    exact .intro (.unit hlt) hsound
  · rename_i hlt
    have hsound : SoundBefore (trimChars s.toList) decimals 1 := hsound.succ fun e hfault => by
      cases hfault with
      | unit h => exact hlt h
    split at h
    · rename_i hnil
      cases h
      exact .intro (.blank (List.isEmpty_iff.mp hnil)) hsound
    · rename_i hne
      have hsound : SoundBefore (trimChars s.toList) decimals 2 := hsound.succ fun e hfault => by
        cases hfault with
        | blank h => exact hne (List.isEmpty_iff.mpr h)
      split at h
      · rename_i c hfind
        cases h
        obtain ⟨hc, before, after, hcs, hbefore⟩ := List.find?_eq_some_iff_append.mp hfind
        refine .intro (.character hcs (fun d hd => ?_) ?_) hsound
        · simpa [or_iff_not_imp_left] using hbefore d hd
        · simpa using hc
      · rename_i hfind
        have hcharacters : ∀ c ∈ trimChars s.toList, isDigit c = true ∨ c = '.' := by
          intro c hc
          simpa [or_iff_not_imp_left] using List.find?_eq_none.mp hfind c hc
        refine firstFault_of_scale (hsound.succ fun e hfault => ?_) hcharacters h
        cases hfault with
        | @character before after c hcs hbefore hc => exact hc (hcharacters c (by rw [hcs]; simp))

/-- An amount is read from a text exactly when the text writes a number that is one of base units when it is scaled. -/
theorem parse_eq_ok_iff {s : String} {decimals : Nat} {w : Word} :
    parse s decimals = .ok w ↔
      decimals ≤ 77 ∧ ∃ q, Writes (trimChars s.toList) q ∧ (w.toNat : ℚ) = q * 10 ^ decimals := by
  constructor
  · intro h
    refine ⟨?_, of_parse h⟩
    unfold parse at h
    dsimp only at h
    split at h
    · cases h
    · rename_i hle
      exact Nat.not_lt.mp hle
  · rintro ⟨hdecimals, q, hq, hw⟩
    cases h : parse s decimals with
    | error e =>
      obtain ⟨hfault, -⟩ := firstFault_of_parse h
      exact absurd hfault (hq.accepted hdecimals hw).not_fault
    | ok w' =>
      obtain ⟨q', hq', hw'⟩ := of_parse h
      rw [hq'.unique hq, ← hw] at hw'
      rw [BitVec.eq_of_toNat_eq (Nat.cast_injective hw')]

/-- Reading an amount is exact. A text is read exactly when it is accepted, and what is read is the product of the number that
it writes and the power of ten; every other text is refused for the first of its faults. -/
theorem parse_outcome (s : String) (decimals : Nat) :
    ((∃ w, parse s decimals = .ok w) ↔ Accepted (trimChars s.toList) decimals) ∧
    (∀ w, parse s decimals = .ok w → ∃ q, Writes (trimChars s.toList) q ∧ (w.toNat : ℚ) = q * 10 ^ decimals) ∧
    ∀ e, parse s decimals = .error e ↔ FirstFault (trimChars s.toList) decimals e := by
  refine ⟨⟨?_, fun haccepted => ?_⟩, fun w h => of_parse h, fun e => ⟨firstFault_of_parse, fun hfirst => ?_⟩⟩
  · rintro ⟨w, h⟩
    obtain ⟨hdecimals, q, hq, hw⟩ := parse_eq_ok_iff.mp h
    exact hq.accepted hdecimals hw
  · cases h : parse s decimals with
    | error e =>
      obtain ⟨hfault, -⟩ := firstFault_of_parse h
      exact absurd hfault haccepted.not_fault
    | ok w => exact ⟨w, rfl⟩
  · cases h : parse s decimals with
    | error e' => rw [(firstFault_of_parse h).unique hfirst]
    | ok w =>
      obtain ⟨hdecimals, q, hq, hw⟩ := parse_eq_ok_iff.mp h
      obtain ⟨hfault, -⟩ := hfirst
      exact absurd hfault (hq.accepted hdecimals hw).not_fault

end OfflineSigner.Amount
