import OfflineSigner.Proofs.Hex

/-!
# Numerals

What it is for characters to be a numeral of a number, told by the digits that the number has in the base (`Numeral`), without
reference to how they are read. Main statements: characters, at least one, are read as a number exactly when they are a numeral of
it, in decimal (`decimal?_eq_some_iff_numeral`) and in hexadecimal (`hexadecimal?_eq_some_iff_numeral`).
-/

namespace OfflineSigner.Text

/-- Whether characters are a numeral of a number: its digits in the base, letters among them in either case, behind any number of
zeros. -/
def Numeral (base : Nat) (cs : List Char) (n : Nat) : Prop :=
  ∃ zeros, cs.map Char.toLower = List.replicate zeros '0' ++ Nat.toDigits base n

/-! ## The digits of a number -/

/-- The digits of a number write it. -/
theorem exists_toDigits {base : Nat} (hbase : 1 < base) (n : Nat) :
    ∃ ds : List Nat, ds ≠ [] ∧ (∀ d ∈ ds, d < base) ∧ Nat.toDigits base n = ds.map Nat.digitChar ∧ ofDigits base ds = n := by
  induction n using Nat.strong_induction_on with
  | _ n ih =>
    by_cases hn : n < base
    · exact ⟨[n], by simp, by simp [hn], Nat.toDigits_of_lt_base hn, by simp [ofDigits]⟩
    · have hle := Nat.not_lt.mp hn
      obtain ⟨ds, -, hds, hdigits, hvalue⟩ := ih (n / base) (Nat.div_lt_self (by omega) hbase)
      refine ⟨ds ++ [n % base], by simp, ?_, ?_, ?_⟩
      · intro d hd
        rcases List.mem_append.mp hd with hd | hd
        · exact hds d hd
        · rw [List.mem_singleton.mp hd]
          exact Nat.mod_lt n (by omega)
      · rw [Nat.toDigits_of_base_le hbase hle, hdigits, List.map_append]
        rfl
      · rw [ofDigits_snoc, hvalue, Nat.div_add_mod]

/-- Digits are those of the number that they write, behind zeros. -/
theorem exists_map_digitChar {base : Nat} (hbase : 1 < base) {ds : List Nat} (hne : ds ≠ []) (hds : ∀ d ∈ ds, d < base) :
    ∃ zeros, ds.map Nat.digitChar = List.replicate zeros '0' ++ Nat.toDigits base (ofDigits base ds) := by
  -- On the last digit, which is the lowest.
  induction ds using List.reverseRecOn with
  | nil => exact absurd rfl hne
  | append_singleton ds d ih =>
    have hd : d < base := hds d (by simp)
    have hlast := Nat.toDigits_of_lt_base hd
    rw [List.map_append, ofDigits_snoc]
    by_cases hnil : ds = []
    · exact ⟨0, by simp [hnil, ofDigits, hlast]⟩
    · obtain ⟨zeros, hzeros⟩ := ih hnil fun d' hd' => hds d' (by simp [hd'])
      rw [hzeros]
      by_cases hvalue : ofDigits base ds = 0
      · refine ⟨zeros + 1, ?_⟩
        rw [hvalue, Nat.toDigits_zero, Nat.mul_zero, Nat.zero_add, hlast, List.replicate_succ']
        rfl
      · refine ⟨zeros, ?_⟩
        rw [← Nat.toDigits_append_toDigits hbase (Nat.pos_of_ne_zero hvalue) hd, hlast, List.append_assoc]
        rfl

/-- Characters are a numeral exactly when they are digits, at least one, that write the number. -/
theorem numeral_iff {base : Nat} (hbase : 1 < base) {cs : List Char} {n : Nat} :
    Numeral base cs n ↔
      ∃ ds : List Nat, ds ≠ [] ∧ (∀ d ∈ ds, d < base) ∧ cs.map Char.toLower = ds.map Nat.digitChar ∧ ofDigits base ds = n := by
  constructor
  · rintro ⟨zeros, h⟩
    obtain ⟨ds, hne, hds, hdigits, hvalue⟩ := exists_toDigits hbase n
    refine ⟨List.replicate zeros 0 ++ ds, by simp [hne], ?_, ?_, ?_⟩
    · intro d hd
      rcases List.mem_append.mp hd with hd | hd
      · rw [List.eq_of_mem_replicate hd]
        omega
      · exact hds d hd
    · rw [h, hdigits, List.map_append, List.map_replicate]
      rfl
    · rw [ofDigits_replicate_append, hvalue]
  · rintro ⟨ds, hne, hds, hcs, rfl⟩
    obtain ⟨zeros, hzeros⟩ := exists_map_digitChar hbase hne hds
    exact ⟨zeros, hcs.trans hzeros⟩

theorem Numeral.ne_nil {base : Nat} {cs : List Char} {n : Nat} (h : Numeral base cs n) : cs ≠ [] := by
  rintro rfl
  obtain ⟨zeros, hzeros⟩ := h
  exact Nat.toDigits_ne_nil (List.append_eq_nil_iff.mp hzeros.symm).2

/-- A numeral is of a number below the power of the base with as many places. -/
theorem Numeral.lt_pow {base : Nat} (hbase : 1 < base) {cs : List Char} {n : Nat} (h : Numeral base cs n) :
    n < base ^ cs.length := by
  obtain ⟨ds, -, hds, hcs, rfl⟩ := (numeral_iff hbase).mp h
  have hlength := congrArg List.length hcs
  rw [List.length_map, List.length_map] at hlength
  rw [hlength]
  exact ofDigits_lt hds

/-- The characters of a numeral are digits of the base. -/
theorem Numeral.exists_digitChar {base : Nat} (hbase : 1 < base) {cs : List Char} {n : Nat} (h : Numeral base cs n) {c : Char}
    (hc : c ∈ cs) : ∃ d < base, c.toLower = Nat.digitChar d := by
  obtain ⟨ds, -, hds, hcs, -⟩ := (numeral_iff hbase).mp h
  have hmem : c.toLower ∈ ds.map Nat.digitChar := hcs ▸ List.mem_map_of_mem hc
  obtain ⟨d, hd, hdigit⟩ := List.mem_map.mp hmem
  exact ⟨d, hds d hd, hdigit.symm⟩

/-- The characters of a numeral are no blanks. -/
theorem Numeral.isBlank_eq_false {base : Nat} (hbase : 1 < base) (hle : base ≤ 16) {cs : List Char} {n : Nat}
    (h : Numeral base cs n) : ∀ c ∈ cs, isBlank c = false := by
  have hall : ∀ d : Fin 16, isBlank (Nat.digitChar d.val) = false := by decide
  intro c hc
  obtain ⟨d, hd, hdigit⟩ := h.exists_digitChar hbase hc
  by_contra hblank
  rw [Bool.not_eq_false] at hblank
  rw [toLower_of_isBlank hblank] at hdigit
  rw [hdigit, hall ⟨d, hd.trans_le hle⟩] at hblank
  cases hblank

/-- The mark of hexadecimal numerals stands in none. -/
theorem Numeral.mark_notMem {base : Nat} (hbase : 1 < base) (hle : base ≤ 16) {cs : List Char} {n : Nat}
    (h : Numeral base cs n) : 'x' ∉ cs := by
  have hall : ∀ d : Fin 16, 'x'.toLower ≠ Nat.digitChar d.val := by decide
  intro hmem
  obtain ⟨d, hd, hdigit⟩ := h.exists_digitChar hbase hmem
  exact hall ⟨d, hd.trans_le hle⟩ hdigit

/-! ## Reading -/

section Reading

variable {base : Nat} {read? : Char → Option Nat} (hread : ∀ c d, read? c = some d ↔ d < base ∧ c.toLower = Nat.digitChar d)
include hread

/-- Characters are read one by one as the digits that they are. -/
theorem mapM_eq_some_iff_digits {cs : List Char} {ds : List Nat} :
    cs.mapM read? = some ds ↔ (∀ d ∈ ds, d < base) ∧ cs.map Char.toLower = ds.map Nat.digitChar := by
  induction cs generalizing ds with
  | nil => cases ds <;> simp
  | cons c cs ih =>
    rw [List.mapM_cons, Option.bind_eq_bind, Option.bind_eq_some_iff]
    constructor
    · rintro ⟨d, hd, h⟩
      obtain ⟨ds', hds', h⟩ := Option.bind_eq_some_iff.mp h
      obtain rfl := Option.some.inj h
      obtain ⟨hlt, hc⟩ := (hread c d).mp hd
      obtain ⟨hlts, hcs⟩ := ih.mp hds'
      exact ⟨by simpa using ⟨hlt, hlts⟩, by rw [List.map_cons, List.map_cons, hc, hcs]⟩
    · rintro ⟨hlts, hcs⟩
      cases ds with
      | nil => simp at hcs
      | cons d ds =>
        obtain ⟨hc, hcs⟩ := List.cons.inj hcs
        refine ⟨d, (hread c d).mpr ⟨hlts d (by simp), hc⟩, Option.bind_eq_some_iff.mpr ⟨ds, ih.mpr ⟨?_, hcs⟩, rfl⟩⟩
        intro d' hd'
        exact hlts d' (by simp [hd'])

theorem map_mapM_eq_some_iff_numeral (hbase : 1 < base) {cs : List Char} (hne : cs ≠ []) {n : Nat} :
    (cs.mapM read?).map (ofDigits base) = some n ↔ Numeral base cs n := by
  rw [numeral_iff hbase, Option.map_eq_some_iff]
  simp only [mapM_eq_some_iff_digits hread]
  constructor
  · rintro ⟨ds, ⟨hds, hcs⟩, hvalue⟩
    refine ⟨ds, ?_, hds, hcs, hvalue⟩
    rintro rfl
    exact hne (List.map_eq_nil_iff.mp hcs)
  · rintro ⟨ds, -, hds, hcs, hvalue⟩
    exact ⟨ds, ⟨hds, hcs⟩, hvalue⟩

end Reading

theorem hexDigit?_eq_some_iff_digitChar (c : Char) (d : Nat) :
    hexDigit? c = some d ↔ d < 16 ∧ c.toLower = Nat.digitChar d := by
  have hall : ∀ d : Fin 16, Hex.digit d.val = Nat.digitChar d.val := by decide
  rw [Hex.hexDigit?_eq_some_iff]
  refine and_congr_right fun hd => ?_
  rw [hall ⟨d, hd⟩]

/-- The hexadecimal digits below ten are the decimal ones. -/
theorem digit?_eq_some_iff {c : Char} {d : Nat} : digit? c = some d ↔ d < 10 ∧ hexDigit? c = some d := by
  have hnine : '9'.toNat - '0'.toNat = 9 := rfl
  have hle : ∀ {e : Char}, c ≤ e → c.toNat ≤ e.toNat := fun h => UInt32.le_iff_toNat_le.mp (Char.le_def.mp h)
  unfold digit? hexDigit?
  split
  · rename_i hrange
    rw [Option.some_inj]
    constructor
    · rintro rfl
      exact ⟨by have := hle hrange.2; omega, rfl⟩
    · exact And.right
  · refine iff_of_false nofun ?_
    rintro ⟨hd, h⟩
    split at h
    · have := Option.some.inj h
      omega
    · split at h
      · have := Option.some.inj h
        omega
      · cases h

theorem digit?_eq_some_iff_digitChar (c : Char) (d : Nat) : digit? c = some d ↔ d < 10 ∧ c.toLower = Nat.digitChar d := by
  rw [digit?_eq_some_iff, hexDigit?_eq_some_iff_digitChar]
  constructor
  · rintro ⟨hd, -, h⟩
    exact ⟨hd, h⟩
  · rintro ⟨hd, h⟩
    exact ⟨hd, by omega, h⟩

/-- Characters are read as a number in decimal exactly when they are a numeral of it. -/
theorem decimal?_eq_some_iff_numeral {cs : List Char} (hne : cs ≠ []) {n : Nat} : decimal? cs = some n ↔ Numeral 10 cs n :=
  map_mapM_eq_some_iff_numeral digit?_eq_some_iff_digitChar (by decide) hne

/-- Characters are read as a number in hexadecimal exactly when they are a numeral of it. -/
theorem hexadecimal?_eq_some_iff_numeral {cs : List Char} (hne : cs ≠ []) {n : Nat} :
    hexadecimal? cs = some n ↔ Numeral 16 cs n :=
  map_mapM_eq_some_iff_numeral hexDigit?_eq_some_iff_digitChar (by decide) hne

end OfflineSigner.Text
