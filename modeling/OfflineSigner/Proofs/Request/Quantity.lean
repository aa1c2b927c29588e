import OfflineSigner.Proofs.Amount
import OfflineSigner.Proofs.Text.Numeral
import OfflineSigner.Request.Evm
import Mathlib.Tactic.MkIffOfInductiveProp

/-!
# Which texts are quantities

What it is for a text to write a quantity (`Writes`), and what is taken for one although it writes none (`Tolerated`), both told
without reference to how they are read. Main statement: a text is read as the number that it writes, or that it is tolerated for,
and every other text is refused (`text_outcome`). So a text without digits is read as zero, and a blank price is one of zero
(`blank_price_is_zero`).
-/

namespace OfflineSigner.Request.Quantity

open Text

/-! ## What a text writes -/

/-- Whether a text without blanks around it writes a number: in decimal, or after `0x` in at most 64 hexadecimal digits. -/
@[mk_iff]
inductive Writes : List Char → Nat → Prop where
  | decimal {cs : List Char} {n : Nat} (h : Numeral 10 cs n) : Writes cs n
  | hexadecimal {cs : List Char} {n : Nat} (h : Numeral 16 cs n) (hlength : cs.length ≤ 64) : Writes ('0' :: 'x' :: cs) n

/-- At most 64 hexadecimal digits and the number that is read from them; no digits are read as zero. -/
@[mk_iff]
inductive HexDigits : List Char → Nat → Prop where
  | none : HexDigits [] 0
  | numeral {cs : List Char} {n : Nat} (h : Numeral 16 cs n) (hlength : cs.length ≤ 64) : HexDigits cs n

/-- What is read as a number although it writes none: nothing, a mark without digits, and digits behind two marks. -/
@[mk_iff]
inductive Tolerated : List Char → Nat → Prop where
  | nothing : Tolerated [] 0
  | mark : Tolerated ['0', 'x'] 0
  | marks {cs : List Char} {n : Nat} (h : HexDigits cs n) : Tolerated ('0' :: 'x' :: '0' :: 'x' :: cs) n

/-- What writes a number has no blanks. -/
theorem Writes.isBlank_eq_false {cs : List Char} {n : Nat} (h : Writes cs n) : ∀ c ∈ cs, isBlank c = false := by
  cases h with
  | decimal h => exact h.isBlank_eq_false (by decide) (by decide)
  | hexadecimal h hlength =>
    have hdigits := h.isBlank_eq_false (by decide) (by decide)
    intro c hc
    rcases List.mem_cons.mp hc with rfl | hc
    · rfl
    · rcases List.mem_cons.mp hc with rfl | hc
      · rfl
      · exact hdigits c hc

/-- The mark stands in no hexadecimal digits. -/
theorem HexDigits.mark_notMem {cs : List Char} {n : Nat} (h : HexDigits cs n) : 'x' ∉ cs := by
  cases h with
  | none => simp
  | numeral h hlength => exact h.mark_notMem (by decide) (by decide)

theorem HexDigits.lt {cs : List Char} {n : Nat} (h : HexDigits cs n) : n < 2 ^ 256 := by
  cases h with
  | none => decide
  | numeral h hlength =>
    calc n < 16 ^ cs.length := h.lt_pow (by decide)
      _ ≤ 16 ^ 64 := Nat.pow_le_pow_right (by decide) hlength
      _ = 2 ^ 256 := by norm_num

theorem Tolerated.lt {cs : List Char} {n : Nat} (h : Tolerated cs n) : n < 2 ^ 256 := by
  cases h with
  | marks h => exact h.lt
  | _ => decide

/-- Behind a mark only hexadecimal digits write a number. -/
theorem writes_marked_iff {cs : List Char} {n : Nat} : Writes ('0' :: 'x' :: cs) n ↔ Numeral 16 cs n ∧ cs.length ≤ 64 := by
  have hdecimal : ¬Numeral 10 ('0' :: 'x' :: cs) n := fun h => h.mark_notMem (by decide) (by decide) (by simp)
  simp [writes_iff, hdecimal]

/-- What is tolerated writes nothing. -/
theorem Tolerated.not_writes {cs : List Char} {m n : Nat} (h : Tolerated cs m) : ¬Writes cs n := by
  cases h with
  | nothing =>
    intro hwrites
    cases hwrites with
    | decimal h => exact h.ne_nil rfl
  | mark =>
    rw [writes_marked_iff]
    rintro ⟨h, -⟩
    exact h.ne_nil rfl
  | marks hdigits =>
    rw [writes_marked_iff]
    rintro ⟨h, -⟩
    exact h.mark_notMem (by decide) (by decide) (by simp)

/-! ## Reading -/

/-- At most 64 hexadecimal digits are read as their number. -/
theorem hexDigits_iff_hexadecimal? {cs : List Char} {w : Word} :
    HexDigits cs w.toNat ↔ cs.length ≤ 64 ∧ (hexadecimal? cs).bind Word.ofNat? = some w := by
  by_cases hne : cs = []
  · have hzero : hexadecimal? [] = some 0 := rfl
    have hnil : ¬Numeral 16 [] w.toNat := fun h => h.ne_nil rfl
    simp [hexDigits_iff, hne, hzero, hnil, Word.ofNat?_eq_some_iff]
  · simp [hexDigits_iff, hne, Option.bind_eq_some_iff, hexadecimal?_eq_some_iff_numeral hne, Word.ofNat?_eq_some_iff, and_comm]

/-- Behind a mark, hexadecimal digits are read, and behind a second mark too. -/
theorem hexWord?_eq_some_iff {cs : List Char} {w : Word} :
    hexWord? cs = some w ↔ HexDigits cs w.toNat ∨ ∃ ds, HexDigits ds w.toNat ∧ cs = '0' :: 'x' :: ds := by
  have hread : ∀ ds : List Char, (if 64 < ds.length then none else (hexadecimal? ds).bind Word.ofNat?) = some w ↔
      HexDigits ds w.toNat := by
    intro ds
    rw [hexDigits_iff_hexadecimal?]
    split
    · rename_i hlt
      exact iff_of_false nofun fun h => absurd h.1 (Nat.not_le.mpr hlt)
    · rename_i hle
      simp [Nat.not_lt.mp hle]
  unfold hexWord?
  dsimp only
  split
  · rename_i ds
    have hmarked : ¬HexDigits ('0' :: 'x' :: ds) w.toNat := fun h => h.mark_notMem (by simp)
    simp [hread, hmarked]
  · rename_i hmark
    have hunmarked : ¬∃ ds, HexDigits ds w.toNat ∧ cs = '0' :: 'x' :: ds := by
      rintro ⟨ds, -, hds⟩
      exact hmark ds hds
    rw [hread, or_iff_left hunmarked]

/-- A text is read as what it writes, or as what it is tolerated for. -/
theorem textWord?_eq_some_iff {cs : List Char} {w : Word} :
    textWord? cs = some w ↔ Writes cs w.toNat ∨ Tolerated cs w.toNat := by
  unfold textWord?
  split
  · rename_i rest
    rw [hexWord?_eq_some_iff, writes_marked_iff, tolerated_iff, hexDigits_iff]
    simp only [reduceCtorEq, false_and, false_or, List.cons.injEq, true_and]
    rw [or_assoc, or_left_comm]
  · rename_i hmark
    have hmarked : ∀ ds, cs ≠ '0' :: 'x' :: ds := fun ds hds => hmark ds hds
    rw [writes_iff, tolerated_iff]
    simp only [hmarked, and_false, exists_false, false_and, or_false]
    by_cases hne : cs = []
    · have hzero : decimal? [] = some 0 := rfl
      have hnil : ¬Numeral 10 [] w.toNat := fun h => h.ne_nil rfl
      simp [hne, hzero, hnil, Word.ofNat?_eq_some_iff]
    · simp [hne, Option.bind_eq_some_iff, decimal?_eq_some_iff_numeral hne, Word.ofNat?_eq_some_iff]

theorem value_text_eq_ok_iff {s : String} {w : Word} :
    (text s).value = .ok w ↔ Writes (trimChars s.toList) w.toNat ∨ Tolerated (trimChars s.toList) w.toNat := by
  rw [← textWord?_eq_some_iff, value]
  cases textWord? (trimChars s.toList) <;> simp

theorem value_text_eq_error_iff {s : String} {f : Failure} :
    (text s).value = .error f ↔
      (∀ w : Word, ¬Writes (trimChars s.toList) w.toNat ∧ ¬Tolerated (trimChars s.toList) w.toNat) ∧
        f = ⟨.invalidInput, s!"Invalid quantity '{trim s}'", none⟩ := by
  simp only [← not_or, ← textWord?_eq_some_iff, value]
  cases textWord? (trimChars s.toList) with
  | none => simp [eq_comm]
  | some w => simp

/-- What is read from a text is the number that the text writes, in decimal or after `0x` in hexadecimal, unless the text is one
of those that write none and are tolerated; and every other text is refused as no quantity. So a text is read only as what it
writes exactly when it is not a tolerated one. -/
theorem text_outcome (s : String) :
    (∀ w, (text s).value = .ok w ↔ Writes (trimChars s.toList) w.toNat ∨ Tolerated (trimChars s.toList) w.toNat) ∧
    (∀ f, (text s).value = .error f ↔
      (∀ w : Word, ¬Writes (trimChars s.toList) w.toNat ∧ ¬Tolerated (trimChars s.toList) w.toNat) ∧
        f = ⟨.invalidInput, s!"Invalid quantity '{trim s}'", none⟩) ∧
    ((∀ w, (text s).value = .ok w → Writes (trimChars s.toList) w.toNat) ↔ ∀ n, ¬Tolerated (trimChars s.toList) n) := by
  refine ⟨fun w => value_text_eq_ok_iff, fun f => value_text_eq_error_iff, fun h n htolerated => ?_, fun h w hw => ?_⟩
  · have hn : (BitVec.ofNat 256 n : Word).toNat = n := by
      rw [BitVec.toNat_ofNat, Nat.mod_eq_of_lt htolerated.lt]
    rw [← hn] at htolerated
    exact htolerated.not_writes (h _ (value_text_eq_ok_iff.mpr (Or.inr htolerated)))
  · exact (value_text_eq_ok_iff.mp hw).resolve_right (h _)

/-- A request whose price is blank. -/
def blankPriced : Request.Evm where
  secretKey := ""
  nonce := 0
  sender := "0x9d8a62f656a8d1615c1294fd71e9cfb3e4855a4f"
  recipient := "0x3333333333333333333333333333333333333333"
  gasLimit := 21000
  amount := "1"
  chainId := 1
  gasPrice := some (.text " ")

/-- A blank text writes no number and is read as zero, and so is a mark without digits; digits behind two marks are read as well.
So a request whose price is blank is one with a price of zero. -/
theorem blank_price_is_zero :
    ((text " ").value = .ok 0 ∧ ∀ n, ¬Writes (trimChars " ".toList) n) ∧
    ((text "0x").value = .ok 0 ∧ ∀ n, ¬Writes (trimChars "0x".toList) n) ∧
    ((text "0x0x1f").value = .ok 31 ∧ ∀ n, ¬Writes (trimChars "0x0x1f".toList) n) ∧
    blankPriced.intent.toOption.map OfflineSigner.Evm.Intent.fee = some (.legacy 0) := by
  have hnothing : trimChars " ".toList = [] := by decide
  have hmark : trimChars "0x".toList = ['0', 'x'] := by decide
  have hmarks : trimChars "0x0x1f".toList = ['0', 'x', '0', 'x', '1', 'f'] := by decide
  have hdigits : HexDigits ['1', 'f'] 31 := .numeral ⟨0, by decide⟩ (by decide)
  rw [hnothing, hmark, hmarks]
  exact ⟨⟨by decide, fun n => Tolerated.nothing.not_writes⟩, ⟨by decide, fun n => Tolerated.mark.not_writes⟩,
    ⟨by decide, fun n => (Tolerated.marks hdigits).not_writes⟩, by decide +kernel⟩

end OfflineSigner.Request.Quantity
