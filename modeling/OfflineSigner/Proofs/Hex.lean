import OfflineSigner.Hex
import OfflineSigner.Proofs.Checked
import OfflineSigner.Proofs.Text
import Mathlib.Data.List.Induction

/-!
# What is read as hexadecimal

The statement that bytes are read from a text exactly when the text in lower case is what is written for them
(`Hex.decodeUtf8_eq_ok_iff`). So a text writes some bytes exactly when it has an even number of characters, all of them
hexadecimal digits (`Hex.exists_encodeChars_iff`).
-/

namespace OfflineSigner

namespace Hex

/-! ## Digits -/

theorem digit_mod (n : Nat) : digit (n % 16) = digit n := by rw [digit, digit, Nat.mod_mod]

/-- A digit of either case, and its value. -/
theorem hexDigit?_eq_some_iff {c : Char} {v : Nat} : Text.hexDigit? c = some v ↔ v < 16 ∧ c.toLower = digit v := by
  by_cases hascii : c.toNat < 128
  · have hlt : ∀ n : Fin 128, ∀ v ∈ Text.hexDigit? (Char.ofNat n.val), v < 16 := by decide +kernel
    have hiff : ∀ n : Fin 128, ∀ v : Fin 16,
        Text.hexDigit? (Char.ofNat n.val) = some v.val ↔ (Char.ofNat n.val).toLower = digit v.val := by decide +kernel
    have hltc := hlt ⟨c.toNat, hascii⟩
    have hiffc := hiff ⟨c.toNat, hascii⟩
    rw [Char.ofNat_toNat] at hltc hiffc
    constructor
    · intro h
      have hv := hltc v h
      exact ⟨hv, (hiffc ⟨v, hv⟩).mp h⟩
    · rintro ⟨hv, h⟩
      exact (hiffc ⟨v, hv⟩).mpr h
  · have hnone : Text.hexDigit? c = none := by
      unfold Text.hexDigit?
      have hle : ∀ d : Char, d.toNat < 128 → ¬c ≤ d := by
        intro d hd hle
        have hle : c.toNat ≤ d.toNat := UInt32.le_iff_toNat_le.mp (Char.le_def.mp hle)
        omega
      rw [if_neg fun h => hle '9' (by decide) h.2, if_neg fun h => hle 'f' (by decide) h.2,
        if_neg fun h => hle 'F' (by decide) h.2]
    rw [hnone, Text.toLower_of_ge (Nat.not_lt.mp hascii)]
    constructor
    · intro h
      cases h
    · rintro ⟨-, h⟩
      exact absurd (h ▸ digit_lt v) hascii

/-- A character whose lower case is a digit is ASCII. -/
theorem lt_of_toLower_eq_digit {c : Char} {n : Nat} (h : c.toLower = digit n) : c.toNat < 128 := by
  by_contra hge
  rw [Text.toLower_of_ge (Nat.not_lt.mp hge)] at h
  exact hge (h ▸ digit_lt n)

theorem digitValue_eq_ok_iff {b : UInt8} {position v : Nat} :
    digitValue b position = .ok v ↔ v < 16 ∧ (Char.ofNat b.toNat).toLower = digit v := by
  rw [← hexDigit?_eq_some_iff, digitValue]
  cases Text.hexDigit? (Char.ofNat b.toNat) <;> simp

/-- The digits of a byte are told by its two halves. -/
theorem encodeByte_ofNat {hi lo : Nat} (hhi : hi < 16) (hlo : lo < 16) :
    encodeByte (UInt8.ofNat (16 * hi + lo)) = [digit hi, digit lo] := by
  have hn : (UInt8.ofNat (16 * hi + lo)).toNat = 16 * hi + lo := UInt8.toNat_ofNat_of_lt' (by omega : _ < 256)
  have hdigit : digit (16 * hi + lo) = digit lo := by
    unfold digit
    congr 1
    omega
  rw [encodeByte, hn, hdigit, show (16 * hi + lo) / 16 = hi by omega]

/-! ## Texts -/

/-- Pairs of digits are read as the bytes for which they are written. -/
theorem decodePairs_eq_ok_iff {position : Nat} {digits bs : Bytes} (heven : digits.length % 2 = 0) :
    decodePairs position digits = .ok bs ↔ digits.map (fun b => (Char.ofNat b.toNat).toLower) = encodeChars bs := by
  induction digits using List.twoStepInduction generalizing position bs with
  | nil =>
    cases bs with
    | nil => exact iff_of_true rfl rfl
    | cons b bs => exact iff_of_false nofun nofun
  | singleton d => cases heven
  | cons_cons hi lo digits ih _ =>
    have heven : digits.length % 2 = 0 := by
      rw [List.length_cons, List.length_cons] at heven
      omega
    rw [decodePairs, List.map_cons, List.map_cons]
    constructor
    · intro h
      obtain ⟨h₁, hhi, h⟩ := bind_eq_ok_iff.mp h
      obtain ⟨h₂, hlo, h⟩ := bind_eq_ok_iff.mp h
      obtain ⟨rest, hrest, h⟩ := bind_eq_ok_iff.mp h
      cases h
      obtain ⟨hlt₁, hdigit₁⟩ := digitValue_eq_ok_iff.mp hhi
      obtain ⟨hlt₂, hdigit₂⟩ := digitValue_eq_ok_iff.mp hlo
      rw [(ih heven).mp hrest, hdigit₁, hdigit₂, encodeChars, encodeChars, List.flatMap_cons, encodeByte_ofNat hlt₁ hlt₂]
      rfl
    · intro h
      cases bs with
      | nil => cases h
      | cons b bs =>
        obtain ⟨hdigit₁, h⟩ := List.cons.inj h
        obtain ⟨hdigit₂, hrest⟩ := List.cons.inj h
        have hb := b.toNat_lt
        have hbyte : UInt8.ofNat (16 * (b.toNat / 16) + b.toNat % 16) = b := by
          rw [Nat.div_add_mod, UInt8.ofNat_toNat]
        rw [← digit_mod] at hdigit₂
        rw [digitValue_eq_ok_iff.mpr ⟨by omega, hdigit₁⟩, ok_bind, digitValue_eq_ok_iff.mpr ⟨by omega, hdigit₂⟩, ok_bind,
          (ih heven).mpr hrest, ok_bind, hbyte]
        rfl

theorem exists_digit_of_mem {c : Char} {bs : Bytes} (h : c ∈ encodeChars bs) : ∃ n, c = digit n := by
  obtain ⟨b, -, hc⟩ := List.mem_flatMap.mp h
  rcases List.mem_cons.mp hc with rfl | hc
  · exact ⟨_, rfl⟩
  · exact ⟨_, List.mem_singleton.mp hc⟩

/-- A text whose lower case is written for some bytes is ASCII. -/
theorem ascii_of_toLower {cs : List Char} {bs : Bytes} (h : cs.map Char.toLower = encodeChars bs) :
    ∀ c ∈ cs, c.toNat < 128 := by
  intro c hc
  obtain ⟨n, hn⟩ := exists_digit_of_mem (h ▸ List.mem_map_of_mem hc)
  exact lt_of_toLower_eq_digit hn

/-- Different bytes are written differently. -/
theorem encodeChars_injective : Function.Injective encodeChars := by
  intro bs bs' h
  have hread := decodePairs_encodeChars bs 0
  rw [h, decodePairs_encodeChars] at hread
  exact (Except.ok.inj hread).symm

/-- Bytes are read from a text exactly when the text in lower case is what is written for them. -/
theorem decodeUtf8_eq_ok_iff {cs : List Char} {bs : Bytes} :
    decodeUtf8 (Text.utf8Chars cs) = .ok bs ↔ cs.map Char.toLower = encodeChars bs := by
  constructor
  · intro h
    unfold decodeUtf8 at h
    split at h
    · cases h
    · rename_i hodd
      have hpairs := (decodePairs_eq_ok_iff (by omega)).mp h
      have hbytes : ∀ b ∈ Text.utf8Chars cs, b.toNat < 128 := by
        intro b hb
        obtain ⟨n, hn⟩ := exists_digit_of_mem (hpairs ▸ List.mem_map_of_mem hb)
        have hlt := lt_of_toLower_eq_digit hn
        rwa [Text.toNat_ofNat_byte] at hlt
      rw [← Text.map_utf8Chars (Text.ascii_of_utf8Chars hbytes), List.map_map]
      exact hpairs
  · intro h
    have hascii := ascii_of_toLower h
    have hlength : (Text.utf8Chars cs).length = 2 * bs.length := by
      rw [Text.utf8Chars_of_ascii hascii, List.length_map, ← length_encodeChars, ← h, List.length_map]
    rw [decodeUtf8, if_neg (by omega), decodePairs_eq_ok_iff (by omega), ← h]
    conv_rhs => rw [← Text.map_utf8Chars hascii, List.map_map]
    rfl

/-- A text writes some bytes exactly when it has an even number of characters, all of them digits. -/
theorem exists_encodeChars_iff {cs : List Char} :
    (∃ bs, cs.map Char.toLower = encodeChars bs) ↔ cs.length % 2 = 0 ∧ ∀ c ∈ cs, Text.isHexDigit c = true := by
  constructor
  · rintro ⟨bs, h⟩
    refine ⟨?_, fun c hc => ?_⟩
    · have hlength := congrArg List.length h
      rw [List.length_map, length_encodeChars] at hlength
      omega
    · obtain ⟨n, hn⟩ := exists_digit_of_mem (h ▸ List.mem_map_of_mem hc)
      rw [← digit_mod] at hn
      rw [Text.isHexDigit, hexDigit?_eq_some_iff.mpr ⟨Nat.mod_lt n (by decide), hn⟩]
      rfl
  · rintro ⟨heven, hdigits⟩
    induction cs using List.twoStepInduction with
    | nil => exact ⟨[], rfl⟩
    | singleton c => cases heven
    | cons_cons hi lo cs ih _ =>
      rw [List.length_cons, List.length_cons] at heven
      obtain ⟨bs, hbs⟩ := ih (by omega) fun c hc => hdigits c (List.mem_cons_of_mem hi (List.mem_cons_of_mem lo hc))
      obtain ⟨v₁, hv₁⟩ := Option.isSome_iff_exists.mp (hdigits hi List.mem_cons_self)
      obtain ⟨v₂, hv₂⟩ := Option.isSome_iff_exists.mp (hdigits lo (List.mem_cons_of_mem hi List.mem_cons_self))
      obtain ⟨hlt₁, hdigit₁⟩ := hexDigit?_eq_some_iff.mp hv₁
      obtain ⟨hlt₂, hdigit₂⟩ := hexDigit?_eq_some_iff.mp hv₂
      refine ⟨UInt8.ofNat (16 * v₁ + v₂) :: bs, ?_⟩
      rw [List.map_cons, List.map_cons, hbs, hdigit₁, hdigit₂, encodeChars, encodeChars, List.flatMap_cons,
        encodeByte_ofNat hlt₁ hlt₂]
      rfl

end Hex

end OfflineSigner
