import OfflineSigner.Address.Bech32
import OfflineSigner.Proofs.Bytes

/-!
# Segwit texts are read back

The statement that `Bech32.decode?` reads what `Bech32.encode` writes (`decode?_encode`). The register is linear in exclusive
or (`advance_xor`), so the checksum brings it to the constant that is checked (`register_checksum`); bytes cut into groups of
five bits are put together again (`ofGroups?_toGroups`); and the characters of the groups are told from the separator.
-/

namespace OfflineSigner.Address.Bech32

/-! ## The register -/

/-- The register after a group of zeros. -/
def advance (r : Nat) : Nat := step r 0

/-- A constant of the polynomial, if its bit is shifted out. -/
def feedback (r i g : Nat) : Nat := if (r >>> 25).testBit i then g else 0

/-- The constants for the bits that are shifted out. -/
def feedbacks (r : Nat) : Nat :=
  feedback r 0 0x3b6a57b2 ^^^ feedback r 1 0x26508e6d ^^^ feedback r 2 0x1ea119fa ^^^ feedback r 3 0x3d4233dd ^^^
    feedback r 4 0x2a1462b3

theorem step_eq (r group : Nat) : step r group = (r % 2 ^ 25) <<< 5 ^^^ feedbacks r ^^^ group := by
  have hshift : r % 0x2000000 * 32 = (r % 2 ^ 25) <<< 5 := by rw [Nat.shiftLeft_eq]; rfl
  simp only [step, generators, List.zipIdx, List.map_cons, List.map_nil, List.foldl_cons, List.foldl_nil, hshift, feedbacks,
    feedback, Nat.xor_assoc]
  rw [Nat.xor_comm group]
  simp only [Nat.xor_assoc]

theorem step_eq_advance (r group : Nat) : step r group = advance r ^^^ group := by
  rw [advance, step_eq, step_eq, Nat.xor_zero]

theorem feedback_xor (a b i g : Nat) : feedback (a ^^^ b) i g = feedback a i g ^^^ feedback b i g := by
  unfold feedback
  rw [Nat.shiftRight_xor_distrib, Nat.testBit_xor]
  cases (a >>> 25).testBit i <;> cases (b >>> 25).testBit i <;> simp

/-- The register is linear in exclusive or. -/
theorem advance_xor (a b : Nat) : advance (a ^^^ b) = advance a ^^^ advance b := by
  simp only [advance, step_eq, Nat.xor_zero, Nat.xor_mod_two_pow, Nat.shiftLeft_xor_distrib, feedbacks, feedback_xor]
  ac_rfl

theorem feedback_lt (r i : Nat) {g : Nat} (h : g < 2 ^ 30) : feedback r i g < 2 ^ 30 := by
  unfold feedback
  split
  · exact h
  · decide

/-- The register holds thirty bits. -/
theorem advance_lt (r : Nat) : advance r < 2 ^ 30 := by
  rw [advance, step_eq, Nat.xor_zero]
  have hshift : (r % 2 ^ 25) <<< 5 < 2 ^ 30 := by
    rw [Nat.shiftLeft_eq]
    have := Nat.mod_lt r (show 2 ^ 25 > 0 by decide)
    omega
  refine Nat.xor_lt_two_pow hshift ?_
  unfold feedbacks
  have h₀ := feedback_lt r 0 (g := 0x3b6a57b2) (by decide)
  have h₁ := feedback_lt r 1 (g := 0x26508e6d) (by decide)
  have h₂ := feedback_lt r 2 (g := 0x1ea119fa) (by decide)
  have h₃ := feedback_lt r 3 (g := 0x3d4233dd) (by decide)
  have h₄ := feedback_lt r 4 (g := 0x2a1462b3) (by decide)
  exact Nat.xor_lt_two_pow (Nat.xor_lt_two_pow (Nat.xor_lt_two_pow (Nat.xor_lt_two_pow h₀ h₁) h₂) h₃) h₄

/-- Below twenty-five bits nothing is shifted out. -/
theorem advance_of_lt {r : Nat} (h : r < 2 ^ 25) : advance r = r <<< 5 := by
  have h0 : r >>> 25 = 0 := by
    rw [Nat.shiftRight_eq_div_pow]
    exact Nat.div_eq_of_lt h
  rw [advance, step_eq, feedbacks, Nat.mod_eq_of_lt h]
  simp [feedback, h0]

/-- Registers and groups that are combined by exclusive or stay so. -/
theorem foldl_step_xor {gs hs : List Nat} (h : gs.length = hs.length) (a b : Nat) :
    (List.zipWith (· ^^^ ·) gs hs).foldl step (a ^^^ b) = gs.foldl step a ^^^ hs.foldl step b := by
  induction gs generalizing hs a b with
  | nil =>
    cases hs with
    | nil => rfl
    | cons => cases h
  | cons g gs ih =>
    cases hs with
    | nil => cases h
    | cons h' hs =>
      have hstep : step (a ^^^ b) (g ^^^ h') = step a g ^^^ step b h' := by
        rw [step_eq_advance, step_eq_advance, step_eq_advance, advance_xor]
        ac_rfl
      rw [List.zipWith_cons_cons, List.foldl_cons, List.foldl_cons, List.foldl_cons, hstep]
      exact ih (Nat.succ.inj h) _ _

/-- The register after no more than twenty-five bits and a group writes the group behind them. -/
theorem step_shiftRight {r : Nat} (h : r < 2 ^ 30) : step (r >>> 5) (r % 32) = r := by
  have hlt : r >>> 5 < 2 ^ 25 := by
    rw [Nat.shiftRight_eq_div_pow]
    omega
  rw [step_eq_advance, advance_of_lt hlt, show (32 : Nat) = 2 ^ 5 by rfl]
  apply Nat.eq_of_testBit_eq
  intro i
  rw [Nat.testBit_xor, Nat.testBit_shiftLeft, Nat.testBit_shiftRight, Nat.testBit_mod_two_pow]
  by_cases hi : i < 5
  · have hge : ¬5 ≤ i := by omega
    simp [hi, hge]
  · have hsum : 5 + (i - 5) = i := by omega
    simp [hi, hsum]
    omega

/-- A number of thirty bits in six groups, highest first. -/
def sixGroups (r : Nat) : List Nat := [r >>> 25 % 32, r >>> 20 % 32, r >>> 15 % 32, r >>> 10 % 32, r >>> 5 % 32, r % 32]

/-- Six groups of a number bring an empty register to that number. -/
theorem foldl_step_sixGroups {r : Nat} (h : r < 2 ^ 30) : (sixGroups r).foldl step 0 = r := by
  have hle : ∀ n, r >>> n < 2 ^ 30 := by
    intro n
    exact (Nat.shiftRight_le r n).trans_lt h
  have hadd : ∀ n, r >>> n >>> 5 = r >>> (n + 5) := fun n => (Nat.shiftRight_add r n 5).symm
  have htop : step 0 (r >>> 25 % 32) = r >>> 25 := by
    have hzero : r >>> 25 >>> 5 = 0 := by
      rw [hadd, Nat.shiftRight_eq_div_pow]
      exact Nat.div_eq_of_lt h
    rw [← hzero, step_shiftRight (hle 25)]
  have hnext : ∀ n, step (r >>> (n + 5)) (r >>> n % 32) = r >>> n := by
    intro n
    rw [← hadd, step_shiftRight (hle n)]
  rw [sixGroups, List.foldl_cons, htop, List.foldl_cons, hnext 20, List.foldl_cons, hnext 15, List.foldl_cons, hnext 10,
    List.foldl_cons, hnext 5, List.foldl_cons, step_shiftRight h, List.foldl_nil]

theorem constant_lt (version : Nat) : constant version < 2 ^ 30 := by
  unfold constant
  split <;> decide

theorem checksum_eq (marker : List Char) (groups : List Nat) (version : Nat) :
    checksum marker groups version =
      sixGroups (register (markerGroups marker ++ groups ++ List.replicate 6 0) ^^^ constant version) := rfl

/-- The checksum brings the register to the constant of its version. -/
theorem register_checksum (marker : List Char) (groups : List Nat) (version : Nat) :
    register (markerGroups marker ++ (groups ++ checksum marker groups version)) = constant version := by
  have hzeros : register (markerGroups marker ++ groups ++ List.replicate 6 0) =
      (List.replicate 6 0).foldl step (register (markerGroups marker ++ groups)) := by
    rw [register, List.foldl_append]
    rfl
  have hlt : register (markerGroups marker ++ groups ++ List.replicate 6 0) < 2 ^ 30 := by
    rw [hzeros, List.replicate_succ', List.foldl_append]
    exact advance_lt _
  rw [checksum_eq]
  generalize hr : register (markerGroups marker ++ groups ++ List.replicate 6 0) = r at hzeros hlt ⊢
  have hsix : (sixGroups (r ^^^ constant version)).foldl step 0 = r ^^^ constant version :=
    foldl_step_sixGroups (Nat.xor_lt_two_pow hlt (constant_lt version))
  have hsame : (List.replicate 6 0).length = (sixGroups (r ^^^ constant version)).length := rfl
  have hfold := foldl_step_xor hsame (register (markerGroups marker ++ groups)) 0
  have hzip : List.zipWith (· ^^^ ·) (List.replicate 6 0) (sixGroups (r ^^^ constant version)) =
      sixGroups (r ^^^ constant version) := by simp [sixGroups, List.replicate]
  rw [hzip, ← hzeros, hsix, ← Nat.xor_assoc, Nat.xor_self, Nat.zero_xor, Nat.xor_zero] at hfold
  rw [← List.append_assoc, register, List.foldl_append]
  exact hfold

/-! ## Bits in groups -/

/-- Five bits are read back from the number they write. -/
theorem bits_ofBits : ∀ b₀ b₁ b₂ b₃ b₄ : Bool, bits 5 (ofBits [b₀, b₁, b₂, b₃, b₄]) = [b₀, b₁, b₂, b₃, b₄] := by decide

theorem ofBits_lt : ∀ b₀ b₁ b₂ b₃ b₄ : Bool, ofBits [b₀, b₁, b₂, b₃, b₄] < 32 := by decide

/-- A byte is read back from its bits. -/
theorem ofBits_bits (b : UInt8) : UInt8.ofNat (ofBits (bits 8 b.toNat)) = b := by
  have h : ∀ n : Fin 256, ofBits (bits 8 n.val) = n.val := by decide +kernel
  rw [h ⟨b.toNat, b.toNat_lt⟩, UInt8.ofNat_toNat]

/-- Groups of five bits write the bits again, with fewer than five zeros behind them. -/
theorem flatMap_bits_groupsOfBits (bs : List Bool) :
    ∃ k ≤ 4, (groupsOfBits bs).flatMap (bits 5) = bs ++ List.replicate k false := by
  induction bs using groupsOfBits.induct with
  | case1 b₀ b₁ b₂ b₃ b₄ rest ih =>
    obtain ⟨k, hk, h⟩ := ih
    refine ⟨k, hk, ?_⟩
    rw [groupsOfBits, List.flatMap_cons, h, bits_ofBits]
    rfl
  | case2 => exact ⟨0, by decide, rfl⟩
  | case3 rest hfive hnil =>
    refine ⟨5 - rest.length, ?_, ?_⟩
    · have : rest.length ≠ 0 := fun h0 => hnil (List.eq_nil_of_length_eq_zero h0)
      omega
    · rcases rest with _ | ⟨b₀, _ | ⟨b₁, _ | ⟨b₂, _ | ⟨b₃, _ | ⟨b₄, rest⟩⟩⟩⟩⟩
      · exact absurd rfl hnil
      · exact bits_ofBits b₀ false false false false
      · exact bits_ofBits b₀ b₁ false false false
      · exact bits_ofBits b₀ b₁ b₂ false false
      · exact bits_ofBits b₀ b₁ b₂ b₃ false
      · exact absurd rfl (hfive b₀ b₁ b₂ b₃ b₄ rest)

/-- Groups of five bits are below thirty-two. -/
theorem groupsOfBits_lt (bs : List Bool) : ∀ g ∈ groupsOfBits bs, g < 32 := by
  induction bs using groupsOfBits.induct with
  | case1 b₀ b₁ b₂ b₃ b₄ rest ih =>
    intro g hg
    rw [groupsOfBits] at hg
    rcases List.mem_cons.mp hg with rfl | hg
    · exact ofBits_lt b₀ b₁ b₂ b₃ b₄
    · exact ih g hg
  | case2 =>
    intro g hg
    cases hg
  | case3 rest hfive hnil =>
    rcases rest with _ | ⟨b₀, _ | ⟨b₁, _ | ⟨b₂, _ | ⟨b₃, _ | ⟨b₄, rest⟩⟩⟩⟩⟩
    · exact absurd rfl hnil
    · simpa [groupsOfBits] using ofBits_lt b₀ false false false false
    · simpa [groupsOfBits] using ofBits_lt b₀ b₁ false false false
    · simpa [groupsOfBits] using ofBits_lt b₀ b₁ b₂ false false
    · simpa [groupsOfBits] using ofBits_lt b₀ b₁ b₂ b₃ false
    · exact absurd rfl (hfive b₀ b₁ b₂ b₃ b₄ rest)

/-- Fewer than eight bits write no byte. -/
theorem bytesOfBits_of_length_lt {left : List Bool} (h : left.length < 8) : bytesOfBits left = ([], left) := by
  unfold bytesOfBits
  split
  · simp only [List.length_cons] at h
    omega
  · rfl

/-- Bytes are put together from their bits, and fewer than eight bits behind them are left over. -/
theorem bytesOfBits_flatMap (bs : Bytes) {left : List Bool} (h : left.length < 8) :
    bytesOfBits (bs.flatMap (fun b => bits 8 b.toNat) ++ left) = (bs, left) := by
  induction bs with
  | nil => exact bytesOfBits_of_length_lt h
  | cons b bs ih =>
    have hbits := ofBits_bits b
    rw [List.flatMap_cons, List.append_assoc]
    generalize bs.flatMap (fun b => bits 8 b.toNat) ++ left = tail at ih ⊢
    simp only [bits, List.cons_append, List.nil_append] at hbits ⊢
    rw [bytesOfBits, ih]
    dsimp only
    rw [hbits]

/-- The bytes are read back from their groups. -/
theorem ofGroups?_toGroups (bs : Bytes) : ofGroups? (toGroups bs) = some bs := by
  obtain ⟨k, hk, h⟩ := flatMap_bits_groupsOfBits (bs.flatMap fun b => bits 8 b.toNat)
  rw [ofGroups?, toGroups, h, bytesOfBits_flatMap bs (by rw [List.length_replicate]; omega)]
  dsimp only
  rw [if_pos]
  simp [hk]

/-! ## Characters -/

/-- A digit is read back, is in lower case, and is no separator. -/
theorem digit_spec : ∀ g : Fin 32,
    value? (digit g.val) = some g.val ∧ (digit g.val).isUpper = false ∧ digit g.val ≠ '1' := by decide

/-- Groups are read back from their digits. -/
theorem mapM_value?_digit {gs : List Nat} (h : ∀ g ∈ gs, g < 32) : (gs.map digit).mapM value? = some gs :=
  mapM_map_of_forall fun g hg => (digit_spec ⟨g, h g hg⟩).1

/-- A text is cut at its last separator. -/
theorem splitLast_append {data : List Char} (h : '1' ∉ data) (marker : List Char) :
    splitLast (marker ++ '1' :: data) = some (marker, data) := by
  have htake : ((marker ++ '1' :: data).reverse.takeWhile (· ≠ '1')).reverse = data := by
    have hne : ∀ c ∈ data.reverse, decide (c ≠ '1') = true := by
      intro c hc
      have hmem : c ∈ data := List.mem_reverse.mp hc
      exact decide_eq_true fun heq => h (heq ▸ hmem)
    rw [List.reverse_append, List.reverse_cons, List.append_assoc, List.takeWhile_append_of_pos hne]
    simp
  unfold splitLast
  dsimp only
  have hlength : (marker ++ '1' :: data).length = marker.length + 1 + data.length := by
    rw [List.length_append, List.length_cons]
    omega
  have hmarker : marker.length + 1 + data.length - data.length - 1 = marker.length := by omega
  rw [htake, hlength, if_pos (by omega), hmarker, List.take_left]

/-! ## Texts -/

/-- A marker as it is written: a valid one, in lower case. -/
structure Marker (marker : String) : Prop where
  valid : validMarker marker.toList = true
  any_isUpper : marker.toList.any Char.isUpper = false
  toLower : marker.toList.map Char.toLower = marker.toList
  length_le : marker.toList.length ≤ 18

theorem length_bits (width n : Nat) : (bits width n).length = width := by
  induction width with
  | zero => rfl
  | succ width ih => rw [bits, List.length_cons, ih]

theorem length_flatMap_bits {α : Type} (width : Nat) (f : α → Nat) (as : List α) :
    (as.flatMap fun a => bits width (f a)).length = width * as.length :=
  length_flatMap_of_forall fun a _ => length_bits width (f a)

/-- Bytes take no more groups than their bits need. -/
theorem length_toGroups_le (bs : Bytes) : 5 * (toGroups bs).length ≤ 8 * bs.length + 4 := by
  obtain ⟨k, hk, h⟩ := flatMap_bits_groupsOfBits (bs.flatMap fun b => bits 8 b.toNat)
  have hlength := congrArg List.length h
  rw [length_flatMap_bits 5 (fun g => g), List.length_append, length_flatMap_bits 8, List.length_replicate] at hlength
  rw [toGroups]
  omega

theorem length_le_of_allowedLength {version length : Nat} (h : allowedLength version length = true) : length ≤ 40 := by
  unfold allowedLength at h
  split at h
  · rcases (Bool.or_eq_true _ _).mp h with h | h
    · have := eq_of_beq h
      omega
    · have := eq_of_beq h
      omega
  · simp at h
    omega

theorem sixGroups_lt (r : Nat) : ∀ g ∈ sixGroups r, g < 32 := by
  intro g hg
  simp only [sixGroups, List.mem_cons, List.not_mem_nil, or_false] at hg
  rcases hg with rfl | rfl | rfl | rfl | rfl | rfl <;> exact Nat.mod_lt _ (by decide)

/-- The groups of a text: the version, the program and the checksum. -/
def textGroups (marker : String) (p : Program) : List Nat :=
  p.version :: toGroups p.bytes ++ checksum marker.toList (p.version :: toGroups p.bytes) p.version

theorem toList_encode (marker : String) (p : Program) :
    (encode marker p).toList = marker.toList ++ '1' :: (textGroups marker p).map digit := by
  rw [encode, String.toList_ofList]
  rfl

theorem textGroups_lt {marker : String} {p : Program} (h : p.version ≤ 16) : ∀ g ∈ textGroups marker p, g < 32 := by
  intro g hg
  rw [textGroups, checksum_eq] at hg
  rcases List.mem_append.mp hg with hg | hg
  · rcases List.mem_cons.mp hg with rfl | hg
    · omega
    · exact groupsOfBits_lt _ g hg
  · exact sixGroups_lt _ g hg

/-- The program's groups are what is left without the version and the checksum. -/
theorem dropLast_textGroups (marker : String) (p : Program) :
    ((textGroups marker p).drop 1).dropLast.dropLast.dropLast.dropLast.dropLast.dropLast = toGroups p.bytes := by
  rw [textGroups, checksum_eq, sixGroups]
  simp

/-- A text is no longer than a text may be. -/
theorem length_encode_le {marker : String} {p : Program} (hmarker : Marker marker)
    (hlength : allowedLength p.version p.bytes.length = true) : (encode marker p).toList.length ≤ 90 := by
  have hbytes := length_le_of_allowedLength hlength
  have hgroups := length_toGroups_le p.bytes
  have hle := hmarker.length_le
  rw [toList_encode, List.length_append, List.length_cons, List.length_map, textGroups, checksum_eq, sixGroups,
    List.length_append, List.length_cons]
  simp only [List.length_cons, List.length_nil]
  omega

/-- A text is in lower case. -/
theorem any_isUpper_encode {marker : String} {p : Program} (hmarker : Marker marker) (hversion : p.version ≤ 16) :
    (encode marker p).toList.any Char.isUpper = false := by
  rw [toList_encode, List.any_eq_false]
  intro c hc
  rw [Bool.not_eq_true]
  rcases List.mem_append.mp hc with hc | hc
  · exact Bool.eq_false_iff.mpr (List.any_eq_false.mp hmarker.any_isUpper c hc)
  · rcases List.mem_cons.mp hc with rfl | hc
    · rfl
    · obtain ⟨g, hg, rfl⟩ := List.mem_map.mp hc
      exact (digit_spec ⟨g, textGroups_lt hversion g hg⟩).2.1

/-- The separator is not among the digits. -/
theorem separator_not_mem {marker : String} {p : Program} (hversion : p.version ≤ 16) :
    '1' ∉ (textGroups marker p).map digit := by
  intro h
  obtain ⟨g, hg, heq⟩ := List.mem_map.mp h
  exact (digit_spec ⟨g, textGroups_lt hversion g hg⟩).2.2 heq

/-- A program that may be written is read back from its text, with the marker. -/
theorem decode?_encode {marker : String} {p : Program} (hmarker : Marker marker) (hversion : p.version ≤ 16)
    (hlength : allowedLength p.version p.bytes.length = true) :
    decode? (encode marker p).toList = some (marker, p) := by
  have hsize := length_encode_le hmarker hlength
  have hupper := any_isUpper_encode (p := p) hmarker hversion
  have hregister : register (markerGroups marker.toList ++ textGroups marker p) = constant p.version :=
    register_checksum _ _ _
  have hsix : 7 ≤ (textGroups marker p).length := by
    rw [textGroups, checksum_eq, sixGroups, List.length_append, List.length_cons]
    simp only [List.length_cons, List.length_nil]
    omega
  have hcase : ¬(90 < (encode marker p).toList.length ∨
      (encode marker p).toList.any Char.isUpper ∧ (encode marker p).toList.any Char.isLower) := by
    rintro (hlong | ⟨hany, -⟩)
    · omega
    · rw [hupper] at hany
      cases hany
  unfold decode?
  rw [if_neg hcase, toList_encode, splitLast_append (separator_not_mem hversion)]
  dsimp only [bind, Option.bind]
  rw [mapM_value?_digit (textGroups_lt hversion)]
  have hhead : (textGroups marker p).head? = some p.version := rfl
  dsimp only
  rw [hhead]
  dsimp only
  rw [if_pos ⟨hmarker.valid, hsix, hversion, hregister⟩, dropLast_textGroups, ofGroups?_toGroups]
  dsimp only
  rw [if_pos hlength, hmarker.toLower, String.ofList_toList]

/-- A program that is read has a length that is allowed for its version. -/
theorem allowedLength_of_decode? {cs : List Char} {marker : String} {p : Program} (h : decode? cs = some (marker, p)) :
    allowedLength p.version p.bytes.length = true := by
  unfold decode? at h
  split at h
  · cases h
  · obtain ⟨⟨marker', data⟩, -, h⟩ := Option.bind_eq_some_iff.mp h
    obtain ⟨groups, -, h⟩ := Option.bind_eq_some_iff.mp h
    obtain ⟨version, -, h⟩ := Option.bind_eq_some_iff.mp h
    split at h
    · obtain ⟨bytes, -, h⟩ := Option.bind_eq_some_iff.mp h
      split at h
      · rename_i hallowed
        cases h
        exact hallowed
      · cases h
    · cases h

end OfflineSigner.Address.Bech32
