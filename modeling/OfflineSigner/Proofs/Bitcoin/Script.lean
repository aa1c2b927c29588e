import OfflineSigner.Bitcoin.Script
import OfflineSigner.Proofs.Bytes

/-!
# Scripts as runs of whole instructions

The form of scripts without a reader: an instruction is a short push, a push with its length behind the opcode, or an opcode
alone (`Instruction`), and a script is whole when it is made of instructions, one after the other (`Whole`). Main statements:
the scan accepts exactly the whole scripts (`wellFormed_iff`), and an output script is accepted as it is exactly when it is
whole and not empty (`check_eq_ok_iff`).
-/

namespace OfflineSigner.Bitcoin.Script

/-! ## The form of scripts -/

/-- The opcodes behind which a length is written, and its width. -/
def lengthWidth? (opcode : UInt8) : Option Nat :=
  if opcode = 0x4c then some 1 else if opcode = 0x4d then some 2 else if opcode = 0x4e then some 4 else none

/-- One whole instruction. -/
inductive Instruction : Bytes → Prop
  /-- A push of 1 to 75 bytes, whose opcode is their number. -/
  | push (data : Bytes) (hpos : 1 ≤ data.length) (hle : data.length ≤ 75) : Instruction (UInt8.ofNat data.length :: data)
  /-- A push with the number of bytes behind the opcode, least significant byte first. -/
  | counted (opcode : UInt8) (width : Nat) (data : Bytes) (hwidth : lengthWidth? opcode = some width)
    (hlt : data.length < 256 ^ width) : Instruction (opcode :: (Bytes.ofNatLE width data.length ++ data))
  /-- An opcode that pushes no data. -/
  | single (opcode : UInt8) (h : opcode = 0 ∨ 0x4e < opcode) : Instruction [opcode]

/-- Whether a script is made of whole instructions. -/
def Whole (script : Bytes) : Prop :=
  ∃ instructions : List Bytes, (∀ i ∈ instructions, Instruction i) ∧ instructions.flatten = script

theorem whole_nil : Whole [] := ⟨[], nofun, rfl⟩

theorem Instruction.exists_cons {i : Bytes} (h : Instruction i) : ∃ opcode body, i = opcode :: body := by
  cases h with
  | push data => exact ⟨_, _, rfl⟩
  | counted opcode width data => exact ⟨_, _, rfl⟩
  | single opcode => exact ⟨_, _, rfl⟩

/-- A whole script that is not empty is an instruction and a whole script. -/
theorem whole_cons_iff {opcode : UInt8} {rest : Bytes} :
    Whole (opcode :: rest) ↔ ∃ body next, Instruction (opcode :: body) ∧ rest = body ++ next ∧ Whole next := by
  constructor
  · rintro ⟨instructions, hinstructions, hflatten⟩
    cases instructions with
    | nil => cases hflatten
    | cons i instructions =>
      have hi := hinstructions i List.mem_cons_self
      obtain ⟨opcode', body, rfl⟩ := hi.exists_cons
      obtain ⟨rfl, hrest⟩ := List.cons.inj hflatten
      exact ⟨body, instructions.flatten, hi, hrest.symm, instructions,
        fun j hj => hinstructions j (List.mem_cons_of_mem _ hj), rfl⟩
  · rintro ⟨body, next, hi, rfl, instructions, hinstructions, rfl⟩
    refine ⟨(opcode :: body) :: instructions, fun j hj => ?_, rfl⟩
    rcases List.mem_cons.mp hj with rfl | hj
    · exact hi
    · exact hinstructions j hj

/-! ## One instruction -/

theorem skip?_eq_some_iff {n : Nat} {bs next : Bytes} :
    skip? n bs = some next ↔ ∃ data, data.length = n ∧ bs = data ++ next := by
  unfold skip?
  constructor
  · intro h
    split at h
    · rename_i hle
      cases h
      exact ⟨bs.take n, List.length_take_of_le hle, (List.take_append_drop n bs).symm⟩
    · cases h
  · rintro ⟨data, rfl, rfl⟩
    rw [if_pos (by rw [List.length_append]; omega), List.drop_left]

theorem skipCounted?_eq_some_iff {width : Nat} {bs next : Bytes} :
    skipCounted? width bs = some next ↔
      ∃ data, data.length < 256 ^ width ∧ bs = Bytes.ofNatLE width data.length ++ data ++ next := by
  unfold skipCounted?
  rw [Option.bind_eq_bind, Option.bind_eq_some_iff]
  constructor
  · rintro ⟨rest, hrest, hnext⟩
    obtain ⟨count, rfl, rfl⟩ := skip?_eq_some_iff.mp hrest
    rw [List.take_left] at hnext
    obtain ⟨data, hlength, rfl⟩ := skip?_eq_some_iff.mp hnext
    refine ⟨data, hlength ▸ Bytes.toNatLE_lt count, ?_⟩
    rw [hlength, Bytes.ofNatLE_toNatLE, List.append_assoc]
  · rintro ⟨data, hlt, rfl⟩
    have hlength : (Bytes.ofNatLE width data.length).length = width := Bytes.length_ofNatLE _ _
    have htake : (Bytes.ofNatLE width data.length ++ data ++ next).take width = Bytes.ofNatLE width data.length := by
      rw [List.append_assoc, List.take_left' hlength]
    refine ⟨data ++ next, skip?_eq_some_iff.mpr ⟨_, hlength, List.append_assoc _ _ _⟩, ?_⟩
    rw [htake, Bytes.toNatLE_ofNatLE_of_lt hlt]
    exact skip?_eq_some_iff.mpr ⟨data, rfl, rfl⟩

theorem afterInstruction?_of_counted {opcode : UInt8} {width : Nat} (h : lengthWidth? opcode = some width) (rest : Bytes) :
    afterInstruction? opcode rest = skipCounted? width rest := by
  unfold lengthWidth? at h
  unfold afterInstruction?
  split at h
  · rename_i hopcode
    cases h
    subst hopcode
    rfl
  · split at h
    · rename_i hopcode
      cases h
      subst hopcode
      rfl
    · split at h
      · rename_i hopcode
        cases h
        subst hopcode
        rfl
      · cases h

/-- The other opcodes: those that are the number of bytes they push, and those that push none. -/
theorem le_or_lt_of_lengthWidth? {opcode : UInt8} (h : lengthWidth? opcode = none) :
    opcode.toNat ≤ 75 ∨ 78 < opcode.toNat := by
  unfold lengthWidth? at h
  split at h
  · cases h
  · split at h
    · cases h
    · split at h
      · cases h
      · rename_i h₁ h₂ h₃
        have hne : ∀ n : UInt8, opcode ≠ n → opcode.toNat ≠ n.toNat := fun n hn heq => hn (UInt8.toNat_inj.mp heq)
        have h₁ : opcode.toNat ≠ 76 := hne 0x4c h₁
        have h₂ : opcode.toNat ≠ 77 := hne 0x4d h₂
        have h₃ : opcode.toNat ≠ 78 := hne 0x4e h₃
        omega

theorem lengthWidth?_of_le_or_lt {opcode : UInt8} (h : opcode.toNat ≤ 75 ∨ 78 < opcode.toNat) :
    lengthWidth? opcode = none := by
  have hne : ∀ n : UInt8, 75 < n.toNat → n.toNat ≤ 78 → opcode ≠ n := by
    rintro n hlow hhigh rfl
    omega
  unfold lengthWidth?
  rw [if_neg (hne 0x4c (by decide) (by decide)), if_neg (hne 0x4d (by decide) (by decide)),
    if_neg (hne 0x4e (by decide) (by decide))]

/-- An opcode with a length behind it is followed by the length and as many bytes. -/
theorem instruction_of_counted {opcode : UInt8} {width : Nat} {body : Bytes} (hwidth : lengthWidth? opcode = some width) :
    Instruction (opcode :: body) ↔ ∃ data, data.length < 256 ^ width ∧ body = Bytes.ofNatLE width data.length ++ data := by
  constructor
  · intro h
    cases h with
    | push _ hpos hle =>
      have hn : (UInt8.ofNat body.length).toNat = body.length := UInt8.toNat_ofNat_of_lt' (hle.trans_lt (by decide))
      rw [lengthWidth?_of_le_or_lt (Or.inl (hn.trans_le hle))] at hwidth
      cases hwidth
    | counted _ width' data hwidth' hlt =>
      rw [hwidth] at hwidth'
      cases hwidth'
      exact ⟨data, hlt, rfl⟩
    | single _ h =>
      have hout : opcode.toNat ≤ 75 ∨ 78 < opcode.toNat := by
        rcases h with rfl | h
        · exact Or.inl (by decide)
        · exact Or.inr (UInt8.lt_iff_toNat_lt.mp h)
      rw [lengthWidth?_of_le_or_lt hout] at hwidth
      cases hwidth
  · rintro ⟨data, hlt, rfl⟩
    exact .counted opcode width data hwidth hlt

/-- Any other opcode of at most 75 is followed by as many bytes, and those above by none. -/
theorem instruction_of_none {opcode : UInt8} {body : Bytes} (hwidth : lengthWidth? opcode = none) :
    Instruction (opcode :: body) ↔ body.length = if opcode ≤ 0x4b then opcode.toNat else 0 := by
  constructor
  · intro h
    cases h with
    | push _ hpos hle =>
      have hn : (UInt8.ofNat body.length).toNat = body.length := UInt8.toNat_ofNat_of_lt' (hle.trans_lt (by decide))
      have hopcode : UInt8.ofNat body.length ≤ 0x4b := UInt8.le_iff_toNat_le.mpr (hn.trans_le hle)
      rw [if_pos hopcode, hn]
    | counted _ width data hwidth' =>
      rw [hwidth] at hwidth'
      cases hwidth'
    | single _ h =>
      rcases h with rfl | h
      · rfl
      · have hopcode : ¬opcode ≤ 0x4b := by
          intro hle
          have hle := UInt8.le_iff_toNat_le.mp hle
          have hlt := UInt8.lt_iff_toNat_lt.mp h
          exact absurd (hlt.trans_le hle) (by decide)
        rw [if_neg hopcode]
        rfl
  · intro hlength
    split at hlength
    · rename_i hle
      have hle : opcode.toNat ≤ 75 := UInt8.le_iff_toNat_le.mp hle
      by_cases hzero : opcode.toNat = 0
      · have hnil := List.eq_nil_of_length_eq_zero (hlength.trans hzero)
        subst hnil
        exact .single opcode (Or.inl (UInt8.toNat_inj.mp hzero))
      · have hpush := Instruction.push body (by omega) (by omega)
        rwa [hlength, UInt8.ofNat_toNat] at hpush
    · rename_i hle
      have hnil := List.eq_nil_of_length_eq_zero hlength
      subst hnil
      rcases le_or_lt_of_lengthWidth? hwidth with hle' | hlt
      · exact absurd (UInt8.le_iff_toNat_le.mpr hle') hle
      · exact .single opcode (Or.inr (UInt8.lt_iff_toNat_lt.mpr hlt))

/-- The scan skips as many bytes as any other opcode is followed by. -/
theorem afterInstruction?_of_none {opcode : UInt8} (hwidth : lengthWidth? opcode = none) (rest : Bytes) :
    afterInstruction? opcode rest = skip? (if opcode ≤ 0x4b then opcode.toNat else 0) rest := by
  unfold afterInstruction?
  split
  · rfl
  · unfold lengthWidth? at hwidth
    split at hwidth
    · cases hwidth
    · rename_i h₁
      split at hwidth
      · cases hwidth
      · rename_i h₂
        split at hwidth
        · cases hwidth
        · rename_i h₃
          rw [if_neg h₁, if_neg h₂, if_neg h₃]
          rfl

/-- What is left after an opcode is what follows its instruction, when the whole instruction is there. -/
theorem afterInstruction?_eq_some_iff {opcode : UInt8} {rest next : Bytes} :
    afterInstruction? opcode rest = some next ↔ ∃ body, Instruction (opcode :: body) ∧ rest = body ++ next := by
  cases hwidth : lengthWidth? opcode with
  | some width =>
    simp only [afterInstruction?_of_counted hwidth, skipCounted?_eq_some_iff, instruction_of_counted hwidth]
    constructor
    · rintro ⟨data, hlt, rfl⟩
      exact ⟨_, ⟨data, hlt, rfl⟩, rfl⟩
    · rintro ⟨body, ⟨data, hlt, rfl⟩, rfl⟩
      exact ⟨data, hlt, rfl⟩
  | none => simp only [afterInstruction?_of_none hwidth, skip?_eq_some_iff, instruction_of_none hwidth]

/-! ## Scripts -/

theorem wellFormed_cons (opcode : UInt8) (rest : Bytes) :
    wellFormed (opcode :: rest) = (afterInstruction? opcode rest).elim false wellFormed := by
  rw [wellFormed]
  split
  · rename_i h
    rw [h]
    rfl
  · rename_i next h
    simp only [h, Option.elim_some]

/-- The scan accepts exactly the scripts that are made of whole instructions. -/
theorem wellFormed_iff {script : Bytes} : wellFormed script = true ↔ Whole script := by
  -- On the length, since the scan goes on behind a whole instruction, not behind a byte.
  induction hlength : script.length using Nat.strong_induction_on generalizing script with
  | _ n ih =>
    cases script with
    | nil => exact iff_of_true (by rw [wellFormed]) whole_nil
    | cons opcode rest =>
      rw [wellFormed_cons, whole_cons_iff]
      rw [List.length_cons] at hlength
      constructor
      · intro h
        cases hafter : afterInstruction? opcode rest with
        | none =>
          rw [hafter] at h
          cases h
        | some next =>
          rw [hafter] at h
          have hle := length_of_afterInstruction? hafter
          obtain ⟨body, hinstruction, hrest⟩ := afterInstruction?_eq_some_iff.mp hafter
          exact ⟨body, next, hinstruction, hrest, (ih next.length (by omega) rfl).mp h⟩
      · rintro ⟨body, next, hinstruction, hrest, hnext⟩
        have hafter := afterInstruction?_eq_some_iff.mpr ⟨body, hinstruction, hrest⟩
        have hle := length_of_afterInstruction? hafter
        rw [hafter, Option.elim_some]
        exact (ih next.length (by omega) rfl).mpr hnext

/-- An output script is accepted as it is, exactly when it is whole and not empty. -/
theorem check_eq_ok_iff {script script' : Bytes} :
    check script = .ok script' ↔ script' = script ∧ script ≠ [] ∧ Whole script := by
  unfold check
  rw [← wellFormed_iff]
  constructor
  · intro h
    split at h
    · cases h
    · rename_i hempty
      split at h
      · rename_i hwhole
        cases h
        exact ⟨rfl, fun hnil => hempty (by rw [hnil]; rfl), hwhole⟩
      · cases h
  · rintro ⟨rfl, hne, hwhole⟩
    rw [if_neg (by simpa using hne), if_pos hwhole]

end OfflineSigner.Bitcoin.Script
