import OfflineSigner.Proofs.Bitcoin.Script

/-!
# Scripts of outputs

What checking the script of an output comes to. The scan is told as a walk from instruction to instruction (`Scans`): each one
that it passes leaves fewer bytes, so a walk has at most as many instructions as the script has bytes (`Scans.count_add_length_le`),
and it ends at a script that is whole or at an instruction that is cut (`exists_scans_ends`). Main statement: which scripts are
accepted and how the others are refused (`check_outcome`).
-/

namespace OfflineSigner.Bitcoin.Script

/-! ## Walks -/

/-- A walk over a number of instructions, from the start of a script to what is left behind them. -/
inductive Scans : Nat → Bytes → Bytes → Prop
  | here (script : Bytes) : Scans 0 script script
  | step {count : Nat} {opcode : UInt8} {rest next last : Bytes} (hafter : afterInstruction? opcode rest = some next)
    (hscan : Scans count next last) : Scans (count + 1) (opcode :: rest) last

/-- Whether a walk ends at a script: nothing is left, or an instruction that is cut. -/
def Ends (script : Bytes) : Prop :=
  script = [] ∨ ∃ opcode rest, script = opcode :: rest ∧ afterInstruction? opcode rest = none

/-- Each instruction leaves fewer bytes. -/
theorem Scans.count_add_length_le {count : Nat} {script last : Bytes} (h : Scans count script last) :
    count + last.length ≤ script.length := by
  induction h with
  | here script => exact (Nat.zero_add _).le
  | step hafter _ ih =>
    have := length_of_afterInstruction? hafter
    rw [List.length_cons]
    omega

/-- A script is whole when it is whole behind its first instruction. -/
theorem whole_iff_of_afterInstruction? {opcode : UInt8} {rest next : Bytes} (h : afterInstruction? opcode rest = some next) :
    Whole (opcode :: rest) ↔ Whole next := by
  rw [whole_cons_iff]
  constructor
  · rintro ⟨body, next', hinstruction, hrest, hnext'⟩
    have h' := afterInstruction?_eq_some_iff.mpr ⟨body, hinstruction, hrest⟩
    rw [h] at h'
    rwa [Option.some.inj h']
  · intro hnext
    obtain ⟨body, hinstruction, hrest⟩ := afterInstruction?_eq_some_iff.mp h
    exact ⟨body, next, hinstruction, hrest, hnext⟩

theorem Scans.whole_iff {count : Nat} {script last : Bytes} (h : Scans count script last) : Whole script ↔ Whole last := by
  induction h with
  | here script => exact Iff.rfl
  | step hafter _ ih => exact (whole_iff_of_afterInstruction? hafter).trans ih

theorem not_whole_of_afterInstruction? {opcode : UInt8} {rest : Bytes} (h : afterInstruction? opcode rest = none) :
    ¬Whole (opcode :: rest) := by
  intro hwhole
  obtain ⟨body, next, hinstruction, hrest, -⟩ := whole_cons_iff.mp hwhole
  rw [afterInstruction?_eq_some_iff.mpr ⟨body, hinstruction, hrest⟩] at h
  cases h

theorem Ends.whole_iff {script : Bytes} (h : Ends script) : Whole script ↔ script = [] := by
  obtain rfl | ⟨opcode, rest, rfl, hafter⟩ := h
  · exact iff_of_true whole_nil rfl
  · exact iff_of_false (not_whole_of_afterInstruction? hafter) (List.cons_ne_nil _ _)

/-- A walk over any script ends. -/
theorem exists_scans_ends (script : Bytes) : ∃ count last, Scans count script last ∧ Ends last := by
  induction hlength : script.length using Nat.strong_induction_on generalizing script with
  | _ n ih =>
    cases script with
    | nil => exact ⟨0, [], .here [], .inl rfl⟩
    | cons opcode rest =>
      cases hafter : afterInstruction? opcode rest with
      | none => exact ⟨0, _, .here _, .inr ⟨opcode, rest, rfl, hafter⟩⟩
      | some next =>
        have hle := length_of_afterInstruction? hafter
        rw [List.length_cons] at hlength
        obtain ⟨count, last, hscan, hends⟩ := ih next.length (by omega) next rfl
        exact ⟨count + 1, last, .step hafter hscan, hends⟩

/-! ## Scripts behind scripts -/

/-- An instruction is passed over, whatever stands behind it. -/
theorem Instruction.afterInstruction? {opcode : UInt8} {body : Bytes} (h : Instruction (opcode :: body)) (more : Bytes) :
    Script.afterInstruction? opcode (body ++ more) = some more :=
  afterInstruction?_eq_some_iff.mpr ⟨body, h, rfl⟩

/-- Behind a whole script, what is left decides. -/
theorem whole_append_iff {script : Bytes} (h : Whole script) (more : Bytes) : Whole (script ++ more) ↔ Whole more := by
  obtain ⟨instructions, hinstructions, rfl⟩ := h
  induction instructions with
  | nil => exact Iff.rfl
  | cons i instructions ih =>
    have hi := hinstructions i List.mem_cons_self
    obtain ⟨opcode, body, rfl⟩ := hi.exists_cons
    rw [List.flatten_cons, List.append_assoc, List.cons_append, whole_iff_of_afterInstruction? (hi.afterInstruction? _)]
    exact ih fun j hj => hinstructions j (List.mem_cons_of_mem _ hj)

/-- No part of an instruction from its start is whole but the whole instruction. -/
theorem Instruction.not_whole_cut {cut rest : Bytes} (h : Instruction (cut ++ rest)) (hcut : cut ≠ []) (hrest : rest ≠ []) :
    ¬Whole cut := by
  obtain ⟨opcode, cut, rfl⟩ := List.exists_cons_of_ne_nil hcut
  intro hwhole
  obtain ⟨body, next, hbody, rfl, -⟩ := whole_cons_iff.mp hwhole
  -- The instruction that is found in the part ends within it, but the one that was cut goes on behind it.
  have hwithin := hbody.afterInstruction? (next ++ rest)
  have hbeyond := @Instruction.afterInstruction? opcode (body ++ next ++ rest) h []
  rw [List.append_nil, List.append_assoc, hwithin] at hbeyond
  exact hrest (List.append_eq_nil_iff.mp (Option.some.inj hbeyond)).2

/-! ## Checking -/

theorem check_eq_error_iff {script : Bytes} {e : Error} :
    check script = .error e ↔ script = [] ∧ e = .empty ∨ script ≠ [] ∧ ¬Whole script ∧ e = .truncated := by
  unfold check
  rw [← wellFormed_iff]
  split
  · rename_i hempty
    rw [List.isEmpty_iff] at hempty
    simp only [hempty, Except.error.injEq, ne_eq, not_true_eq_false, false_and, or_false, true_and]
    exact eq_comm
  · rename_i hempty
    rw [List.isEmpty_iff] at hempty
    split
    · rename_i hwhole
      simp [hempty, hwhole]
    · rename_i hwhole
      simp only [hempty, hwhole, Bool.false_eq_true, Except.error.injEq, ne_eq, not_false_eq_true, false_and, false_or, true_and]
      exact eq_comm

/-- A script is accepted, as it is, exactly when it is made of whole instructions and not empty, and in every other case it is
refused as a fault of the transaction. The scan ends on every script, after no more instructions than it has bytes, and accepts
when nothing is left. So whole instructions may be added to an accepted script, and a script that ends within an instruction is
refused. -/
theorem check_outcome (script : Bytes) :
    (∀ script', check script = .ok script' ↔ script' = script ∧ script ≠ [] ∧ Whole script) ∧
    (¬(script ≠ [] ∧ Whole script) → ∃ e, check script = .error e ∧ e.report.code = .invalidTransactionStructure) ∧
    ((∀ count last, Scans count script last → count ≤ script.length) ∧
      ∃ count last, Scans count script last ∧ Ends last ∧ (wellFormed script = true ↔ last = [])) ∧
    (check script = .ok script → ∀ more, Whole more → check (script ++ more) = .ok (script ++ more)) ∧
    ∀ cut rest, Whole script → Instruction (cut ++ rest) → cut ≠ [] → rest ≠ [] →
      check (script ++ cut) = .error .truncated := by
  refine ⟨fun script' => check_eq_ok_iff, fun h => ?_, ⟨fun count last hscan => ?_, ?_⟩, fun h more hmore => ?_,
    fun cut rest hscript hinstruction hcut hrest => ?_⟩
  · by_cases hempty : script = []
    · exact ⟨.empty, check_eq_error_iff.mpr (.inl ⟨hempty, rfl⟩), rfl⟩
    · exact ⟨.truncated, check_eq_error_iff.mpr (.inr ⟨hempty, fun hwhole => h ⟨hempty, hwhole⟩, rfl⟩), rfl⟩
  · have := hscan.count_add_length_le
    omega
  · obtain ⟨count, last, hscan, hends⟩ := exists_scans_ends script
    exact ⟨count, last, hscan, hends, wellFormed_iff.trans (hscan.whole_iff.trans hends.whole_iff)⟩
  · obtain ⟨-, hempty, hwhole⟩ := check_eq_ok_iff.mp h
    exact check_eq_ok_iff.mpr ⟨rfl, fun hnil => hempty (List.append_eq_nil_iff.mp hnil).1, (whole_append_iff hwhole more).mpr hmore⟩
  · refine check_eq_error_iff.mpr (.inr ⟨fun hnil => hcut (List.append_eq_nil_iff.mp hnil).2, fun hwhole => ?_, rfl⟩)
    exact hinstruction.not_whole_cut hcut hrest ((whole_append_iff hscript cut).mp hwhole)

/-- A push of two bytes with its length behind the opcode, an opcode alone in front of it, and the push without its last byte. -/
theorem check_outcome_sample :
    (check [0x51] = .ok [0x51] ∧ check [0x51, 0x4c, 0x02, 0xaa, 0xbb] = .ok [0x51, 0x4c, 0x02, 0xaa, 0xbb]) ∧
    (Instruction [0x4c, 0x02, 0xaa, 0xbb] ∧ check [0x51, 0x4c, 0x02, 0xaa] = .error .truncated) ∧
    ∃ e, check [0x4e, 0x01, 0x00, 0x00] = .error e ∧ e.report.code = .invalidTransactionStructure := by
  have hpush : Instruction [0x4c, 0x02, 0xaa, 0xbb] := .counted 0x4c 1 [0xaa, 0xbb] rfl (by decide)
  have hopcode : Instruction [0x51] := .single 0x51 (.inr (by decide))
  have hwhole : Whole [0x51] := ⟨[[0x51]], List.forall_mem_singleton.mpr hopcode, rfl⟩
  have hpushes : Whole [0x4c, 0x02, 0xaa, 0xbb] := ⟨[_], List.forall_mem_singleton.mpr hpush, rfl⟩
  have haccepted : check [0x51] = .ok [0x51] := ((check_outcome [0x51]).1 _).mpr ⟨rfl, List.cons_ne_nil _ _, hwhole⟩
  refine ⟨⟨haccepted, (check_outcome [0x51]).2.2.2.1 haccepted _ hpushes⟩, ⟨hpush, ?_⟩, ?_⟩
  · exact (check_outcome [0x51]).2.2.2.2 [0x4c, 0x02, 0xaa] [0xbb] hwhole hpush (List.cons_ne_nil _ _) (List.cons_ne_nil _ _)
  · refine (check_outcome [0x4e, 0x01, 0x00, 0x00]).2.1 fun h => ?_
    exact not_whole_of_afterInstruction? (by decide) h.2

end OfflineSigner.Bitcoin.Script
