import OfflineSigner.Document.Failure
import OfflineSigner.Proofs.Json.Record
import OfflineSigner.Proofs.Json.Written

/-!
# Failures as documents

What documents say of a failure, as arrays and as objects. A document is read as a failure exactly when it says that failure
(`reads_failure`), and a failure that is written says itself (`saysFailure_tree`).
-/

namespace OfflineSigner

/-- Each kind of failure has its name for itself. -/
theorem FailureCode.ofName?_name (c : FailureCode) : ofName? c.name = some c := by
  cases c <;> decide

namespace Document

open Json

/-- Whether a value names a code. -/
def SaysCode : Tree → FailureCode → Prop := SaysChoice FailureCode.ofName?

/-- The slots of a failure. -/
def failureSlots : List (Slot FailureFields) := [
  ⟨["code"], SaysCode, failureCode, reads_choice, (·.code), fun v st => { st with code := some v }⟩,
  ⟨["message"], SaysText, string, reads_string, (·.message), fun v st => { st with message := some v }⟩,
  ⟨["details"], SaysOptional SaysText, optional string, reads_string.optional, (·.details),
    fun v st => { st with details := some v }⟩]

theorem reading_failure : Reading failureField {} failureSlots where
  known := by
    simp only [failureSlots, List.forall_mem_cons, List.not_mem_nil, false_implies, implies_true, and_true]
    and_intros <;> exact fun st => ⟨_, rfl⟩
  unknown := by
    intro st key hkey
    simp only [failureSlots, List.forall_mem_cons] at hkey
    unfold failureField
    split <;> simp_all
  get_empty := by simp [failureSlots]
  get_set := by simp [failureSlots]
  apart := by
    simp only [failureSlots, List.pairwise_cons, List.forall_mem_cons, List.not_mem_nil, false_implies, implies_true, and_true,
      List.Pairwise.nil]
    and_intros <;> constructor <;> simp
  ext := by
    rintro ⟨⟩ ⟨⟩ h
    simp_all [failureSlots]

theorem FailureFields.finish_eq_ok_iff {st : FailureFields} {cs cs' : List Char} {f : Failure} :
    st.finish cs = .ok (f, cs') ↔
      (st.code = some f.code ∧ st.message = some f.message ∧ st.details.join = f.details) ∧ cs' = cs := by
  obtain ⟨code, message, details⟩ := f
  simp only [FailureFields.finish, Reader.bind_eq_ok_iff, required_eq_ok_iff, Reader.pure_eq_ok_iff, Prod.mk.injEq,
    Failure.mk.injEq]
  grind

/-- What the elements of an array say of a failure. -/
def SaysFailureElements : List Tree → Failure → Prop :=
  NextSays SaysCode fun code => NextSays SaysText fun message => NextSays (SaysOptional SaysText) fun details =>
    EndSays { code, message, details }

/-- What the members of an object say of a failure. -/
def SaysFailureMembers (members : List (Option String × Tree)) (f : Failure) : Prop :=
  (∀ member ∈ members, member.1 ≠ none) ∧
  SaysMember ["code"] SaysCode members (some f.code) ∧
  SaysMember ["message"] SaysText members (some f.message) ∧
  ∃ details, SaysMember ["details"] (SaysOptional SaysText) members details ∧ details.join = f.details

/-- What a value says of a failure. -/
def SaysFailure : Tree → Failure → Prop := SaysRecord SaysFailureElements SaysFailureMembers

theorem reads_failure : Reads failure SaysFailure := by
  refine reads_record _ ?_ fun space members rest f cs => ?_
  · simp only [bind_assoc, pure_bind]
    exact .elementAt reads_choice 0 _ fun code => .elementAt reads_string 1 _ fun message =>
      .elementAt reads_string.optional 2 _ fun details => readsElements_end _
  · rw [Reader.bind_eq_ok_iff]
    simp only [reading_failure.fields_eq_ok_iff, FailureFields.finish_eq_ok_iff, SaysMembers, failureSlots, SaysFailureMembers,
      List.forall_mem_cons]
    constructor
    · rintro ⟨st, _, ⟨⟨hkeys, hcode, hmessage, hdetails, -⟩, rfl⟩, ⟨h₁, h₂, h₃⟩, rfl⟩
      exact ⟨⟨hkeys, h₁ ▸ hcode, h₂ ▸ hmessage, _, hdetails, h₃⟩, rfl⟩
    · rintro ⟨⟨hkeys, hcode, hmessage, details, hdetails, h₃⟩, rfl⟩
      exact ⟨⟨_, _, details⟩, _, ⟨⟨hkeys, hcode, hmessage, hdetails, List.forall_mem_nil _⟩, rfl⟩, ⟨rfl, rfl, h₃⟩, rfl⟩

theorem saysOptional_ofText? (details : Option String) : SaysOptional SaysText (Value.ofText? details).tree details := by
  cases details with
  | none => exact .inl ⟨rfl, rfl⟩
  | some s => exact .inr ⟨nofun, s, rfl, rfl⟩

/-- A failure that is written says itself. -/
theorem saysFailure_tree (f : Failure) : SaysFailure (ofFailure f).tree f := by
  refine .inr ⟨_, rfl, by simp [Value.memberTrees], ?_, ?_, some f.details, ?_, rfl⟩
  · exact saysMember_some.mpr ⟨_, rfl, f.code.name, f.code.ofName?_name, .inl rfl⟩
  · exact saysMember_some.mpr ⟨_, rfl, rfl⟩
  · exact saysMember_some.mpr ⟨_, rfl, saysOptional_ofText? f.details⟩

end Document

end OfflineSigner
