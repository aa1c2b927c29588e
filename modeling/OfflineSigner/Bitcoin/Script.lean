import OfflineSigner.Bytes
import OfflineSigner.Failure

/-!
# Scripts

A script is a run of instructions: an opcode, or a push of data with its length in front. Only the form is looked at here;
a script is well formed when no push runs past its end.
-/

namespace OfflineSigner.Bitcoin.Script

/-- The string without its first `n` bytes; none when it has fewer. -/
def skip? (n : Nat) (bs : Bytes) : Option Bytes := if n ≤ bs.length then some (bs.drop n) else none

/-- The string without a length of `width` bytes, least significant first, and as many bytes as it says. -/
def skipCounted? (width : Nat) (bs : Bytes) : Option Bytes := do
  let rest ← skip? width bs
  skip? (Bytes.toNatLE (bs.take width)) rest

/-- What is left after the instruction that starts with an opcode. An opcode of at most 75 pushes as many bytes, and the
three after those push as many as the next one, two or four bytes say. -/
def afterInstruction? (opcode : UInt8) (rest : Bytes) : Option Bytes :=
  if opcode ≤ 0x4b then skip? opcode.toNat rest
  else if opcode = 0x4c then skipCounted? 1 rest
  else if opcode = 0x4d then skipCounted? 2 rest
  else if opcode = 0x4e then skipCounted? 4 rest
  else some rest

theorem length_of_skip? {n : Nat} {bs rest : Bytes} (h : skip? n bs = some rest) : rest.length ≤ bs.length := by
  unfold skip? at h
  split at h
  · cases h
    simp
  · cases h

theorem length_of_skipCounted? {width : Nat} {bs rest : Bytes} (h : skipCounted? width bs = some rest) :
    rest.length ≤ bs.length := by
  unfold skipCounted? at h
  cases h₁ : skip? width bs with
  | none => simp [h₁] at h
  | some mid =>
    simp only [h₁, Option.bind_eq_bind, Option.bind_some] at h
    exact Nat.le_trans (length_of_skip? h) (length_of_skip? h₁)

theorem length_of_afterInstruction? {opcode : UInt8} {bs rest : Bytes} (h : afterInstruction? opcode bs = some rest) :
    rest.length ≤ bs.length := by
  unfold afterInstruction? at h
  split at h
  · exact length_of_skip? h
  split at h
  · exact length_of_skipCounted? h
  split at h
  · exact length_of_skipCounted? h
  split at h
  · exact length_of_skipCounted? h
  · cases h
    exact Nat.le_refl _

/-- Whether a script is a run of whole instructions. -/
def wellFormed (script : Bytes) : Bool :=
  match script with
  | [] => true
  | opcode :: rest =>
    match h : afterInstruction? opcode rest with
    | none => false
    | some next =>
      have : next.length < rest.length + 1 := Nat.lt_succ_of_le (length_of_afterInstruction? h)
      wellFormed next
termination_by script.length

/-- Why a script cannot stand in an output. -/
inductive Error where
  | empty
  | truncated
  deriving DecidableEq

/-- The wording of a fault. -/
def Error.message : Error → String
  | .empty => "Script is empty"
  | .truncated => "Malformed script: unexpected end of script"

/-- A fault of a script as it is reported. -/
def Error.report (e : Error) : Failure := ⟨.invalidTransactionStructure, e.message, none⟩

/-- Refuses a script that cannot stand in an output. -/
def check (script : Bytes) : Except Error Bytes :=
  if script.isEmpty then .error .empty
  else if wellFormed script then .ok script
  else .error .truncated

/-- The key of a Taproot script: version one and a push of 32 bytes. -/
def taprootKey? : Bytes → Option (FixedBytes 32)
  | 0x51 :: 0x20 :: key => FixedBytes.ofList? 32 key
  | _ => none

end OfflineSigner.Bitcoin.Script
