import OfflineSigner.Failure
import OfflineSigner.Json.Reader
import OfflineSigner.Json.Value

/-!
# Failures as documents

A failure has three members: the name of its code, its message, and its details or null.
-/

namespace OfflineSigner.Document

open Json

/-- A fault in a document as it is reported. -/
def reportJson (e : Json.Error) : Failure := ⟨.jsonError, e.message, none⟩

/-- A failure as a value. -/
def ofFailure (f : Failure) : Value :=
  .object [("code", .string f.code.name), ("message", .string f.message), ("details", Value.ofText? f.details)]

/-- What is read of a failure. -/
structure FailureFields where
  code : Option FailureCode := none
  message : Option String := none
  details : Option (Option String) := none

/-- The name of a code. -/
def failureCode : Reader FailureCode := choice (FailureCode.all.map FailureCode.name) FailureCode.ofName?

/-- The reader of a member of a failure. -/
def failureField (st : FailureFields) (key : String) : Option (Reader FailureFields) :=
  match key with
  | "code" => once st.code key failureCode fun v => { st with code := some v }
  | "message" => once st.message key string fun v => { st with message := some v }
  | "details" => once st.details key (optional string) fun v => { st with details := some v }
  | _ => none

/-- A failure from its members. -/
def FailureFields.finish (st : FailureFields) : Reader Failure := do
  let code ← required "code" st.code
  let message ← required "message" st.message
  return ⟨code, message, st.details.join⟩

/-- A failure. -/
def failure : Reader Failure :=
  let expected := "struct SignerError with 3 elements"
  record "SignerError"
    (do
      let code ← elementAt expected 0 failureCode
      let message ← elementAt expected 1 string
      let details ← elementAt expected 2 (optional string)
      return ⟨code, message, details⟩)
    (do (← fields failureField {}).finish)

end OfflineSigner.Document
