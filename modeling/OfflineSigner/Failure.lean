/-!
# Failures

What a request that cannot be carried out answers with: a code from a closed list, a message, and details where there are
some. The parts of the library report their own causes; each cause has a code and a wording here.
-/

namespace OfflineSigner

/-- The kinds of failure. -/
inductive FailureCode where
  | invalidSeedLength
  | invalidDerivationPath
  | invalidPrivateKeyFound
  | missingPrivateKey
  | keyMismatch
  | invalidTransactionStructure
  | unsupportedFeeModel
  | serializationFailed
  | signingFailed
  | invalidInput
  | invalidAddress
  | cryptoError
  | hexError
  | jsonError
  | configError
  | internal
  deriving DecidableEq

namespace FailureCode

/-- All kinds, in order. -/
def all : List FailureCode := [
  invalidSeedLength, invalidDerivationPath, invalidPrivateKeyFound, missingPrivateKey, keyMismatch,
  invalidTransactionStructure, unsupportedFeeModel, serializationFailed, signingFailed, invalidInput, invalidAddress,
  cryptoError, hexError, jsonError, configError, internal]

/-- The words of a kind's name. -/
def words : FailureCode → List String
  | invalidSeedLength => ["invalid", "seed", "length"]
  | invalidDerivationPath => ["invalid", "derivation", "path"]
  | invalidPrivateKeyFound => ["invalid", "private", "key", "found"]
  | missingPrivateKey => ["missing", "private", "key"]
  | keyMismatch => ["key", "mismatch"]
  | invalidTransactionStructure => ["invalid", "transaction", "structure"]
  | unsupportedFeeModel => ["unsupported", "fee", "model"]
  | serializationFailed => ["serialization", "failed"]
  | signingFailed => ["signing", "failed"]
  | invalidInput => ["invalid", "input"]
  | invalidAddress => ["invalid", "address"]
  | cryptoError => ["crypto", "error"]
  | hexError => ["hex", "error"]
  | jsonError => ["json", "error"]
  | configError => ["config", "error"]
  | internal => ["internal"]

/-- The name of a kind in documents: its words joined by underscores. -/
def name (c : FailureCode) : String := String.intercalate "_" c.words

/-- The name of a kind in messages: its words run together, each with a capital. -/
def label (c : FailureCode) : String := String.join (c.words.map String.capitalize)

/-- The kind with a given name in documents. -/
def ofName? (s : String) : Option FailureCode := all.find? fun c => c.name == s

end FailureCode

/-- A failure as it is reported. -/
structure Failure where
  code : FailureCode
  message : String
  details : Option String := none
  deriving DecidableEq

namespace Failure

/-- One line: the label in brackets, the message, and the details in parentheses. -/
def display (f : Failure) : String :=
  let line := s!"[{f.code.label}] {f.message}"
  match f.details with
  | some details => s!"{line} ({details})"
  | none => line

/-- A seed of a length that is not allowed. -/
def seedLength (length : Nat) : Failure :=
  ⟨.invalidSeedLength, s!"Seed must be between 16 and 64 bytes, got {length}", none⟩

end Failure

end OfflineSigner
