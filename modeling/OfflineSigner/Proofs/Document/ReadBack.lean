import OfflineSigner.Document.Signature
import OfflineSigner.Proofs.Bytes
import OfflineSigner.Proofs.Document.Failure
import OfflineSigner.Proofs.Hex

/-!
# Failures and signatures read back

A document is read as a signature exactly when it is one string whose lower case is what is written for the signature
(`read_signature_eq_ok_iff`). Main statement: failures and signatures that are written are read back, and the documents of
signatures are the strings of 128 hexadecimal digits (`written_read_back`).
-/

namespace OfflineSigner.Document

open Json Curve

/-! ## Signatures -/

/-- A signature is read where a string is read that writes its bytes in either case. -/
theorem signature_eq_ok_iff {cs rest : List Char} {σ : Schnorr.Signature} : signature cs = .ok (σ, rest) ↔
    ∃ text, string cs = .ok (text, rest) ∧ text.toList.map Char.toLower = Hex.encodeChars σ.toList := by
  have hbytes : ∀ (text : String) (bs : Bytes),
      Hex.decode text = .ok bs ↔ text.toList.map Char.toLower = Hex.encodeChars bs := fun _ _ => Hex.decodeUtf8_eq_ok_iff
  rw [signature, Reader.bind_eq_ok_iff]
  constructor
  · rintro ⟨text, rest', htext, h⟩
    cases hbs : Hex.decode text with
    | error e =>
      rw [hbs] at h
      exact absurd h (fails_throw _ _ _)
    | ok bs =>
      rw [hbs] at h
      dsimp only at h
      cases hσ : FixedBytes.ofList? 64 bs with
      | none =>
        rw [hσ] at h
        exact absurd h (fails_throw _ _ _)
      | some σ' =>
        rw [hσ] at h
        obtain ⟨rfl, rfl⟩ := Prod.mk.inj (Reader.pure_eq_ok_iff.mp h)
        refine ⟨text, htext, ?_⟩
        rw [FixedBytes.ofList?_eq_some_iff.mp hσ]
        exact (hbytes text bs).mp hbs
  · rintro ⟨text, htext, hdigits⟩
    refine ⟨text, rest, htext, ?_⟩
    rw [(hbytes text σ.toList).mpr hdigits]
    dsimp only
    rw [FixedBytes.ofList?_toList]
    rfl

theorem read_signature_eq_ok_iff {document : String} {σ : Schnorr.Signature} : Json.read signature document = .ok σ ↔
    ∃ text, IsString document text ∧ text.toList.map Char.toLower = Hex.encodeChars σ.toList := by
  simp only [← read_string_eq_ok_iff, read_eq_ok_iff_gap, signature_eq_ok_iff]
  grind

/-- A digit that is written is not escaped. -/
theorem escapeChar_digit (n : Nat) : escapeChar (Hex.digit n) = [Hex.digit n] := by
  have hall : ∀ k : Fin 16, escapeChar (Hex.digit k.val) = [Hex.digit k.val] := by decide
  rw [← Hex.digit_mod]
  exact hall ⟨n % 16, Nat.mod_lt n (by decide)⟩

/-- A signature is written as its digits between quotes. -/
theorem compact_ofSignature (σ : Schnorr.Signature) :
    (ofSignature σ).compact = "\"" ++ String.ofList (Hex.encodeChars σ.toList) ++ "\"" := by
  have hplain : (Hex.encodeChars σ.toList).flatMap escapeChar = Hex.encodeChars σ.toList := by
    conv_rhs => rw [← List.flatMap_singleton' (Hex.encodeChars σ.toList)]
    refine List.flatMap_congr fun c hc => ?_
    obtain ⟨n, rfl⟩ := Hex.exists_digit_of_mem hc
    exact escapeChar_digit n
  rw [ofSignature, Value.compact, Value.compactChars, writeString, Hex.encode, String.toList_ofList, hplain,
    ← String.toList_inj]
  simp

/-- Texts of 128 hexadecimal digits are those whose lower case is written for some signature. -/
theorem exists_signature_iff {cs : List Char} : (∃ σ : Schnorr.Signature, cs.map Char.toLower = Hex.encodeChars σ.toList) ↔
    cs.length = 128 ∧ ∀ c ∈ cs, Text.isHexDigit c = true := by
  have hlength : ∀ {bs : Bytes}, cs.map Char.toLower = Hex.encodeChars bs → cs.length = 2 * bs.length := by
    intro bs h
    rw [← Hex.length_encodeChars, ← h, List.length_map]
  constructor
  · rintro ⟨σ, h⟩
    refine ⟨?_, (Hex.exists_encodeChars_iff.mp ⟨_, h⟩).2⟩
    rw [hlength h, σ.length_toList]
  · rintro ⟨hcs, hdigits⟩
    obtain ⟨bs, h⟩ := Hex.exists_encodeChars_iff.mpr ⟨by omega, hdigits⟩
    have hbs : bs.length = 64 := by
      have := hlength h
      omega
    exact ⟨⟨bs, hbs⟩, h⟩

theorem read_signature_text (form : Form) (σ : Schnorr.Signature) : Json.read signature (form.text (ofSignature σ)) = .ok σ := by
  have hstring : IsString (form.text (ofSignature σ)) (Hex.encode σ.toList) :=
    read_string_eq_ok_iff.mp ((read_text_eq_ok_iff reads_string form _ _).mpr rfl)
  exact read_signature_eq_ok_iff.mpr ⟨_, hstring, Hex.decodeUtf8_eq_ok_iff.mp (Hex.decode_encode σ.toList)⟩

/-! ## Both -/

theorem read_failure_text (form : Form) (f : Failure) : Json.read failure (form.text (ofFailure f)) = .ok f :=
  (read_text_eq_ok_iff reads_failure form _ f).mpr (saysFailure_tree f)

/-- Failures and signatures that are written are read back, in either form. A document is read as a signature exactly when it is one
string of 128 hexadecimal digits of either case, and the signature is then written as that string in lower case. -/
theorem written_read_back :
    (∀ f : Failure, Json.read failure (ofFailure f).compact = .ok f ∧ Json.read failure (ofFailure f).pretty = .ok f) ∧
    (∀ σ : Schnorr.Signature,
      Json.read signature (ofSignature σ).compact = .ok σ ∧ Json.read signature (ofSignature σ).pretty = .ok σ) ∧
    (∀ document, (∃ σ, Json.read signature document = .ok σ) ↔
      ∃ text, IsString document text ∧ text.toList.length = 128 ∧ ∀ c ∈ text.toList, Text.isHexDigit c = true) ∧
    ∀ document text σ, IsString document text → Json.read signature document = .ok σ →
      (ofSignature σ).compact = "\"" ++ String.ofList (text.toList.map Char.toLower) ++ "\"" := by
  refine ⟨fun f => ⟨read_failure_text .compact f, read_failure_text .pretty f⟩,
    fun σ => ⟨read_signature_text .compact σ, read_signature_text .pretty σ⟩, fun document => ?_, fun document text σ htext hσ => ?_⟩
  · simp only [read_signature_eq_ok_iff, ← exists_signature_iff]
    grind
  · obtain ⟨text', htext', hdigits⟩ := read_signature_eq_ok_iff.mp hσ
    have heq := (read_string_eq_ok_iff.mpr htext).symm.trans (read_string_eq_ok_iff.mpr htext')
    rw [compact_ofSignature, Except.ok.inj heq, hdigits]

section Sample

/-- A failure whose message has quotes, control characters and a character of two bytes. -/
def sampleFailure : Failure := ⟨.invalidDerivationPath, "no \"m/\"\n\x01\x7f\\é", some ""⟩

theorem numeral_sample : Text.Numeral 16 ['0', '0', '4', '1'] 0x41 := ⟨2, by decide⟩

/-- A string of 128 digits in upper case, the first by its number. -/
def sampleLiteral : Literal := .code '0' '0' '4' '1' 0x41 numeral_sample :: List.replicate 127 (.plain 'A' (by decide))

/-- The string behind a new line. -/
def sampleSignature : Placed Layout := ⟨⟨['\n'], List.forall_mem_singleton.mpr rfl⟩, .string sampleLiteral, .none⟩

theorem isString_sampleSignature : IsString sampleSignature.text (String.ofList (List.replicate 128 'A')) := by
  have hdecode : ∀ n, Literal.decode? (List.replicate n (.plain 'A' (by decide))) = some (List.replicate n 'A') := by
    intro n
    induction n with
    | zero => rfl
    | succ n ih =>
      rw [List.replicate_succ, Literal.decode?, ih]
      rfl
  refine ⟨_, sampleLiteral, _, rfl, ?_⟩
  rw [Literal.text?, sampleLiteral, Literal.decode?_code (by decide) (by decide), hdecode]
  rfl

theorem written_read_back_sample :
    Json.read failure (ofFailure sampleFailure).compact = .ok sampleFailure ∧
    ∃ σ, Json.read signature sampleSignature.text = .ok σ ∧
      (ofSignature σ).compact = "\"" ++ String.ofList (List.replicate 128 'a') ++ "\"" := by
  obtain ⟨hfailure, -, hdocuments, hlower⟩ := written_read_back
  have hdigits : ∀ c ∈ (String.ofList (List.replicate 128 'A')).toList, Text.isHexDigit c = true := by
    intro c hc
    rw [String.toList_ofList] at hc
    rw [List.eq_of_mem_replicate hc]
    rfl
  have hlength : (String.ofList (List.replicate 128 'A')).toList.length = 128 := by
    rw [String.toList_ofList, List.length_replicate]
  obtain ⟨σ, hσ⟩ := (hdocuments sampleSignature.text).mpr ⟨_, isString_sampleSignature, hlength, hdigits⟩
  refine ⟨(hfailure sampleFailure).1, σ, hσ, ?_⟩
  have hletter : Char.toLower 'A' = 'a' := rfl
  rw [hlower _ _ _ isString_sampleSignature hσ, String.toList_ofList, List.map_replicate, hletter]

end Sample

end OfflineSigner.Document
