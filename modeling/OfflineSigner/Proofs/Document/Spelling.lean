import OfflineSigner.Proofs.Document.Bitcoin

/-!
# Spellings of requests for Bitcoin transactions

Texts that write the same request are read alike. Main statement: a text that writes each field of a request once, under one of
its names, is read as that request, whatever the order of its members, its other members, its spaces and its escapes; and a
text in which an object of the request writes a field twice, under whatever names, is refused (`bitcoinRequest_spelling`).
-/

namespace OfflineSigner

namespace Json

variable {α : Type} {Says Says' : Tree → α → Prop}

theorem SaysMember.imp (h : ∀ t a, Says t a → Says' t a) {names : List String} {members : List (Option String × Tree)}
    {o : Option α} (hmember : SaysMember names Says members o) : SaysMember names Says' members o := by
  rcases hmember with hnone | ⟨t, v, hunder, hv, ho⟩
  · exact .inl hnone
  · exact .inr ⟨t, v, hunder, h t v hv, ho⟩

theorem SaysList.imp (h : ∀ t a, Says t a → Says' t a) {t : Tree} {as : List α} (hlist : SaysList Says t as) :
    SaysList Says' t as := by
  obtain ⟨ts, ht, has⟩ := hlist
  exact ⟨ts, ht, has.imp h⟩

/-- What each element of an array is when it says something. -/
theorem SaysList.forall_mem {ts : List Tree} {as : List α} (hlist : SaysList Says (.array ts) as) {p : Tree → Prop}
    (h : ∀ t a, Says t a → p t) : ∀ t ∈ ts, p t := by
  obtain ⟨_, heq, has⟩ := hlist
  obtain rfl := Tree.array.inj heq
  exact ((List.forall₂_and_left ts as).mp (has.imp fun t a ha => ⟨h t a ha, ha⟩)).1

/-- Whether an object writes one of its fields twice, each under one of its names. -/
def WritesTwice (fields : List (List String)) (t : Tree) : Prop :=
  ∃ members, t = .object members ∧ ∃ names ∈ fields, 2 ≤ (under names members).length

theorem not_writesTwice {fields : List (List String)} {members : List (Option String × Tree)}
    (h : ∀ names ∈ fields, (under names members).length ≤ 1) : ¬WritesTwice fields (.object members) := by
  rintro ⟨_, heq, names, hnames, htwice⟩
  obtain rfl := Tree.object.inj heq
  exact absurd (h names hnames) (by omega)

/-- Whether a value is a field of another: a member under one of its names of an object, or the element at its place of an
array. -/
def FieldOf (names : List String) (place : Nat) (t u : Tree) : Prop :=
  (∃ members, t = .object members ∧ u ∈ under names members) ∨ ∃ ts, t = .array ts ∧ ts[place]? = some u

theorem fieldOf_array_iff {names : List String} {place : Nat} {ts : List Tree} {u : Tree} :
    FieldOf names place (.array ts) u ↔ ts[place]? = some u := by
  simp [FieldOf]

theorem SaysMember.of_fieldOf {names : List String} {members : List (Option String × Tree)} {a : α}
    (h : SaysMember names Says members (some a)) {place : Nat} {u : Tree} (hu : FieldOf names place (.object members) u) :
    Says u a := by
  obtain ⟨t, hunder, ht⟩ := saysMember_some.mp h
  obtain ⟨_, heq, hmem⟩ | ⟨ts, heq, -⟩ := hu
  · obtain rfl := Tree.object.inj heq
    rw [hunder, List.mem_singleton] at hmem
    rwa [hmem]
  · cases heq

end Json

namespace Document

open Json

theorem ofName?_name (n : Network) : Network.ofName? n.name = some n := by
  cases n <;> decide

/-- Whether an object writes an input: its keys are texts, and each field is there once, under its name or its second name. A field
that is none may be missing or null, and what stands under other keys does not matter. -/
def WritesInput (t : Tree) (input : Request.BitcoinInput) : Prop :=
  ∃ members, t = .object members ∧ SaysInputMembers members input

/-- Whether an object writes an output, in the same way. -/
def WritesOutput (t : Tree) (output : Request.BitcoinOutput) : Prop :=
  ∃ members, t = .object members ∧ SaysOutputMembers members output

/-- Whether an object writes a request, in the same way. -/
def WritesBitcoin (t : Tree) (r : Request.Bitcoin) : Prop :=
  ∃ members, t = .object members ∧ (∀ member ∈ members, member.1 ≠ none) ∧
    SaysMember ["privateKey"] SaysText members (some r.secretKey) ∧
    SaysMember ["network"] (fun t n => SaysText t n.name) members (some r.network) ∧
    SaysMember ["inputs"] (SaysList WritesInput) members (some r.inputs) ∧
    SaysMember ["outputs", "output"] (SaysList WritesOutput) members (some r.outputs)

/-- The fields of an input, each with its names. -/
def inputKeys : List (List String) := [["txid"], ["vout", "index"], ["amount"], ["scriptPubkey", "output"], ["publicKey"]]

/-- The fields of an output, each with its names. -/
def outputKeys : List (List String) := [["amount", "value"], ["address", "sendAddress"], ["script"]]

/-- The fields of a request, each with its names. -/
def bitcoinKeys : List (List String) := [["privateKey"], ["network"], ["inputs"], ["outputs", "output"]]

/-- Whether an object of a request writes a field twice: the request, one of its inputs, or one of its outputs. -/
inductive RepeatsField (t : Tree) : Prop
  | request (h : WritesTwice bitcoinKeys t)
  | input {ts : List Tree} (hinputs : FieldOf ["inputs"] 2 t (.array ts)) {u : Tree} (hu : u ∈ ts) (h : WritesTwice inputKeys u)
  | output {ts : List Tree} (houtputs : FieldOf ["outputs", "output"] 3 t (.array ts)) {u : Tree} (hu : u ∈ ts)
    (h : WritesTwice outputKeys u)

theorem WritesBitcoin.toRecord {t : Tree} {r : Request.Bitcoin} (h : WritesBitcoin t r) :
    SaysRecord SaysBitcoinElements SaysBitcoinMembers t r := by
  obtain ⟨members, rfl, hkeys, hsecretKey, hnetwork, hinputs, houtputs⟩ := h
  refine .inr ⟨members, rfl, hkeys, hsecretKey, hnetwork.imp fun t n hn => ⟨n.name, ofName?_name n, .inl hn⟩, ?_, ?_⟩
  · exact hinputs.imp fun t inputs h => h.imp fun t input hinput => .inr hinput
  · exact houtputs.imp fun t outputs h => h.imp fun t output houtput => .inr houtput

theorem not_writesTwice_input {t : Tree} {input : Request.BitcoinInput}
    (h : SaysRecord SaysInputElements SaysInputMembers t input) : ¬WritesTwice inputKeys t := by
  obtain ⟨ts, rfl, -⟩ | ⟨members, rfl, -, htransaction, hindex, hvalue, ⟨_, hscript, -⟩, _, hpublicKey, -⟩ := h
  · rintro ⟨_, heq, -⟩
    cases heq
  · refine not_writesTwice ?_
    simpa [inputKeys] using ⟨htransaction.length_le, hindex.length_le, hvalue.length_le, hscript.length_le, hpublicKey.length_le⟩

theorem not_writesTwice_output {t : Tree} {output : Request.BitcoinOutput}
    (h : SaysRecord SaysOutputElements SaysOutputMembers t output) : ¬WritesTwice outputKeys t := by
  obtain ⟨ts, rfl, -⟩ | ⟨members, rfl, -, hvalue, ⟨_, haddress, -⟩, _, hscript, -⟩ := h
  · rintro ⟨_, heq, -⟩
    cases heq
  · refine not_writesTwice ?_
    simpa [outputKeys] using ⟨hvalue.length_le, haddress.length_le, hscript.length_le⟩

/-- The lists of inputs and of outputs within a request that is said. -/
theorem saysLists_of_fieldOf {t u : Tree} {r : Request.Bitcoin} (h : SaysRecord SaysBitcoinElements SaysBitcoinMembers t r) :
    (FieldOf ["inputs"] 2 t u → SaysInputs u r.inputs) ∧ (FieldOf ["outputs", "output"] 3 t u → SaysOutputs u r.outputs) := by
  rcases h with ⟨_, rfl, _, _, _, rfl, -, _, _, _, rfl, -, _, _, _, rfl, hinputs, _, _, _, rfl, houtputs, rfl, rfl⟩ |
    ⟨members, rfl, -, -, -, hinputs, houtputs⟩
  · rw [fieldOf_array_iff, fieldOf_array_iff]
    exact ⟨fun hu => Option.some.inj hu ▸ hinputs, fun hu => Option.some.inj hu ▸ houtputs⟩
  · exact ⟨hinputs.of_fieldOf, houtputs.of_fieldOf⟩

/-- No object writes a field twice in a request that is said. -/
theorem not_repeatsField {t : Tree} {r : Request.Bitcoin} (h : SaysRecord SaysBitcoinElements SaysBitcoinMembers t r) :
    ¬RepeatsField t := by
  rintro (hrequest | @⟨ts, hts, u, hu, htwice⟩ | @⟨ts, hts, u, hu, htwice⟩)
  · obtain ⟨ts, rfl, -⟩ | ⟨members, rfl, -, hsecretKey, hnetwork, hinputs, houtputs⟩ := h
    · obtain ⟨_, heq, -⟩ := hrequest
      cases heq
    · refine not_writesTwice ?_ hrequest
      simpa [bitcoinKeys] using ⟨hsecretKey.length_le, hnetwork.length_le, hinputs.length_le, houtputs.length_le⟩
  · have hinputs : SaysInputs (.array ts) r.inputs := (saysLists_of_fieldOf h).1 hts
    have hinput : ∀ u ∈ ts, ¬WritesTwice inputKeys u := SaysList.forall_mem hinputs fun _ _ => not_writesTwice_input
    exact hinput u hu htwice
  · have houtputs : SaysOutputs (.array ts) r.outputs := (saysLists_of_fieldOf h).2 hts
    have houtput : ∀ u ∈ ts, ¬WritesTwice outputKeys u := SaysList.forall_mem houtputs fun _ _ => not_writesTwice_output
    exact houtput u hu htwice

/-- A text that writes each field of a request once is read as that request, and a text in which an object writes a field twice
is refused. -/
theorem bitcoinRequest_spelling (text : Placed Layout) :
    (∀ r, WritesBitcoin text.value.tree r → Json.read bitcoinRequest text.text = .ok r) ∧
    (RepeatsField text.value.tree → ∃ e, Json.read bitcoinRequest text.text = .error e) := by
  refine ⟨fun r h => (read_eq_ok_iff reads_bitcoinRequest text r).mpr h.toRecord, fun h => ?_⟩
  cases hread : Json.read bitcoinRequest text.text with
  | error e => exact ⟨e, rfl⟩
  | ok r => exact absurd h (not_repeatsField ((read_eq_ok_iff reads_bitcoinRequest text r).mp hread))

section Sample

/-- A literal of characters that stand for themselves. -/
def plainLiteral (s : String) : Literal :=
  s.toList.filterMap fun c => if h : c ≠ '"' ∧ c ≠ '\\' ∧ 0x20 ≤ c.toNat then some (.plain c h) else none

/-- A member with a space in front of its value. -/
def spacedMember (key : Literal) (d : Layout) : Placed Literal × Placed Layout :=
  (⟨.none, key, .none⟩, ⟨⟨[' '], List.forall_mem_singleton.mpr rfl⟩, d, .none⟩)

/-- A number of one digit. -/
def digitNumber (c : Char) (hc : Text.isDigit c = true) : Layout :=
  .number ⟨false, ⟨[c], List.cons_ne_nil c [], List.forall_mem_singleton.mpr hc⟩,
    fun hzero => congrArg (fun c => [c]) (Option.some.inj hzero), none, none⟩

/-- An input with an escape in a key and the second name of its index, in another order. -/
def sampleInput : Layout := .object .none [
  spacedMember (plainLiteral "amount") (digitNumber '9' rfl),
  spacedMember (plainLiteral "index") (digitNumber '0' rfl),
  spacedMember (plainLiteral "txi" ++ [.code '0' '0' '6' '4' 0x64 ⟨2, by decide⟩]) (.string (plainLiteral "ab"))]

/-- An output with second names and a null. -/
def sampleOutput : Layout := .object .none [
  spacedMember (plainLiteral "value") (digitNumber '7' rfl),
  spacedMember (plainLiteral "sendAddress") .null,
  spacedMember (plainLiteral "script") (.string (plainLiteral "51"))]

/-- A request with the second name of its outputs and a member that it does not know, and more members behind. -/
def sampleText (more : List (Placed Literal × Placed Layout)) : Placed Layout := ⟨.none, .object .none ([
  spacedMember (plainLiteral "output") (.array .none [⟨.none, sampleOutput, .none⟩]),
  spacedMember (plainLiteral "note") (.array .none [⟨.none, .bool true, .none⟩]),
  spacedMember (plainLiteral "inputs") (.array .none [⟨.none, sampleInput, .none⟩]),
  spacedMember (plainLiteral "network") (.string (plainLiteral "regtest")),
  spacedMember (plainLiteral "privateKey") (.string (plainLiteral "k"))] ++ more), .none⟩

theorem writesInput_sample : WritesInput sampleInput.tree ⟨"ab", 0, 9, none, none⟩ := by
  refine ⟨_, rfl, by decide, ?_, ?_, ?_, ⟨_, .inl ⟨rfl, rfl⟩, rfl⟩, _, .inl ⟨rfl, rfl⟩, rfl⟩
  · exact saysMember_some.mpr ⟨_, rfl, rfl⟩
  · exact saysMember_some.mpr ⟨_, rfl, _, rfl, rfl, rfl, rfl, rfl⟩
  · exact saysMember_some.mpr ⟨_, rfl, _, rfl, rfl, rfl, rfl, rfl⟩

theorem writesOutput_sample : WritesOutput sampleOutput.tree ⟨7, none, some "51"⟩ := by
  refine ⟨_, rfl, by decide, ?_, ⟨some none, ?_, rfl⟩, some (some "51"), ?_, rfl⟩
  · exact saysMember_some.mpr ⟨_, rfl, _, rfl, rfl, rfl, rfl, rfl⟩
  · exact saysMember_some.mpr ⟨_, rfl, .inl ⟨rfl, rfl⟩⟩
  · exact saysMember_some.mpr ⟨_, rfl, .inr ⟨nofun, _, rfl, rfl⟩⟩

/-- The request that the sample writes. -/
def sampleRequest : Request.Bitcoin := ⟨"k", .regtest, [⟨"ab", 0, 9, none, none⟩], [⟨7, none, some "51"⟩]⟩

theorem writesBitcoin_sample : WritesBitcoin (sampleText []).value.tree sampleRequest := by
  refine ⟨_, rfl, by decide, ?_, ?_, ?_, ?_⟩
  · exact saysMember_some.mpr ⟨_, rfl, rfl⟩
  · exact saysMember_some.mpr ⟨_, rfl, rfl⟩
  · exact saysMember_some.mpr ⟨_, rfl, _, rfl, .cons writesInput_sample .nil⟩
  · exact saysMember_some.mpr ⟨_, rfl, _, rfl, .cons writesOutput_sample .nil⟩

/-- The sample with its outputs once more, under their first name. -/
def repeatedText : Placed Layout := sampleText [spacedMember (plainLiteral "outputs") (.array .none [])]

theorem repeatsField_repeatedText : RepeatsField repeatedText.value.tree :=
  .request ⟨_, rfl, ["outputs", "output"], by decide, by decide⟩

theorem bitcoinRequest_spelling_sample :
    (WritesBitcoin (sampleText []).value.tree sampleRequest ∧ Json.read bitcoinRequest (sampleText []).text = .ok sampleRequest) ∧
    RepeatsField repeatedText.value.tree ∧ ∃ e, Json.read bitcoinRequest repeatedText.text = .error e :=
  ⟨⟨writesBitcoin_sample, (bitcoinRequest_spelling _).1 _ writesBitcoin_sample⟩,
    repeatsField_repeatedText, (bitcoinRequest_spelling _).2 repeatsField_repeatedText⟩

end Sample

end Document

end OfflineSigner
