import OfflineSigner.Document.Request
import OfflineSigner.Proofs.Json.Record

/-!
# Requests for Bitcoin transactions as documents

What documents say of a request for a Bitcoin transaction, of its inputs and of its outputs, as arrays and as objects. Main
statement: a document is read as a request exactly when it says that request (`reads_bitcoinRequest`).
-/

namespace OfflineSigner.Document

open Json

/-! ## Inputs -/

/-- The slots of an input. -/
def inputSlots : List (Slot InputFields) := [
  ⟨["txid"], SaysText, string, reads_string, (·.transaction), fun v st => { st with transaction := some v }⟩,
  ⟨["vout", "index"], fun t v => SaysNatural t v.toNat, uint32, reads_uint32, (·.index),
    fun v st => { st with index := some v }⟩,
  ⟨["amount"], fun t v => SaysNatural t v.toNat, uint64, reads_uint64, (·.value), fun v st => { st with value := some v }⟩,
  ⟨["scriptPubkey", "output"], SaysOptional SaysText, optional string, reads_string.optional, (·.script),
    fun v st => { st with script := some v }⟩,
  ⟨["publicKey"], SaysOptional SaysText, optional string, reads_string.optional, (·.publicKey),
    fun v st => { st with publicKey := some v }⟩]

theorem reading_input : Reading inputField {} inputSlots where
  known := by
    simp only [inputSlots, List.forall_mem_cons, List.not_mem_nil, false_implies, implies_true, and_true]
    and_intros <;> exact fun st => ⟨_, rfl⟩
  unknown := by
    intro st key hkey
    simp only [inputSlots, List.forall_mem_cons] at hkey
    have hname : inputName key = key := by
      unfold inputName
      split <;> simp_all
    unfold inputField
    rw [hname]
    dsimp only
    split <;> simp_all
  get_empty := by simp [inputSlots]
  get_set := by simp [inputSlots]
  apart := by
    simp only [inputSlots, List.pairwise_cons, List.forall_mem_cons, List.not_mem_nil, false_implies, implies_true, and_true,
      List.Pairwise.nil]
    and_intros <;> constructor <;> simp
  ext := by
    rintro ⟨⟩ ⟨⟩ h
    simp_all [inputSlots]

theorem InputFields.finish_eq_ok_iff {st : InputFields} {cs cs' : List Char} {r : Request.BitcoinInput} :
    st.finish cs = .ok (r, cs') ↔
      (st.transaction = some r.transaction ∧ st.index = some r.index ∧ st.value = some r.value ∧
        st.script.join = r.script ∧ st.publicKey.join = r.publicKey) ∧ cs' = cs := by
  obtain ⟨transaction, index, value, script, publicKey⟩ := r
  simp only [InputFields.finish, Reader.bind_eq_ok_iff, required_eq_ok_iff, Reader.pure_eq_ok_iff, Prod.mk.injEq,
    Request.BitcoinInput.mk.injEq]
  grind

/-- What the elements of an array say of an input. -/
def SaysInputElements : List Tree → Request.BitcoinInput → Prop :=
  NextSays SaysText fun transaction => NextSays (fun t v => SaysNatural t v.toNat) fun index =>
    NextSays (fun t v => SaysNatural t v.toNat) fun value => NextMaySay (SaysOptional SaysText) fun script =>
      NextMaySay (SaysOptional SaysText) fun publicKey =>
        EndSays { transaction, index, value, script := script.join, publicKey := publicKey.join }

/-- What the members of an object say of an input. -/
def SaysInputMembers (members : List (Option String × Tree)) (r : Request.BitcoinInput) : Prop :=
  (∀ member ∈ members, member.1 ≠ none) ∧
  SaysMember ["txid"] SaysText members (some r.transaction) ∧
  SaysMember ["vout", "index"] (fun t v => SaysNatural t v.toNat) members (some r.index) ∧
  SaysMember ["amount"] (fun t v => SaysNatural t v.toNat) members (some r.value) ∧
  (∃ script, SaysMember ["scriptPubkey", "output"] (SaysOptional SaysText) members script ∧ script.join = r.script) ∧
  ∃ publicKey, SaysMember ["publicKey"] (SaysOptional SaysText) members publicKey ∧ publicKey.join = r.publicKey

theorem reads_bitcoinInput : Reads bitcoinInput (SaysRecord SaysInputElements SaysInputMembers) := by
  refine reads_record _ ?_ fun space members rest r cs => ?_
  · simp only [bind_assoc, pure_bind]
    exact .elementAt reads_string 0 _ fun transaction => .elementAt reads_uint32 1 _ fun index =>
      .elementAt reads_uint64 2 _ fun value => .elementAt? reads_string.optional 3 fun script =>
        .elementAt? reads_string.optional 4 fun publicKey => readsElements_end _
  · rw [Reader.bind_eq_ok_iff]
    simp only [reading_input.fields_eq_ok_iff, InputFields.finish_eq_ok_iff, SaysMembers, inputSlots, SaysInputMembers,
      List.forall_mem_cons]
    constructor
    · rintro ⟨st, _, ⟨⟨hkeys, htransaction, hindex, hvalue, hscript, hpublicKey, -⟩, rfl⟩, ⟨h₁, h₂, h₃, h₄, h₅⟩, rfl⟩
      exact ⟨⟨hkeys, h₁ ▸ htransaction, h₂ ▸ hindex, h₃ ▸ hvalue, ⟨_, hscript, h₄⟩, _, hpublicKey, h₅⟩, rfl⟩
    · rintro ⟨⟨hkeys, htransaction, hindex, hvalue, ⟨script, hscript, h₄⟩, publicKey, hpublicKey, h₅⟩, rfl⟩
      exact ⟨⟨_, _, _, script, publicKey⟩, _,
        ⟨⟨hkeys, htransaction, hindex, hvalue, hscript, hpublicKey, List.forall_mem_nil _⟩, rfl⟩, ⟨rfl, rfl, rfl, h₄, h₅⟩, rfl⟩

/-! ## Outputs -/

/-- The slots of an output. -/
def outputSlots : List (Slot OutputFields) := [
  ⟨["amount", "value"], fun t v => SaysNatural t v.toNat, uint64, reads_uint64, (·.value),
    fun v st => { st with value := some v }⟩,
  ⟨["address", "sendAddress"], SaysOptional SaysText, optional string, reads_string.optional, (·.address),
    fun v st => { st with address := some v }⟩,
  ⟨["script"], SaysOptional SaysText, optional string, reads_string.optional, (·.script),
    fun v st => { st with script := some v }⟩]

theorem reading_output : Reading outputField {} outputSlots where
  known := by
    simp only [outputSlots, List.forall_mem_cons, List.not_mem_nil, false_implies, implies_true, and_true]
    and_intros <;> exact fun st => ⟨_, rfl⟩
  unknown := by
    intro st key hkey
    simp only [outputSlots, List.forall_mem_cons] at hkey
    have hname : outputName key = key := by
      unfold outputName
      split <;> simp_all
    unfold outputField
    rw [hname]
    dsimp only
    split <;> simp_all
  get_empty := by simp [outputSlots]
  get_set := by simp [outputSlots]
  apart := by
    simp only [outputSlots, List.pairwise_cons, List.forall_mem_cons, List.not_mem_nil, false_implies, implies_true, and_true,
      List.Pairwise.nil]
    and_intros <;> constructor <;> simp
  ext := by
    rintro ⟨⟩ ⟨⟩ h
    simp_all [outputSlots]

theorem OutputFields.finish_eq_ok_iff {st : OutputFields} {cs cs' : List Char} {r : Request.BitcoinOutput} :
    st.finish cs = .ok (r, cs') ↔
      (st.value = some r.value ∧ st.address.join = r.address ∧ st.script.join = r.script) ∧ cs' = cs := by
  obtain ⟨value, address, script⟩ := r
  simp only [OutputFields.finish, Reader.bind_eq_ok_iff, required_eq_ok_iff, Reader.pure_eq_ok_iff, Prod.mk.injEq,
    Request.BitcoinOutput.mk.injEq]
  grind

/-- What the elements of an array say of an output. -/
def SaysOutputElements : List Tree → Request.BitcoinOutput → Prop :=
  NextSays (fun t v => SaysNatural t v.toNat) fun value => NextMaySay (SaysOptional SaysText) fun address =>
    NextMaySay (SaysOptional SaysText) fun script => EndSays { value, address := address.join, script := script.join }

/-- What the members of an object say of an output. -/
def SaysOutputMembers (members : List (Option String × Tree)) (r : Request.BitcoinOutput) : Prop :=
  (∀ member ∈ members, member.1 ≠ none) ∧
  SaysMember ["amount", "value"] (fun t v => SaysNatural t v.toNat) members (some r.value) ∧
  (∃ address, SaysMember ["address", "sendAddress"] (SaysOptional SaysText) members address ∧ address.join = r.address) ∧
  ∃ script, SaysMember ["script"] (SaysOptional SaysText) members script ∧ script.join = r.script

theorem reads_bitcoinOutput : Reads bitcoinOutput (SaysRecord SaysOutputElements SaysOutputMembers) := by
  refine reads_record _ ?_ fun space members rest r cs => ?_
  · simp only [bind_assoc, pure_bind]
    exact .elementAt reads_uint64 0 _ fun value => .elementAt? reads_string.optional 1 fun address =>
      .elementAt? reads_string.optional 2 fun script => readsElements_end _
  · rw [Reader.bind_eq_ok_iff]
    simp only [reading_output.fields_eq_ok_iff, OutputFields.finish_eq_ok_iff, SaysMembers, outputSlots, SaysOutputMembers,
      List.forall_mem_cons]
    constructor
    · rintro ⟨st, _, ⟨⟨hkeys, hvalue, haddress, hscript, -⟩, rfl⟩, ⟨h₁, h₂, h₃⟩, rfl⟩
      exact ⟨⟨hkeys, h₁ ▸ hvalue, ⟨_, haddress, h₂⟩, _, hscript, h₃⟩, rfl⟩
    · rintro ⟨⟨hkeys, hvalue, ⟨address, haddress, h₂⟩, script, hscript, h₃⟩, rfl⟩
      exact ⟨⟨_, address, script⟩, _, ⟨⟨hkeys, hvalue, haddress, hscript, List.forall_mem_nil _⟩, rfl⟩, ⟨rfl, h₂, h₃⟩, rfl⟩

/-! ## Requests -/

/-- Whether a value names a network. -/
def SaysNetwork : Tree → Network → Prop := SaysChoice Network.ofName?

/-- Whether a value is an array of inputs, or of outputs. -/
def SaysInputs : Tree → List Request.BitcoinInput → Prop := SaysList (SaysRecord SaysInputElements SaysInputMembers)
def SaysOutputs : Tree → List Request.BitcoinOutput → Prop := SaysList (SaysRecord SaysOutputElements SaysOutputMembers)

/-- The slots of a request. -/
def bitcoinSlots : List (Slot BitcoinFields) := [
  ⟨["privateKey"], SaysText, string, reads_string, (·.secretKey), fun v st => { st with secretKey := some v }⟩,
  ⟨["network"], SaysNetwork, network, reads_choice, (·.network), fun v st => { st with network := some v }⟩,
  ⟨["inputs"], SaysInputs, list bitcoinInput, reads_bitcoinInput.list, (·.inputs), fun v st => { st with inputs := some v }⟩,
  ⟨["outputs", "output"], SaysOutputs, list bitcoinOutput, reads_bitcoinOutput.list, (·.outputs),
    fun v st => { st with outputs := some v }⟩]

theorem reading_bitcoin : Reading bitcoinField {} bitcoinSlots where
  known := by
    simp only [bitcoinSlots, List.forall_mem_cons, List.not_mem_nil, false_implies, implies_true, and_true]
    and_intros <;> exact fun st => ⟨_, rfl⟩
  unknown := by
    intro st key hkey
    simp only [bitcoinSlots, List.forall_mem_cons] at hkey
    have hname : bitcoinName key = key := by
      unfold bitcoinName
      split <;> simp_all
    unfold bitcoinField
    rw [hname]
    dsimp only
    split <;> simp_all
  get_empty := by simp [bitcoinSlots]
  get_set := by simp [bitcoinSlots]
  apart := by
    simp only [bitcoinSlots, List.pairwise_cons, List.forall_mem_cons, List.not_mem_nil, false_implies, implies_true, and_true,
      List.Pairwise.nil]
    and_intros <;> constructor <;> simp
  ext := by
    rintro ⟨⟩ ⟨⟩ h
    simp_all [bitcoinSlots]

theorem BitcoinFields.finish_eq_ok_iff {st : BitcoinFields} {cs cs' : List Char} {r : Request.Bitcoin} :
    st.finish cs = .ok (r, cs') ↔
      (st.secretKey = some r.secretKey ∧ st.network = some r.network ∧ st.inputs = some r.inputs ∧ st.outputs = some r.outputs) ∧
        cs' = cs := by
  obtain ⟨secretKey, network, inputs, outputs⟩ := r
  simp only [BitcoinFields.finish, Reader.bind_eq_ok_iff, required_eq_ok_iff, Reader.pure_eq_ok_iff, Prod.mk.injEq,
    Request.Bitcoin.mk.injEq]
  grind

/-- What the elements of an array say of a request. -/
def SaysBitcoinElements : List Tree → Request.Bitcoin → Prop :=
  NextSays SaysText fun secretKey => NextSays SaysNetwork fun network => NextSays SaysInputs fun inputs =>
    NextSays SaysOutputs fun outputs => EndSays { secretKey, network, inputs, outputs }

/-- What the members of an object say of a request. -/
def SaysBitcoinMembers (members : List (Option String × Tree)) (r : Request.Bitcoin) : Prop :=
  (∀ member ∈ members, member.1 ≠ none) ∧
  SaysMember ["privateKey"] SaysText members (some r.secretKey) ∧
  SaysMember ["network"] SaysNetwork members (some r.network) ∧
  SaysMember ["inputs"] SaysInputs members (some r.inputs) ∧
  SaysMember ["outputs", "output"] SaysOutputs members (some r.outputs)

theorem reads_bitcoinRequest : Reads bitcoinRequest (SaysRecord SaysBitcoinElements SaysBitcoinMembers) := by
  refine reads_record _ ?_ fun space members rest r cs => ?_
  · simp only [bind_assoc, pure_bind]
    exact .elementAt reads_string 0 _ fun secretKey => .elementAt reads_choice 1 _ fun network =>
      .elementAt reads_bitcoinInput.list 2 _ fun inputs => .elementAt reads_bitcoinOutput.list 3 _ fun outputs =>
        readsElements_end _
  · rw [Reader.bind_eq_ok_iff]
    simp only [reading_bitcoin.fields_eq_ok_iff, BitcoinFields.finish_eq_ok_iff, SaysMembers, bitcoinSlots, SaysBitcoinMembers,
      List.forall_mem_cons]
    constructor
    · rintro ⟨st, _, ⟨⟨hkeys, hsecretKey, hnetwork, hinputs, houtputs, -⟩, rfl⟩, ⟨h₁, h₂, h₃, h₄⟩, rfl⟩
      exact ⟨⟨hkeys, h₁ ▸ hsecretKey, h₂ ▸ hnetwork, h₃ ▸ hinputs, h₄ ▸ houtputs⟩, rfl⟩
    · rintro ⟨⟨hkeys, hsecretKey, hnetwork, hinputs, houtputs⟩, rfl⟩
      exact ⟨⟨_, _, _, _⟩, _, ⟨⟨hkeys, hsecretKey, hnetwork, hinputs, houtputs, List.forall_mem_nil _⟩, rfl⟩,
        ⟨rfl, rfl, rfl, rfl⟩, rfl⟩

end OfflineSigner.Document
