import OfflineSigner.Proofs.Bitcoin.Signing
import OfflineSigner.Request.Bitcoin

/-!
# What a request may leave out

An input that leaves out its script, and leaves out its key or names the key of the request, asks for a coin of that key
(`exists_coin_eq`). The forms that keys are written in change no transaction that is built (`build_withKey`), so requests that
differ in them alone are answered alike (`sign_withoutKeys`). Main statement: `sign_defaulted`, that such a request is signed
whenever its transaction is built.
-/

namespace OfflineSigner

open Curve

/-! ## Coins under other forms of their keys -/

namespace Bitcoin

/-- The request of a coin with its key written in another way. -/
def CoinRequest.withKey (key : Bytes) (request : CoinRequest) : CoinRequest := { request with signerKey := key }

/-- The form that the key of a coin is written in makes no difference. -/
theorem CoinRequest.check_withKey {d : SecretKey} {request : CoinRequest} {key : Bytes}
    (hrequest : request.signerKey ∈ Taproot.forms d.xOnly) (hkey : key ∈ Taproot.forms d.xOnly) (place : Nat) :
    (request.withKey key).check place = request.check place := by
  have hread := Taproot.parseInternalKey_own hrequest
  have hread' : Taproot.parseInternalKey (request.withKey key).signerKey = .ok d.xOnly := Taproot.parseInternalKey_own hkey
  unfold CoinRequest.check
  rw [hread, hread']
  rfl

/-- The forms that the keys of coins are written in make no difference to the transaction that is built. -/
theorem Unsigned.build_withKey {d : SecretKey} {coins : List CoinRequest} {key : Bytes}
    (hcoins : ∀ request ∈ coins, request.signerKey ∈ Taproot.forms d.xOnly) (hkey : key ∈ Taproot.forms d.xOnly)
    (outputs : List OutputRequest) (network : Network) (config : Config) :
    build (coins.map (CoinRequest.withKey key)) outputs network config = build coins outputs network config := by
  have hcheck : checkAll CoinRequest.check 0 (coins.map (CoinRequest.withKey key)) = checkAll CoinRequest.check 0 coins := by
    have hmap : ∀ request ∈ coins, ∀ place,
        (request.withKey key).check place = (request.check place).map id := by
      intro request hrequest place
      rw [CoinRequest.check_withKey (hcoins request hrequest) hkey]
      cases request.check place <;> rfl
    rw [checkAll_map_map hmap, List.map_id_fun]
    cases checkAll CoinRequest.check 0 coins <;> rfl
  unfold build
  rw [List.isEmpty_map, hcheck]

/-- The transaction of coins of one internal key, each with the script of that key, is signed with its secret key. -/
theorem Unsigned.exists_sign_single {d : SecretKey} {coins : List CoinRequest} {outputs : List OutputRequest}
    {network : Network} {config : Config} {u : Unsigned}
    (hcoins : ∀ request ∈ coins, request.signerKey ∈ Taproot.forms d.xOnly ∧ Taproot.script d.xOnly = .ok request.script)
    (hbuild : build coins outputs network config = .ok u) : ∃ t, u.sign (KeySource.single d) = .ok t := by
  refine exists_sign ?_
  intro coin hcoin place
  obtain ⟨request, hrequest, haccepted⟩ := (of_build hbuild).accepted_of_mem hcoin
  obtain ⟨hform, hscript⟩ := hcoins request hrequest
  have hinternal := haccepted.internalKey
  rw [Taproot.parseInternalKey_own hform] at hinternal
  refine exists_signature_single (Except.ok.inj hinternal).symm ?_ place
  rw [haccepted.output]
  exact hscript

end Bitcoin

namespace Request

open OfflineSigner.Bitcoin

/-! ## Inputs -/

namespace BitcoinInput

/-- The input without the key that it names. -/
def withoutKey (input : BitcoinInput) : BitcoinInput := { input with publicKey := none }

/-- Whether an input leaves out its script, and leaves out its key or names that of a secret key in one of its forms. -/
structure Defaulted (input : BitcoinInput) (d : SecretKey) : Prop where
  script : input.script = none
  publicKey : ∀ text, input.publicKey = some text → ∃ bs ∈ Taproot.forms d.xOnly, Hex.decodeMarked text = .ok bs

/-- The bytes of the key of an input, for a request with a key of its own. -/
def signerKey (own : Bytes) (input : BitcoinInput) : Except Hex.Error Bytes :=
  input.publicKey.elim (.ok own) Hex.decodeMarked

/-- How a fault of the script that belongs to a key is reported. -/
def scriptFault (place : Nat) (e : Taproot.Error) : Failure :=
  ⟨.invalidTransactionStructure, s!"Input {place}: {e.message}", none⟩

/-- The coin of an input without a script, whose key has been read, has the script that belongs to its key. -/
theorem coin_of_signerKey {own bs : Bytes} {input : BitcoinInput} {internal : XOnlyKey} (hscript : input.script = none)
    (hkey : input.signerKey own = .ok bs) (hinternal : Taproot.parseInternalKey bs = .ok internal) (place : Nat) :
    input.coin own place = ((Taproot.script internal).mapError (scriptFault place)).map fun script =>
      ⟨input.transaction, input.index, input.value, script, bs⟩ := by
  unfold coin
  rw [hscript]
  -- As a variable: otherwise comparing the two sides would evaluate the script.
  generalize Taproot.script = scriptOf
  unfold signerKey at hkey
  cases hpublic : input.publicKey with
  | none =>
    rw [hpublic, Option.elim_none] at hkey
    cases hkey
    dsimp only
    change (Except.ok own >>= _) = _
    rw [ok_bind, hinternal, bind_ok]
    cases scriptOf internal <;> rfl
  | some text =>
    rw [hpublic, Option.elim_some] at hkey
    dsimp only
    rw [hkey]
    change (Except.ok bs >>= _) = _
    rw [ok_bind, hinternal, bind_ok]
    cases scriptOf internal <;> rfl

/-- The own key of a request is in one of its forms. -/
theorem compressed_mem_forms (d : SecretKey) : d.publicKey.compressed.toList ∈ Taproot.forms d.xOnly := by
  change (if d.publicKey.y.isEven then 0x02 else 0x03) :: d.xOnly.toBytes.toList ∈ _
  cases d.publicKey.y.isEven <;> simp [Taproot.forms]

theorem Defaulted.exists_signerKey {input : BitcoinInput} {d : SecretKey} (h : input.Defaulted d) :
    ∃ bs ∈ Taproot.forms d.xOnly, input.signerKey d.publicKey.compressed.toList = .ok bs := by
  unfold signerKey
  cases hpublic : input.publicKey with
  | none => exact ⟨_, compressed_mem_forms d, rfl⟩
  | some text =>
    rw [Option.elim_some]
    exact h.publicKey text hpublic

/-- The coin of an input that leaves out what its request tells has the script that belongs to the request's key, and the key
itself in one of its forms. -/
theorem Defaulted.exists_coin_eq {input : BitcoinInput} {d : SecretKey} (h : input.Defaulted d) :
    ∃ bs ∈ Taproot.forms d.xOnly, ∀ place, input.coin d.publicKey.compressed.toList place =
      ((Taproot.script d.xOnly).mapError (scriptFault place)).map fun script =>
        ⟨input.transaction, input.index, input.value, script, bs⟩ := by
  obtain ⟨bs, hbs, hkey⟩ := h.exists_signerKey
  exact ⟨bs, hbs, coin_of_signerKey h.script hkey (Taproot.parseInternalKey_own hbs)⟩

theorem Defaulted.of_coin {input : BitcoinInput} {d : SecretKey} (h : input.Defaulted d) {place : Nat} {request : CoinRequest}
    (hcoin : input.coin d.publicKey.compressed.toList place = .ok request) :
    request.signerKey ∈ Taproot.forms d.xOnly ∧ Taproot.script d.xOnly = .ok request.script := by
  obtain ⟨bs, hbs, heq⟩ := h.exists_coin_eq
  rw [heq] at hcoin
  -- As a variable: otherwise comparing the two sides would evaluate the script.
  generalize Taproot.script d.xOnly = answer at hcoin ⊢
  cases answer with
  | error e => cases hcoin
  | ok script =>
    cases hcoin
    exact ⟨hbs, rfl⟩

/-- Without the key that it names, an input has the same coin with the key of the request. -/
theorem Defaulted.coin_withoutKey {input : BitcoinInput} {d : SecretKey} (h : input.Defaulted d) (place : Nat) :
    input.withoutKey.coin d.publicKey.compressed.toList place =
      (input.coin d.publicKey.compressed.toList place).map (CoinRequest.withKey d.publicKey.compressed.toList) := by
  obtain ⟨bs, -, heq⟩ := h.exists_coin_eq
  have hown := Taproot.parseInternalKey_own (compressed_mem_forms d)
  have hscript : input.withoutKey.script = none := h.script
  rw [heq, coin_of_signerKey hscript rfl hown]
  generalize Taproot.script d.xOnly = answer
  cases answer <;> rfl

end BitcoinInput

/-! ## Requests -/

namespace Bitcoin

/-- The request without the keys that its inputs name. -/
def withoutKeys (r : Bitcoin) : Bitcoin := { r with inputs := r.inputs.map BitcoinInput.withoutKey }

/-- What is done with the parts of a request. -/
def signParts (d : SecretKey) (network : Network) (config : Config) (parts : List CoinRequest × List OutputRequest) :
    Except Failure SignedTransaction := do
  let unsigned ← (Unsigned.build parts.1 parts.2 network config).mapError BuildError.report
  let signed ← (unsigned.sign (KeySource.single d)).mapError SignError.report
  return signed.toSignedTransaction

variable {r r' : Bitcoin} {d : SecretKey}

theorem parts_eq (hkey : Request.secretKey r.secretKey = .ok d) :
    r.parts = checkAll (BitcoinInput.coin d.publicKey.compressed.toList) 0 r.inputs >>= fun coins =>
      checkAll BitcoinOutput.request 0 r.outputs >>= fun outputs => .ok (coins, outputs) := by
  rw [parts, hkey]
  rfl

theorem sign_eq (hkey : Request.secretKey r.secretKey = .ok d) (config : Config) :
    r.sign config = r.parts >>= signParts d r.network config := by
  unfold sign
  cases r.parts with
  | error e => rw [error_bind, error_bind]
  | ok parts =>
    rw [hkey]
    rfl

/-- The coins that a request asks for have its key in one of its forms, and the script that belongs to the key. -/
theorem of_parts (hkey : Request.secretKey r.secretKey = .ok d) (hinputs : ∀ input ∈ r.inputs, input.Defaulted d)
    {coins : List CoinRequest} {outputs : List OutputRequest} (h : r.parts = .ok (coins, outputs)) :
    ∀ request ∈ coins, request.signerKey ∈ Taproot.forms d.xOnly ∧ Taproot.script d.xOnly = .ok request.script := by
  rw [parts_eq hkey] at h
  obtain ⟨coins', hcoins, h⟩ := bind_eq_ok_iff.mp h
  obtain ⟨outputs', -, h⟩ := bind_eq_ok_iff.mp h
  cases h
  intro request hrequest
  obtain ⟨input, hinput, place, hcoin⟩ := exists_of_mem_checkAll hcoins hrequest
  exact (hinputs input hinput).of_coin hcoin

/-- Without the keys that its inputs name, a request has the same parts with its own key in its coins. -/
theorem parts_withoutKeys (hkey : Request.secretKey r.secretKey = .ok d) (hinputs : ∀ input ∈ r.inputs, input.Defaulted d) :
    r.withoutKeys.parts =
      r.parts.map fun parts => (parts.1.map (CoinRequest.withKey d.publicKey.compressed.toList), parts.2) := by
  have hkey' : Request.secretKey r.withoutKeys.secretKey = .ok d := hkey
  have hcoins := checkAll_map_map (fun input hinput place => (hinputs input hinput).coin_withoutKey place) 0
  have hchanged : r.withoutKeys.inputs = r.inputs.map BitcoinInput.withoutKey := rfl
  have hkept : r.withoutKeys.outputs = r.outputs := rfl
  rw [parts_eq hkey, parts_eq hkey', hchanged, hkept, hcoins]
  cases checkAll (BitcoinInput.coin d.publicKey.compressed.toList) 0 r.inputs with
  | error e => rfl
  | ok coins => cases checkAll BitcoinOutput.request 0 r.outputs <;> rfl

/-- The forms that the keys of coins are written in make no difference to the answer. -/
theorem signParts_withKey {parts : List CoinRequest × List OutputRequest} {key : Bytes}
    (hcoins : ∀ request ∈ parts.1, request.signerKey ∈ Taproot.forms d.xOnly) (hkey : key ∈ Taproot.forms d.xOnly)
    (network : Network) (config : Config) :
    signParts d network config (parts.1.map (CoinRequest.withKey key), parts.2) = signParts d network config parts := by
  unfold signParts
  rw [Unsigned.build_withKey hcoins hkey]

/-- Leaving out the keys that its inputs name changes no answer to a request. -/
theorem sign_withoutKeys (hkey : Request.secretKey r.secretKey = .ok d) (hinputs : ∀ input ∈ r.inputs, input.Defaulted d)
    (config : Config) : r.withoutKeys.sign config = r.sign config := by
  have hkey' : Request.secretKey r.withoutKeys.secretKey = .ok d := hkey
  rw [sign_eq hkey, sign_eq hkey', parts_withoutKeys hkey hinputs]
  cases hparts : r.parts with
  | error e => rfl
  | ok parts =>
    have hcoins := of_parts hkey hinputs hparts
    exact signParts_withKey (fun request hrequest => (hcoins request hrequest).1) (BitcoinInput.compressed_mem_forms d) _ _

/-- Requests that differ in the forms of the keys that their inputs name ask for one transaction. -/
theorem exists_parts_of_withoutKeys (hkey : Request.secretKey r.secretKey = .ok d)
    (hinputs : ∀ input ∈ r.inputs, input.Defaulted d) (hsame : r'.withoutKeys = r.withoutKeys)
    (hinputs' : ∀ input ∈ r'.inputs, input.Defaulted d) {coins : List CoinRequest} {outputs : List OutputRequest}
    (hparts : r.parts = .ok (coins, outputs)) (config : Config) :
    ∃ coins', r'.parts = .ok (coins', outputs) ∧
      Unsigned.build coins' outputs r'.network config = Unsigned.build coins outputs r.network config := by
  obtain ⟨hsecret, hnetwork, -, -⟩ := mk.inj hsame
  have hkey' : Request.secretKey r'.secretKey = .ok d := hsecret ▸ hkey
  have hcanonical := parts_withoutKeys hkey' hinputs'
  rw [hsame, parts_withoutKeys hkey hinputs, hparts] at hcanonical
  cases hparts' : r'.parts with
  | error e =>
    rw [hparts'] at hcanonical
    cases hcanonical
  | ok parts' =>
    obtain ⟨coins', outputs'⟩ := parts'
    rw [hparts'] at hcanonical
    obtain ⟨hcoins, rfl⟩ := Prod.mk.inj (Except.ok.inj hcanonical)
    have hforms := of_parts hkey hinputs hparts
    have hforms' := of_parts hkey' hinputs' hparts'
    refine ⟨coins', rfl, ?_⟩
    rw [hnetwork, ← Unsigned.build_withKey (fun c hc => (hforms' c hc).1) (BitcoinInput.compressed_mem_forms d), ← hcoins,
      Unsigned.build_withKey (fun c hc => (hforms c hc).1) (BitcoinInput.compressed_mem_forms d)]

/-- What a request leaves out fits its secret key. When no input has a script, and each leaves out its key or names that of the
request in one of its forms, then the transaction is signed whenever it is built, and is the answer; every request that differs
in the forms of the keys alone asks for the same transaction, and is answered alike whether there is one or not. -/
theorem sign_defaulted (hkey : Request.secretKey r.secretKey = .ok d) (hinputs : ∀ input ∈ r.inputs, input.Defaulted d)
    (config : Config) :
    (∀ coins outputs u, r.parts = .ok (coins, outputs) → Unsigned.build coins outputs r.network config = .ok u →
      ∃ t, u.sign (KeySource.single d) = .ok t ∧ r.sign config = .ok t.toSignedTransaction ∧
        ∀ r' : Bitcoin, r'.withoutKeys = r.withoutKeys → (∀ input ∈ r'.inputs, input.Defaulted d) →
          ∃ coins', r'.parts = .ok (coins', outputs) ∧ Unsigned.build coins' outputs r'.network config = .ok u) ∧
    ∀ r' : Bitcoin, r'.withoutKeys = r.withoutKeys → (∀ input ∈ r'.inputs, input.Defaulted d) →
      r'.sign config = r.sign config := by
  constructor
  · intro coins outputs u hparts hbuild
    obtain ⟨t, ht⟩ := Unsigned.exists_sign_single (of_parts hkey hinputs hparts) hbuild
    refine ⟨t, ht, ?_, ?_⟩
    · rw [sign_eq hkey, hparts, ok_bind, signParts, hbuild]
      change (u.sign (KeySource.single d)).mapError SignError.report >>= _ = _
      rw [ht]
      rfl
    · intro r' hsame hinputs'
      obtain ⟨coins', hparts', hbuild'⟩ := exists_parts_of_withoutKeys hkey hinputs hsame hinputs' hparts config
      exact ⟨coins', hparts', hbuild'.trans hbuild⟩
  · intro r' hsame hinputs'
    obtain ⟨hsecret, -, -, -⟩ := mk.inj hsame
    rw [← sign_withoutKeys (hsecret ▸ hkey) hinputs', hsame, sign_withoutKeys hkey hinputs]

/-! ## A request with two inputs -/

/-- A request to spend the two coins of the key `six`; either input may name the key. -/
def pairRequest (first second : Option String) : Bitcoin where
  secretKey := "0000000000000000000000000000000000000000000000000000000000000006"
  network := .regtest
  inputs := [
    { transaction := "0000000000000000000000000000000000000000000000000000000000000001"
      index := 0
      value := 100000
      publicKey := first },
    { transaction := " 00000000000000000000000000000000000000000000000000000000DEADbeef "
      index := 7
      value := 250000
      publicKey := second }]
  outputs := [
    { value := 99000, address := some "bcrt1pmfr3p9j00pfxjh0zmgp99y8zftmd3s5pmedqhyptwy6lm87hf5ssm803es" },
    { value := 250000, script := some "6a02beef" }]

/-- The x-only form of the key. -/
def xOnlyName : String := "fff97bd5755eeea420453a14355235d382f6472f8568a18b2f057a1460297556"

/-- The compressed form of the key. -/
def compressedName : String := "0x03fff97bd5755eeea420453a14355235d382f6472f8568a18b2f057a1460297556"

/-- What an input may say of the key: nothing, or one of the two forms. -/
def keyNames : List (Option String) := [none, some xOnlyName, some compressedName]

theorem secretKey_pair (first second : Option String) :
    Request.secretKey (pairRequest first second).secretKey = .ok Taproot.six := by
  change Request.secretKey "0000000000000000000000000000000000000000000000000000000000000006" = _
  decide +kernel

theorem decodeMarked_xOnlyName : Hex.decodeMarked xOnlyName = .ok Taproot.six.xOnly.toBytes.toList := by decide +kernel

theorem decodeMarked_compressedName : Hex.decodeMarked compressedName = .ok (0x03 :: Taproot.six.xOnly.toBytes.toList) := by
  decide +kernel

theorem defaulted_pair {first second : Option String} (hfirst : first ∈ keyNames) (hsecond : second ∈ keyNames) :
    ∀ input ∈ (pairRequest first second).inputs, input.Defaulted Taproot.six := by
  have hform : ∀ key ∈ keyNames, ∀ text, key = some text →
      ∃ bs ∈ Taproot.forms Taproot.six.xOnly, Hex.decodeMarked text = .ok bs := by
    rintro key hkey text rfl
    have hname : text = xOnlyName ∨ text = compressedName := by simpa [keyNames] using hkey
    rcases hname with rfl | rfl
    · exact ⟨_, by simp [Taproot.forms], decodeMarked_xOnlyName⟩
    · exact ⟨_, by simp [Taproot.forms], decodeMarked_compressedName⟩
  intro input hinput
  rcases List.mem_cons.mp hinput with rfl | hinput
  · exact ⟨rfl, hform first hfirst⟩
  · rw [List.mem_singleton.mp hinput]
    exact ⟨rfl, hform second hsecond⟩

/-- The coins that the request asks for are the two; the script is the one known of the key, and is not computed again. -/
theorem parts_pair : (pairRequest (some xOnlyName) (some xOnlyName)).parts = .ok (Unsigned.pairCoins, Unsigned.pairOutputs) := by
  have hnamed : some xOnlyName ∈ keyNames := by simp [keyNames]
  have hinternal : Taproot.parseInternalKey Taproot.six.xOnly.toBytes.toList = .ok Taproot.six.xOnly :=
    Taproot.parseInternalKey_own List.mem_cons_self
  have hcoin : ∀ input ∈ (pairRequest (some xOnlyName) (some xOnlyName)).inputs, ∀ place,
      input.coin Taproot.six.publicKey.compressed.toList place =
        .ok ⟨input.transaction, input.index, input.value, Taproot.scriptSix, Taproot.six.xOnly.toBytes.toList⟩ := by
    intro input hinput place
    have hkey : input.signerKey Taproot.six.publicKey.compressed.toList = .ok Taproot.six.xOnly.toBytes.toList := by
      rw [← decodeMarked_xOnlyName]
      rcases List.mem_cons.mp hinput with rfl | hinput
      · rfl
      · rw [List.mem_singleton.mp hinput]
        rfl
    rw [BitcoinInput.coin_of_signerKey (defaulted_pair hnamed hnamed input hinput).script hkey hinternal, Taproot.script_six]
    rfl
  have houtputs : checkAll BitcoinOutput.request 0 (pairRequest (some xOnlyName) (some xOnlyName)).outputs =
      .ok Unsigned.pairOutputs := by decide +kernel
  rw [parts_eq (secretKey_pair _ _), checkAll_eq_ok_map hcoin, ok_bind, houtputs, ok_bind]
  rfl

/-- The request is signed, and answered alike whichever form each of its inputs names the key in, and when it is left out. -/
theorem sign_defaulted_pair :
    ∃ t, ∀ first ∈ keyNames, ∀ second ∈ keyNames,
      (pairRequest first second).sign Unsigned.pairConfig = .ok (Transaction.toSignedTransaction t) := by
  have hnamed : some xOnlyName ∈ keyNames := by simp [keyNames]
  obtain ⟨hsign, hsame⟩ := sign_defaulted (secretKey_pair _ _) (defaulted_pair hnamed hnamed) Unsigned.pairConfig
  obtain ⟨t, -, ht, -⟩ := hsign _ _ _ parts_pair Unsigned.build_pair
  refine ⟨t, fun first hfirst second hsecond => ?_⟩
  rw [hsame (pairRequest first second) rfl (defaulted_pair hfirst hsecond), ht]

end Bitcoin

end Request

end OfflineSigner
