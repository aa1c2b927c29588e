import OfflineSigner.Proofs.Bitcoin.Accept
import OfflineSigner.Proofs.Bitcoin.Partial
import OfflineSigner.Proofs.Taproot

/-!
# Which inputs are signed, and why others are not

What it takes for an input to be signed (`Signs`, `Signable`) and what refuses it (`Refused`), told of its key and its coin
without reference to how they are checked. An input is signed exactly when it can be (`exists_signature_iff`) and refused for
the reason that holds (`refused_iff`). Main statement: a built transaction is signed exactly when each of its inputs can be,
the fault is otherwise that of the first input which cannot, no other fault comes out, and a key by itself does what the same
key does for each place (`sign_exact`).
-/

namespace OfflineSigner.Bitcoin

open Curve

/-! ## An input, its key and its coin -/

/-- How the input at a place is signed: its key is the secret key of the coin's internal key and leads to the one whose x-only
key the script has from its third byte to its 34th. -/
structure Signs (keys : KeySource) (coin : Coin) (place : Nat) (d tweaked : SecretKey) : Prop where
  key : keys place coin.internalKey = some d.toBytes.toList
  own : d.xOnly = coin.internalKey
  tweaks : Taproot.TweaksTo d tweaked
  commits : (coin.output.script.drop 2).take 32 = tweaked.xOnly.toBytes.toList

/-- Whether the input at a place can be signed. -/
def Signable (keys : KeySource) (coin : Coin) (place : Nat) : Prop := ∃ d tweaked, Signs keys coin place d tweaked

/-- Why the input at a place cannot be signed, and the kind of failure that this is. -/
inductive Refused (keys : KeySource) (coin : Coin) (place : Nat) : FailureCode → Prop where
  | noKey (h : keys place coin.internalKey = none) : Refused keys coin place .signingFailed
  | noScalar {secret : Bytes} (hkey : keys place coin.internalKey = some secret)
      (h : ¬(secret.length = 32 ∧ 0 < secret.toNatBE ∧ secret.toNatBE < groupOrder)) :
      Refused keys coin place .invalidPrivateKeyFound
  | foreign {d : SecretKey} (hkey : keys place coin.internalKey = some d.toBytes.toList) (h : d.xOnly ≠ coin.internalKey) :
      Refused keys coin place .keyMismatch
  | noTweak {d : SecretKey} (hkey : keys place coin.internalKey = some d.toBytes.toList) (hown : d.xOnly = coin.internalKey)
      (h : ∀ tweaked, ¬Taproot.TweaksTo d tweaked) : Refused keys coin place .cryptoError
  | uncommitted {d tweaked : SecretKey} (hkey : keys place coin.internalKey = some d.toBytes.toList)
      (hown : d.xOnly = coin.internalKey) (htweaks : Taproot.TweaksTo d tweaked)
      (h : (coin.output.script.drop 2).take 32 ≠ tweaked.xOnly.toBytes.toList) : Refused keys coin place .keyMismatch

namespace Unsigned

variable {u : Unsigned} {keys : KeySource} {coin : Coin} {place : Nat}

/-- An input that has a key is signed when the key is tweaked and the script commits to the outcome. -/
theorem signature_of_key {secret : Bytes} (hkey : keys place coin.internalKey = some secret) :
    u.signature keys coin place = ((Taproot.tweakedSecret (some secret) coin.internalKey).mapError .key >>= fun d =>
      if coin.output.script.drop 2 ≠ d.xOnly.toBytes.toList then .error (.uncommitted place)
      else .ok (Schnorr.sign d (u.transaction.signingHash u.spent place))) := by
  unfold signature
  simp only [hkey]
  rfl

theorem take_drop_script (hlength : coin.output.script.length = 34) :
    (coin.output.script.drop 2).take 32 = coin.output.script.drop 2 :=
  List.take_of_length_le (by rw [List.length_drop, hlength])

/-- An input is signed by the key that signs it, and in no other way. -/
theorem signature_eq_ok_iff (hlength : coin.output.script.length = 34) {σ : Schnorr.Signature} :
    u.signature keys coin place = .ok σ ↔
      ∃ d tweaked, Signs keys coin place d tweaked ∧ σ = Schnorr.sign tweaked (u.transaction.signingHash u.spent place) := by
  constructor
  · intro h
    obtain ⟨secret, tweaked, hkey, htweaked, hscript, hσ⟩ := of_signature h
    obtain ⟨d, rfl, hown, htweaks⟩ := Taproot.exists_tweaksTo htweaked
    refine ⟨d, tweaked, ⟨hkey, hown, htweaks, ?_⟩, hσ⟩
    rw [take_drop_script hlength, hscript]
  · rintro ⟨d, tweaked, hsigns, hσ⟩
    have htweaked := Taproot.tweakedSecret_eq_ok_iff_tweaksTo.mpr hsigns.tweaks
    have hscript := hsigns.commits
    rw [hsigns.own] at htweaked
    rw [take_drop_script hlength] at hscript
    rw [hσ]
    exact signature_of hsigns.key htweaked hscript

/-- An input is signed exactly when it can be. -/
theorem exists_signature_iff (hlength : coin.output.script.length = 34) :
    (∃ σ, u.signature keys coin place = .ok σ) ↔ Signable keys coin place := by
  constructor
  · rintro ⟨σ, h⟩
    obtain ⟨d, tweaked, hsigns, -⟩ := (signature_eq_ok_iff hlength).mp h
    exact ⟨d, tweaked, hsigns⟩
  · rintro ⟨d, tweaked, hsigns⟩
    exact ⟨_, (signature_eq_ok_iff hlength).mpr ⟨d, tweaked, hsigns, rfl⟩⟩

/-- The fault of an input is the reason against it. -/
theorem refused_of_signature (hlength : coin.output.script.length = 34) {e : SignError}
    (h : u.signature keys coin place = .error e) : Refused keys coin place e.report.code := by
  cases hkey : keys place coin.internalKey with
  | none =>
    unfold signature at h
    simp only [hkey] at h
    obtain rfl := Except.error.inj h
    exact .noKey hkey
  | some secret =>
    rw [signature_of_key hkey] at h
    rcases bind_eq_error_iff.mp h with hkeyed | ⟨tweaked, htweaked, hcommits⟩
    · obtain ⟨fault, hfault, rfl⟩ := mapError_eq_error_iff.mp hkeyed
      have hreport : (SignError.key fault).report.code = fault.code := rfl
      rw [hreport]
      rcases Taproot.of_tweakedSecret_eq_error hfault with ⟨hnone, hcode⟩ | ⟨d, rfl, ⟨hown, hcode⟩ | ⟨hown, hnone, hcode⟩⟩
      · rw [hcode]
        refine .noScalar hkey fun hscalar => ?_
        obtain ⟨d, hd⟩ := SecretKey.exists_toBytes_iff.mpr hscalar
        exact hnone d hd
      · rw [hcode]
        exact .foreign hkey hown
      · rw [hcode]
        exact .noTweak hkey hown hnone
    · obtain ⟨d, rfl, hown, htweaks⟩ := Taproot.exists_tweaksTo (mapError_eq_ok_iff.mp htweaked)
      split at hcommits
      · rename_i hscript
        obtain rfl := Except.error.inj hcommits
        rw [← take_drop_script hlength] at hscript
        exact .uncommitted hkey hown htweaks hscript
      · cases hcommits

/-- A reason against an input is its fault. -/
theorem exists_error_of_refused (hlength : coin.output.script.length = 34) {code : FailureCode}
    (h : Refused keys coin place code) : ∃ e, u.signature keys coin place = .error e ∧ e.report.code = code := by
  cases h with
  | noKey hkey =>
    refine ⟨.noKey place, ?_, rfl⟩
    unfold signature
    simp only [hkey]
  | @noScalar secret hkey h =>
    cases hread : SecretKey.ofBytes secret with
    | error fault =>
      refine ⟨.key (.secretKey fault), ?_, rfl⟩
      rw [signature_of_key hkey, Taproot.tweakedSecret_of_fault hread]
      rfl
    | ok d => exact absurd (SecretKey.exists_toBytes_iff.mp ⟨d, SecretKey.ofBytes_eq_ok_iff.mp hread⟩) h
  | foreign hkey h =>
    refine ⟨.key .foreignSecret, ?_, rfl⟩
    rw [signature_of_key hkey, Taproot.tweakedSecret_of_ne h.symm]
    rfl
  | @noTweak d hkey hown h =>
    cases htweaked : Taproot.tweakedSecret (some d.toBytes.toList) d.xOnly with
    | error fault =>
      refine ⟨.key fault, ?_, Taproot.code_of_tweakedSecret_eq_error htweaked⟩
      rw [signature_of_key hkey, ← hown, htweaked]
      rfl
    | ok tweaked => exact absurd (Taproot.tweakedSecret_eq_ok_iff_tweaksTo.mp htweaked) (h tweaked)
  | @uncommitted d tweaked hkey hown htweaks h =>
    refine ⟨.uncommitted place, ?_, rfl⟩
    have htweaked := Taproot.tweakedSecret_eq_ok_iff_tweaksTo.mpr htweaks
    rw [take_drop_script hlength] at h
    rw [signature_of_key hkey, ← hown, htweaked]
    exact if_pos h

/-- An input is refused for the reason that holds, which is one. -/
theorem refused_iff (hlength : coin.output.script.length = 34) {e : SignError} (h : u.signature keys coin place = .error e)
    {code : FailureCode} : Refused keys coin place code ↔ code = e.report.code := by
  constructor
  · intro hrefused
    obtain ⟨e', he', hcode⟩ := exists_error_of_refused (u := u) hlength hrefused
    rw [h] at he'
    rw [← hcode, Except.error.inj he']
  · rintro rfl
    exact refused_of_signature hlength h

/-- What is refused cannot be signed. -/
theorem not_signable_of_refused (u : Unsigned) (hlength : coin.output.script.length = 34) {code : FailureCode}
    (h : Refused keys coin place code) : ¬Signable keys coin place := by
  intro hsignable
  obtain ⟨σ, hσ⟩ := (exists_signature_iff (u := u) hlength).mpr hsignable
  obtain ⟨e, he, -⟩ := exists_error_of_refused (u := u) hlength h
  rw [hσ] at he
  cases he

/-! ## A built transaction -/

/-- A transaction is signed alike from two sources of keys that sign each of its inputs alike. -/
theorem sign_of_signature_iff {keys keys' : KeySource}
    (h : ∀ place coin σ, u.coins[place]? = some coin →
      (u.signature keys coin place = .ok σ ↔ u.signature keys' coin place = .ok σ)) {t : Transaction}
    (hsign : u.sign keys = .ok t) : u.sign keys' = .ok t := by
  obtain ⟨signatures, hsignatures, rfl⟩ := of_sign hsign
  obtain ⟨hlength, hplaces⟩ := checkAll_eq_ok_iff.mp hsignatures
  have hsignatures' : checkAll (u.signature keys') 0 u.coins = .ok signatures := by
    refine checkAll_eq_ok_iff.mpr ⟨hlength, fun place coin σ hcoin hσ => ?_⟩
    have hplace := hplaces place coin σ hcoin hσ
    rw [Nat.zero_add] at hplace ⊢
    exact (h place coin σ hcoin).mp hplace
  exact bind_eq_ok_iff.mpr ⟨signatures, hsignatures', rfl⟩

namespace Built

variable {coins : List CoinRequest} {outputs : List OutputRequest} {network : Network} {config : Config}

theorem isSome_taprootKey? (h : Built coins outputs network config u) (hcoin : coin ∈ u.coins) :
    (Script.taprootKey? coin.output.script).isSome := by
  obtain ⟨request, -, haccepted⟩ := h.accepted_of_mem hcoin
  rw [haccepted.output]
  exact haccepted.taproot

theorem length_script (h : Built coins outputs network config u) (hcoin : coin ∈ u.coins) :
    coin.output.script.length = 34 := (Script.isSome_taprootKey?_iff.mp (h.isSome_taprootKey? hcoin)).1

/-- A built transaction is signed exactly when each of its inputs can be. -/
theorem exists_sign_iff (h : Built coins outputs network config u) :
    (∃ t, u.sign keys = .ok t) ↔ ∀ place coin, u.coins[place]? = some coin → Signable keys coin place := by
  have hsign : (∃ t, u.sign keys = .ok t) ↔ ∃ signatures, checkAll (u.signature keys) 0 u.coins = .ok signatures := by
    constructor
    · rintro ⟨t, ht⟩
      obtain ⟨signatures, hsignatures, -⟩ := of_sign ht
      exact ⟨signatures, hsignatures⟩
    · rintro ⟨signatures, hsignatures⟩
      exact ⟨_, bind_eq_ok_iff.mpr ⟨signatures, hsignatures, rfl⟩⟩
  rw [hsign, exists_checkAll_iff_forall]
  refine forall_congr' fun place => forall_congr' fun coin => imp_congr_right fun hcoin => ?_
  rw [Nat.zero_add]
  exact exists_signature_iff (h.length_script (List.mem_of_getElem? hcoin))

/-- The fault of a built transaction is the reason against its first input that cannot be signed. -/
theorem of_sign_eq_error (h : Built coins outputs network config u) {e : SignError} (hsign : u.sign keys = .error e) :
    ∃ place coin, u.coins[place]? = some coin ∧ ¬Signable keys coin place ∧
      (∀ earlier < place, ∀ coin', u.coins[earlier]? = some coin' → Signable keys coin' earlier) ∧
      ∀ code, Refused keys coin place code ↔ code = e.report.code := by
  have hfault : checkAll (u.signature keys) 0 u.coins = .error e := by
    rcases bind_eq_error_iff.mp hsign with hfault | ⟨signatures, -, hnone⟩
    · exact hfault
    · cases hnone
  obtain ⟨place, coin, hcoin, he, hfirst⟩ := checkAll_eq_error_iff.mp hfault
  rw [Nat.zero_add] at he
  have hlength := h.length_script (List.mem_of_getElem? hcoin)
  refine ⟨place, coin, hcoin, not_signable_of_refused u hlength (refused_of_signature hlength he),
    fun earlier hlt coin' hcoin' => ?_, fun code => refused_iff hlength he⟩
  have hsigned := hfirst earlier hlt coin' hcoin'
  rw [Nat.zero_add] at hsigned
  exact (exists_signature_iff (h.length_script (List.mem_of_getElem? hcoin'))).mp hsigned

end Built

/-- One key, which is given only for the inputs that it owns, signs an input as it does when it is given for that input. -/
theorem signs_single_iff {d d' tweaked : SecretKey} (hkey : keys place coin.internalKey = some d.toBytes.toList) :
    Signs (.single d) coin place d' tweaked ↔ Signs keys coin place d' tweaked := by
  constructor
  · intro h
    have hsingle := h.key
    unfold KeySource.single at hsingle
    split at hsingle
    · exact ⟨hkey.trans hsingle, h.own, h.tweaks, h.commits⟩
    · cases hsingle
  · intro h
    obtain rfl := SecretKey.eq_of_toBytes (Option.some.inj (hkey.symm.trans h.key))
    exact ⟨if_pos h.own.symm, h.own, h.tweaks, h.commits⟩

/-- A built transaction is signed exactly when each of its inputs has a key, which is a number between zero and the order of the
group and the secret key of the input's internal key, and which leads to the key that the input's script has from its third byte
to its 34th. Otherwise there is no transaction, and the fault is of the kind that the reason against the first other input says.
The faults of the stages of a partially signed transaction do not come out. One key signs the same transactions as the same key
for each place, and signs them alike. -/
theorem sign_exact {coins : List CoinRequest} {outputs : List OutputRequest} {network : Network} {config : Config}
    {u : Unsigned} (hbuild : build coins outputs network config = .ok u) :
    (∀ keys : KeySource,
      ((∃ t, u.sign keys = .ok t) ↔ ∀ place coin, u.coins[place]? = some coin → Signable keys coin place) ∧
      (∀ e, u.sign keys = .error e → ∃ place coin, u.coins[place]? = some coin ∧ ¬Signable keys coin place ∧
        (∀ earlier < place, ∀ coin', u.coins[earlier]? = some coin' → Signable keys coin' earlier) ∧
        ∀ code, Refused keys coin place code ↔ code = e.report.code) ∧
      u.toPartiallySigned.sign keys = (u.sign keys).mapError .sign) ∧
    ∀ (d : SecretKey) (placed : List (Nat × SecretKey)),
      (∀ place < u.coins.length, ∀ K, KeySource.byPlace placed place K = some d.toBytes.toList) →
      ∀ t, u.sign (.single d) = .ok t ↔ u.sign (.byPlace placed) = .ok t := by
  have hbuilt := of_build hbuild
  refine ⟨fun keys => ⟨hbuilt.exists_sign_iff, fun e he => hbuilt.of_sign_eq_error he, ?_⟩, fun d placed hplaced t => ?_⟩
  · exact sign_toPartiallySigned (fun coin hcoin => hbuilt.isSome_taprootKey? hcoin) keys
  · have hsignature : ∀ place coin σ, u.coins[place]? = some coin →
        (u.signature (.single d) coin place = .ok σ ↔ u.signature (.byPlace placed) coin place = .ok σ) := by
      intro place coin σ hcoin
      have hlength := hbuilt.length_script (List.mem_of_getElem? hcoin)
      have hplace : place < u.coins.length := (List.getElem?_eq_some_iff.mp hcoin).1
      rw [signature_eq_ok_iff hlength, signature_eq_ok_iff hlength]
      simp only [signs_single_iff (hplaced place hplace coin.internalKey)]
    exact ⟨sign_of_signature_iff hsignature,
      sign_of_signature_iff fun place coin σ hcoin => (hsignature place coin σ hcoin).symm⟩

/-- The two coins are signed for by their key at each of the places. Another key at the second place does not match, though the
first can be signed; with no key at the first place, it is the first that is refused. -/
theorem sign_exact_pair :
    pair.sign (.byPlace [(0, Taproot.six), (1, Taproot.six)]) = .ok (pair.withSignatures [pairSignature 0, pairSignature 1]) ∧
    (∃ e, pair.sign (.byPlace [(0, Taproot.six), (1, ⟨1, by decide⟩)]) = .error e ∧ e.report.code = .keyMismatch) ∧
    ∃ e, pair.sign (.byPlace [(1, Taproot.six)]) = .error e ∧ e.report.code = .signingFailed := by
  obtain ⟨hkeys, hsingle⟩ := sign_exact build_pair
  have hboth : pair.sign (.byPlace [(0, Taproot.six), (1, Taproot.six)]) =
      .ok (pair.withSignatures [pairSignature 0, pairSignature 1]) := by
    refine (hsingle Taproot.six _ (fun place hplace K => ?_) _).mp sign_pair
    rcases Nat.le_one_iff_eq_zero_or_eq_one.mp (Nat.le_of_lt_succ hplace) with rfl | rfl
    · rfl
    · rfl
  -- The place that the statement tells of is the first one that is refused.
  have hfails : ∀ (keys : KeySource) place coin code, pair.coins[place]? = some coin → Refused keys coin place code →
      (∀ earlier < place, ∀ coin', pair.coins[earlier]? = some coin' → Signable keys coin' earlier) →
      ∃ e, pair.sign keys = .error e ∧ e.report.code = code := by
    intro keys place coin code hcoin hrefused hearlier
    have hlength := (of_build build_pair).length_script (List.mem_of_getElem? hcoin)
    have hnot := not_signable_of_refused pair hlength hrefused
    cases hsign : pair.sign keys with
    | ok t => exact absurd ((hkeys keys).1.mp ⟨t, hsign⟩ place coin hcoin) hnot
    | error e =>
      obtain ⟨place', coin', hcoin', hnot', hfirst, hcode⟩ := (hkeys keys).2.1 e hsign
      rcases Nat.lt_trichotomy place' place with hlt | rfl | hgt
      · exact absurd (hearlier place' hlt coin' hcoin') hnot'
      · obtain rfl := Option.some.inj (hcoin.symm.trans hcoin')
        exact ⟨e, rfl, ((hcode code).mp hrefused).symm⟩
      · exact absurd (hfirst place hgt coin hcoin) hnot
  refine ⟨hboth, hfails _ 1 _ _ rfl (.foreign rfl (by decide +kernel)) ?_, hfails _ 0 _ _ rfl (.noKey rfl) ?_⟩
  · intro earlier hlt coin' hcoin'
    obtain rfl : earlier = 0 := Nat.lt_one_iff.mp hlt
    obtain ⟨d, tweaked, hsigns⟩ := (hkeys _).1.mp ⟨_, hboth⟩ 0 coin' hcoin'
    exact ⟨d, tweaked, hsigns.key, hsigns.own, hsigns.tweaks, hsigns.commits⟩
  · intro earlier hlt
    exact absurd hlt (Nat.not_lt_zero earlier)

end Unsigned

end OfflineSigner.Bitcoin
