import OfflineSigner.Proofs.Checked
import OfflineSigner.Proofs.Curve.Schnorr
import OfflineSigner.Taproot

/-!
# The two tweaks of a Taproot key

Statements about `Taproot.tweakedSecret` and `Taproot.outputKey`: a secret key is tweaked exactly when its internal key is, and
the tweaked secret key is that of the output key (`outputKey_eq_ok_iff`). Which side of the curve the keys lie on makes no
difference. Every output key commits to its internal key, whether a secret key is known or not (`commits_of_outputKey`).
-/

namespace OfflineSigner.Taproot

open Curve

/-- An internal key is read from its first coordinate, with or without a mark of the parity, if a point lies above it. -/
theorem parseInternalKey_eq_ok_iff {bs : Bytes} {K : XOnlyKey} :
    parseInternalKey bs = .ok K ↔
      (bs = K.toBytes.toList ∨ bs = 0x02 :: K.toBytes.toList ∨ bs = 0x03 :: K.toBytes.toList) ∧
        ∃ y, (Point.affine K.x y).OnCurve := by
  have hcompressed : ∀ b : UInt8, (b :: K.toBytes.toList).length = 33 := fun b => by
    rw [List.length_cons, K.toBytes.length_toList]
  unfold parseInternalKey
  split
  · rename_i hlength
    have hne : ∀ b : UInt8, bs ≠ b :: K.toBytes.toList := by
      intro b hbs
      rw [hbs, hcompressed b] at hlength
      cases hlength
    rw [mapError_eq_ok_iff, XOnlyKey.ofBytes_eq_ok_iff, or_iff_left (not_or.mpr ⟨hne 0x02, hne 0x03⟩)]
  · rename_i hxOnly
    have hne : bs ≠ K.toBytes.toList := fun hbs => hxOnly (by rw [hbs, K.toBytes.length_toList])
    rw [or_iff_right hne]
    split
    · rename_i hlength
      rw [mapError_eq_ok_iff, PublicKey.ofBytes_eq_ok_iff hlength]
    · rename_i hlength
      refine iff_of_false nofun ?_
      rintro ⟨hbs | hbs, -⟩ <;> exact hlength (hbs ▸ hcompressed _)

/-- The written forms of an internal key: its first coordinate, alone or behind a mark of the parity. -/
def forms (K : XOnlyKey) : List Bytes := [K.toBytes.toList, 0x02 :: K.toBytes.toList, 0x03 :: K.toBytes.toList]

/-- An internal key above which a point lies is read from each of its written forms. -/
theorem parseInternalKey_of_mem_forms {K : XOnlyKey} {y : FieldElement} (hcurve : (Point.affine K.x y).OnCurve) {bs : Bytes}
    (h : bs ∈ forms K) : parseInternalKey bs = .ok K := by
  refine parseInternalKey_eq_ok_iff.mpr ⟨?_, y, hcurve⟩
  simpa [forms] using h

/-- The internal key of a secret key is read from each of its written forms. -/
theorem parseInternalKey_own {d : SecretKey} {bs : Bytes} (h : bs ∈ forms d.xOnly) : parseInternalKey bs = .ok d.xOnly :=
  parseInternalKey_of_mem_forms (K := d.xOnly) (y := d.publicKey.y) d.onCurve_publicKey h

/-- What it takes to tweak a secret key, and what comes of it. -/
theorem tweakedSecret_eq_ok_iff {bs : Bytes} {internal : XOnlyKey} {tweaked : SecretKey} :
    tweakedSecret (some bs) internal = .ok tweaked ↔
      ∃ d t, SecretKey.ofBytes bs = .ok d ∧ d.xOnly = internal ∧ tweakScalar internal = .ok t ∧
        d.tweakEven? t = some tweaked := by
  unfold tweakedSecret
  rw [bind_eq_ok_iff]
  simp only [mapError_eq_ok_iff]
  constructor
  · rintro ⟨d, hd, h⟩
    split at h
    · cases h
    · rename_i hkey
      obtain ⟨t, ht, h⟩ := bind_eq_ok_iff.mp h
      refine ⟨d, t, hd, Decidable.not_not.mp hkey, ht, ?_⟩
      split at h
      · rename_i htweak
        rw [htweak, Except.ok.inj h]
      · cases h
  · rintro ⟨d, t, hd, hkey, ht, htweak⟩
    refine ⟨d, hd, ?_⟩
    rw [if_neg (not_not_intro hkey)]
    refine bind_eq_ok_iff.mpr ⟨t, ht, ?_⟩
    rw [htweak]

/-- The output key of an internal key whose secret is known is the key of the tweaked secret, and there is one exactly when
there is the other. -/
theorem outputKey_eq_ok_iff {d : SecretKey} {q : OutputKey} :
    outputKey d.xOnly = .ok q ↔
      ∃ tweaked, tweakedSecret (some d.toBytes.toList) d.xOnly = .ok tweaked ∧
        q = ⟨tweaked.xOnly, !tweaked.publicKey.y.isEven, tweakHash d.xOnly⟩ := by
  unfold outputKey
  rw [bind_eq_ok_iff]
  constructor
  · rintro ⟨t, ht, h⟩
    rw [d.tweak?_xOnly] at h
    cases htweak : d.tweakEven? t with
    | none =>
      rw [htweak] at h
      cases h
    | some tweaked =>
      rw [htweak] at h
      exact ⟨tweaked, tweakedSecret_eq_ok_iff.mpr ⟨d, t, d.ofBytes_toBytes, rfl, ht, htweak⟩, (Except.ok.inj h).symm⟩
  · rintro ⟨tweaked, h, rfl⟩
    obtain ⟨d', t, hd', -, ht, htweak⟩ := tweakedSecret_eq_ok_iff.mp h
    rw [d.ofBytes_toBytes] at hd'
    cases hd'
    refine ⟨t, ht, ?_⟩
    rw [d.tweak?_xOnly, htweak]
    rfl

/-- The script of an output key has version one and the length in front of the key. -/
theorem programScript_program (K : XOnlyKey) : BitcoinAddress.programScript (program K) = 0x51 :: 0x20 :: K.toBytes.toList := by
  rw [BitcoinAddress.programScript, program, K.toBytes.length_toList]
  rfl

/-- The script of an internal key whose secret is known holds the key of the tweaked secret. -/
theorem script_eq_ok_iff {d : SecretKey} {bs : Bytes} :
    script d.xOnly = .ok bs ↔
      ∃ tweaked, tweakedSecret (some d.toBytes.toList) d.xOnly = .ok tweaked ∧
        bs = 0x51 :: 0x20 :: tweaked.xOnly.toBytes.toList := by
  unfold script
  constructor
  · intro h
    cases hq : outputKey d.xOnly with
    | error e =>
      rw [hq] at h
      cases h
    | ok q =>
      rw [hq] at h
      obtain ⟨tweaked, htweaked, rfl⟩ := outputKey_eq_ok_iff.mp hq
      exact ⟨tweaked, htweaked, (Except.ok.inj h).symm.trans (programScript_program _)⟩
  · rintro ⟨tweaked, htweaked, rfl⟩
    rw [outputKey_eq_ok_iff.mpr ⟨tweaked, htweaked, rfl⟩, ← programScript_program]
    rfl

/-- The hash of an internal key writes its tweak, or no number in range. -/
theorem tweakScalar_cases (internal : XOnlyKey) :
    (∃ t, Scalar.ofBytes? (tweakHash internal).toList = some t ∧ tweakScalar internal = .ok t) ∨
      Scalar.ofBytes? (tweakHash internal).toList = none ∧ tweakScalar internal = .error .tweakRange := by
  -- Unfolded as a function: at its argument, comparing the two sides would evaluate the hash.
  have hdef : tweakScalar = tweakScalar := rfl
  conv_rhs at hdef => delta tweakScalar
  rw [hdef]
  beta_reduce
  generalize Scalar.ofBytes? (tweakHash internal).toList = read
  cases read with
  | none => exact Or.inr ⟨rfl, rfl⟩
  | some t => exact Or.inl ⟨t, rfl, rfl⟩

/-- The tweak of an internal key is the number that its hash writes, when that is in range. -/
theorem tweakScalar_eq_ok_iff {internal : XOnlyKey} {t : Scalar} :
    tweakScalar internal = .ok t ↔ Scalar.ofBytes? (tweakHash internal).toList = some t := by
  rcases tweakScalar_cases internal with ⟨t', hread, h⟩ | ⟨hread, h⟩
  · rw [hread, h, Except.ok.injEq, Option.some.injEq]
  · rw [hread, h]
    exact iff_of_false nofun nofun

theorem tweakScalar_eq_error {internal : XOnlyKey} {e : Error} (h : tweakScalar internal = .error e) : e = .tweakRange := by
  rcases tweakScalar_cases internal with ⟨t, -, hok⟩ | ⟨-, herror⟩
  · rw [hok] at h
    cases h
  · rw [herror] at h
    exact (Except.error.inj h).symm

/-- Whether an output key commits to an internal key, with no scripts beside it. The hash of the internal key is a number below
the order of the group, and as many base points are added to the point with an even second coordinate above the internal key. -/
structure Commits (internal output : XOnlyKey) : Prop where
  hash_lt : (tweakHash internal).toList.toNatBE < groupOrder
  point : ∃ (lifted : Group) (y y' : FieldElement), Point.ofGroup lifted = .affine internal.x y ∧ y.isEven = true ∧
    Point.ofGroup (lifted + (tweakHash internal).toList.toNatBE • base) = .affine output.x y'

/-- The output key of an internal key commits to it. -/
theorem commits_of_outputKey {internal : XOnlyKey} {q : OutputKey} (h : outputKey internal = .ok q) :
    Commits internal q.key := by
  obtain ⟨t, ht, h⟩ := bind_eq_ok_iff.mp h
  have hval := Scalar.val_of_ofBytes? (tweakScalar_eq_ok_iff.mp ht)
  cases htweak : internal.tweak? t with
  | none =>
    rw [htweak] at h
    cases h
  | some Q =>
    rw [htweak] at h
    cases h
    rw [XOnlyKey.tweak?, Option.bind_eq_bind] at htweak
    obtain ⟨P, hP, hQ⟩ := Option.bind_eq_some_iff.mp htweak
    obtain ⟨hcurve, y, rfl, hy⟩ := Point.exists_of_lift? hP
    obtain ⟨lifted, hlifted⟩ := Point.onCurve_iff.mp hcurve
    rw [PublicKey.ofPoint?_eq_some_iff, ← hlifted, Point.mulGenerator_eq, ← Point.ofGroup_add, residue, multiple_natCast,
      hval] at hQ
    exact ⟨hval ▸ t.isLt, lifted, y, Q.y, hlifted, hy, hQ⟩

/-- A secret key is no key for another internal key. -/
theorem tweakedSecret_of_ne {d : SecretKey} {internal : XOnlyKey} (h : internal ≠ d.xOnly) :
    tweakedSecret (some d.toBytes.toList) internal = .error .foreignSecret := by
  unfold tweakedSecret
  simp only [d.ofBytes_toBytes]
  exact if_pos h.symm

/-- What the tweaks of the secret key `k` and of its internal key agree on. The internal key is the first coordinate of the
point `k G`, whose second coordinate is `y`. -/
structure Agrees (k : Nat) (internal : XOnlyKey) (y : FieldElement) (tweaked : SecretKey) (q : OutputKey) : Prop where
  tweak : q.tweak = tweakHash internal
  /-- The tweak is added to the one of `k` and its opposite that leads to an even second coordinate. -/
  scalar : tweaked.scalar.val = ((if y.isEven then k else groupOrder - k) + q.tweak.toList.toNatBE) % groupOrder
  pos : 0 < tweaked.scalar.val
  lt : tweaked.scalar.val < groupOrder
  /-- The output key is the first coordinate of the tweaked secret key's multiple of the base point. -/
  key : ∃ y', Point.ofGroup (tweaked.scalar.val • base) = .affine q.key.x y'
  /-- The parity is that of the point with an even second coordinate above the internal key, plus the tweak's multiple of
  the base point. -/
  odd : ∃ (lifted : Group) (y' y'' : FieldElement), Point.ofGroup lifted = .affine internal.x y' ∧ y'.isEven = true ∧
    Point.ofGroup (lifted + q.tweak.toList.toNatBE • base) = .affine q.key.x y'' ∧ q.odd = !y''.isEven

/-- The tweaked secret key of a secret key is the sum of its even scalar and of the hash of its internal key. -/
theorem exists_tweak_of_tweakedSecret {d tweaked : SecretKey}
    (h : tweakedSecret (some d.toBytes.toList) d.xOnly = .ok tweaked) :
    ∃ t : Scalar, t.val = (tweakHash d.xOnly).toList.toNatBE ∧ tweaked.scalar = d.evenScalar + t := by
  obtain ⟨d', t, hd', -, ht, htweak⟩ := tweakedSecret_eq_ok_iff.mp h
  rw [d.ofBytes_toBytes] at hd'
  cases hd'
  exact ⟨t, Scalar.val_of_ofBytes? (tweakScalar_eq_ok_iff.mp ht), SecretKey.scalar_of_ofScalar? htweak⟩

theorem agrees_of_tweakedSecret {d tweaked : SecretKey}
    (h : tweakedSecret (some d.toBytes.toList) d.xOnly = .ok tweaked) :
    Agrees d.scalar.val d.xOnly d.publicKey.y tweaked ⟨tweaked.xOnly, !tweaked.publicKey.y.isEven, tweakHash d.xOnly⟩ := by
  obtain ⟨t, hval, hscalar⟩ := exists_tweak_of_tweakedSecret h
  have hpoint : Point.ofGroup (tweaked.scalar.val • base) = .affine tweaked.xOnly.x tweaked.publicKey.y :=
    tweaked.ofGroup_nsmul_base
  refine ⟨rfl, ?_, tweaked.val_pos, tweaked.scalar.isLt, ⟨_, hpoint⟩, multiple (residue d.evenScalar), _, tweaked.publicKey.y,
    d.ofGroup_evenScalar, d.isEven_evenY, ?_, rfl⟩
  · rw [hscalar, Fin.val_add, d.val_evenScalar, hval]
  · rw [← hval, ← multiple_natCast, ← residue, ← map_add, ← residue_add, ← hscalar, residue, multiple_natCast]
    exact hpoint

/-- Which secret key the internal key of a secret key leads to. The hash of the internal key is a number below the order of the
group, and is added to the one of the secret key and its opposite that leads to an even second coordinate. -/
structure TweaksTo (d tweaked : SecretKey) : Prop where
  hash_lt : (tweakHash d.xOnly).toList.toNatBE < groupOrder
  scalar : tweaked.scalar.val =
    ((if d.publicKey.y.isEven then d.scalar.val else groupOrder - d.scalar.val) + (tweakHash d.xOnly).toList.toNatBE) % groupOrder

theorem tweakedSecret_eq_ok_iff_tweaksTo {d tweaked : SecretKey} :
    tweakedSecret (some d.toBytes.toList) d.xOnly = .ok tweaked ↔ TweaksTo d tweaked := by
  constructor
  · intro h
    obtain ⟨t, hval, hscalar⟩ := exists_tweak_of_tweakedSecret h
    refine ⟨hval ▸ t.isLt, ?_⟩
    rw [hscalar, Fin.val_add, d.val_evenScalar, hval]
  · rintro ⟨hlt, hscalar⟩
    obtain ⟨t, ht, hval⟩ := Scalar.exists_of_lt hlt
    have hsum : d.evenScalar + t = tweaked.scalar := by
      apply Fin.ext
      rw [Fin.val_add, d.val_evenScalar, hscalar, hval]
    refine tweakedSecret_eq_ok_iff.mpr ⟨d, t, d.ofBytes_toBytes, rfl, tweakScalar_eq_ok_iff.mpr ht, ?_⟩
    rw [SecretKey.tweakEven?, hsum, tweaked.ofScalar?_scalar]

/-- What is tweaked is the secret key of the internal key. -/
theorem exists_tweaksTo {bs : Bytes} {internal : XOnlyKey} {tweaked : SecretKey}
    (h : tweakedSecret (some bs) internal = .ok tweaked) :
    ∃ d : SecretKey, d.toBytes.toList = bs ∧ d.xOnly = internal ∧ TweaksTo d tweaked := by
  obtain ⟨d, -, hd, hown, -, -⟩ := tweakedSecret_eq_ok_iff.mp h
  obtain rfl := SecretKey.ofBytes_eq_ok_iff.mp hd
  rw [← hown] at h
  exact ⟨d, rfl, hown, tweakedSecret_eq_ok_iff_tweaksTo.mp h⟩

/-- The internal key of a secret key fails to lead to another one for a fault of the tweak alone. -/
theorem code_of_tweakedSecret_eq_error {d : SecretKey} {e : Error}
    (h : tweakedSecret (some d.toBytes.toList) d.xOnly = .error e) : e.code = .cryptoError := by
  unfold tweakedSecret at h
  simp only [d.ofBytes_toBytes] at h
  rcases bind_eq_error_iff.mp h with h | ⟨d', hd', h⟩
  · cases h
  · obtain rfl : d = d' := Except.ok.inj hd'
    rw [if_neg (not_not_intro rfl)] at h
    rcases bind_eq_error_iff.mp h with h | ⟨t, -, h⟩
    · rw [tweakScalar_eq_error h]
      rfl
    · split at h
      · cases h
      · obtain rfl := Except.error.inj h
        rfl

/-- What is no secret key is not tweaked. -/
theorem tweakedSecret_of_fault {bs : Bytes} {internal : XOnlyKey} {fault : KeyFault} (h : SecretKey.ofBytes bs = .error fault) :
    tweakedSecret (some bs) internal = .error (.secretKey fault) := by
  unfold tweakedSecret
  simp only [h]
  rfl

/-- Why a secret key is not tweaked: it is none, or it is that of another internal key, or there is no tweaked one. -/
theorem of_tweakedSecret_eq_error {bs : Bytes} {internal : XOnlyKey} {e : Error}
    (h : tweakedSecret (some bs) internal = .error e) :
    ((∀ d : SecretKey, d.toBytes.toList ≠ bs) ∧ e.code = .invalidPrivateKeyFound) ∨
      ∃ d : SecretKey, d.toBytes.toList = bs ∧
        (d.xOnly ≠ internal ∧ e.code = .keyMismatch ∨
          d.xOnly = internal ∧ (∀ tweaked, ¬TweaksTo d tweaked) ∧ e.code = .cryptoError) := by
  cases hread : SecretKey.ofBytes bs with
  | error fault =>
    left
    refine ⟨fun d hd => ?_, ?_⟩
    · rw [SecretKey.ofBytes_eq_ok_iff.mpr hd] at hread
      cases hread
    · rw [tweakedSecret_of_fault hread] at h
      obtain rfl := Except.error.inj h
      rfl
  | ok d =>
    right
    obtain rfl := SecretKey.ofBytes_eq_ok_iff.mp hread
    refine ⟨d, rfl, ?_⟩
    by_cases hown : d.xOnly = internal
    · right
      subst hown
      have htweaks : ∀ tweaked, ¬TweaksTo d tweaked := by
        intro tweaked htweaked
        rw [tweakedSecret_eq_ok_iff_tweaksTo.mpr htweaked] at h
        cases h
      exact ⟨rfl, htweaks, code_of_tweakedSecret_eq_error h⟩
    · left
      rw [tweakedSecret_of_ne fun hsame => hown hsame.symm] at h
      obtain rfl := Except.error.inj h
      exact ⟨hown, rfl⟩

/-- The secret key and its internal key are tweaked together. For a secret key between zero and the order of the group and the
first coordinate of its multiple of the base point, the one tweak succeeds exactly when the other does, and then they agree,
whichever parity the second coordinate has; for every other internal key the secret key is refused. -/
theorem tweaks_agree {bs : Bytes} (hlength : bs.length = 32) (hpos : 0 < bs.toNatBE) (hlt : bs.toNatBE < groupOrder)
    {internal : XOnlyKey} {y : FieldElement} (hinternal : Point.ofGroup (bs.toNatBE • base) = .affine internal.x y) :
    ((∃ tweaked, tweakedSecret (some bs) internal = .ok tweaked) ↔ ∃ q, outputKey internal = .ok q) ∧
    (∀ tweaked q, tweakedSecret (some bs) internal = .ok tweaked → outputKey internal = .ok q →
      Agrees bs.toNatBE internal y tweaked q) ∧
    ∀ other, other ≠ internal → ∃ e, tweakedSecret (some bs) other = .error e ∧ e.code = .keyMismatch := by
  obtain ⟨d, rfl, hval⟩ := SecretKey.exists_of_bytes hlength hpos hlt
  rw [← hval] at hinternal ⊢
  obtain ⟨hx, rfl⟩ := Point.affine.inj (d.ofGroup_nsmul_base.symm.trans hinternal)
  obtain rfl : d.xOnly = internal := congrArg XOnlyKey.mk hx
  refine ⟨?_, ?_, fun other hother => ⟨.foreignSecret, tweakedSecret_of_ne hother, rfl⟩⟩
  · constructor
    · rintro ⟨tweaked, h⟩
      exact ⟨_, outputKey_eq_ok_iff.mpr ⟨tweaked, h, rfl⟩⟩
    · rintro ⟨q, h⟩
      obtain ⟨tweaked, htweaked, -⟩ := outputKey_eq_ok_iff.mp h
      exact ⟨tweaked, htweaked⟩
  · intro tweaked q htweaked hq
    obtain ⟨tweaked', htweaked', rfl⟩ := outputKey_eq_ok_iff.mp hq
    obtain rfl : tweaked = tweaked' := Except.ok.inj (htweaked.symm.trans htweaked')
    exact agrees_of_tweakedSecret htweaked

/-- A secret key whose public key has an odd second coordinate. -/
def six : SecretKey := ⟨Scalar.ofNat 6, by decide⟩

theorem isEven_six : six.publicKey.y.isEven = false := by decide +kernel

/-- The secret key to which the internal key of six leads. -/
def tweakedSix : SecretKey :=
  ⟨Scalar.ofNat 17185905369000817459328053599050144637411584049249862510388534510714281941053, by decide⟩

theorem toNatBE_tweakHash_six :
    (tweakHash six.xOnly).toList.toNatBE = 17185905369000817459328053599050144637411584049249862510388534510714281941059 := by
  decide +kernel

theorem tweaksTo_six : TweaksTo six tweakedSix where
  hash_lt := by
    rw [toNatBE_tweakHash_six]
    decide
  scalar := by
    rw [isEven_six, toNatBE_tweakHash_six]
    decide

theorem publicKey_tweakedSix : tweakedSix.publicKey =
    ⟨FieldElement.ofNat 76387800981830177593648862793841394099086454288197040326412440362656081312794,
      FieldElement.ofNat 70359451370575326253598249550778338100003043252458556954923873134787161309711⟩ := by
  decide +kernel

/-- The script of the coins of the key. -/
def scriptSix : Bytes :=
  0x51 :: 0x20 :: Bytes.ofNatBE 32 76387800981830177593648862793841394099086454288197040326412440362656081312794

theorem script_six : script six.xOnly = .ok scriptSix := by
  refine script_eq_ok_iff.mpr ⟨tweakedSix, tweakedSecret_eq_ok_iff_tweaksTo.mpr tweaksTo_six, ?_⟩
  rw [SecretKey.xOnly, publicKey_tweakedSix]
  rfl

theorem isSome_outputKey_six : (outputKey six.xOnly).toOption.isSome = true := by
  rw [outputKey_eq_ok_iff.mpr ⟨tweakedSix, tweakedSecret_eq_ok_iff_tweaksTo.mpr tweaksTo_six, rfl⟩]
  rfl

/-- The tweaks of a key on the odd side agree. -/
theorem tweaks_agree_six :
    ∃ (internal : XOnlyKey) (y : FieldElement) (tweaked : SecretKey) (q : OutputKey),
      y.isEven = false ∧ tweakedSecret (some six.toBytes.toList) internal = .ok tweaked ∧ outputKey internal = .ok q ∧
      Agrees 6 internal y tweaked q := by
  have hval : six.toBytes.toList.toNatBE = six.scalar.val := Scalar.toNatBE_toBytes _
  have hinternal : Point.ofGroup (six.toBytes.toList.toNatBE • base) = .affine six.xOnly.x six.publicKey.y := by
    rw [hval]
    exact six.ofGroup_nsmul_base
  obtain ⟨hiff, hagree, -⟩ := tweaks_agree six.toBytes.length_toList (hval ▸ six.val_pos) (hval ▸ six.scalar.isLt) hinternal
  obtain ⟨q, hq⟩ := Option.isSome_iff_exists.mp isSome_outputKey_six
  have hq : outputKey six.xOnly = .ok q := toOption_eq_some_iff.mp hq
  obtain ⟨tweaked, htweaked⟩ := hiff.mpr ⟨q, hq⟩
  have hagrees := hagree tweaked q htweaked hq
  rw [hval] at hagrees
  exact ⟨six.xOnly, six.publicKey.y, tweaked, q, isEven_six, htweaked, hq, hagrees⟩

end OfflineSigner.Taproot
