import OfflineSigner.Curve.Key
import OfflineSigner.Proofs.Bytes
import OfflineSigner.Proofs.Curve.Multiple
import Mathlib.Tactic.NormNum

/-!
# Secret and public keys belong together

The public key of a secret key is its multiple of the base point (`SecretKey.toPoint_publicKey`), and the point that its x-only
form stands for is the multiple by the even scalar (`SecretKey.point?_xOnly`). So tweaking the even scalar and tweaking the
x-only key lead to one key, or fail together (`SecretKey.tweak?_xOnly`). What is written of a key is read as that key, and tells
it (`PublicKey.eq_of_compressed`).
-/

namespace OfflineSigner.Curve

namespace Point

/-- Two elements with one square are one another or opposites. -/
theorem eq_or_eq_neg_of_sq {a b : FieldElement} (h : a * a = b * b) : a = b ∨ a = -b := by
  have hr : residue a * residue a = residue b * residue b := by
    rw [← residue_mul, ← residue_mul, h]
  rcases mul_self_eq_mul_self_iff.mp hr with h | h
  · exact Or.inl (residue_injective h)
  · rw [← residue_neg] at h
    exact Or.inr (residue_injective h)

theorem neg_neg_element (a : FieldElement) : - -a = a := by
  apply residue_injective
  rw [residue_neg, residue_neg, neg_neg]

/-- Above the first coordinate of a point on the curve, the even second coordinate is found. -/
theorem evenY?_of_onCurve {x y : FieldElement} (h : (affine x y).OnCurve) :
    evenY? x = some (if y.isEven then y else -y) := by
  obtain ⟨r, hr⟩ := FieldElement.exists_sqrt? (h : y * y = x * x * x + 7)
  rw [evenY?, hr, Option.map_some, Option.some_inj]
  have hsq : r * r = y * y := (FieldElement.sq_of_sqrt? hr).trans (h : y * y = x * x * x + 7).symm
  rcases eq_or_eq_neg_of_sq hsq with rfl | rfl
  · rfl
  · by_cases h0 : y = 0
    · subst h0
      rfl
    · rw [FieldElement.isEven_neg h0, neg_neg_element]
      cases y.isEven <;> rfl

/-- An even second coordinate is found above a first one exactly when a point lies above it. -/
theorem isSome_evenY?_iff {x : FieldElement} : (evenY? x).isSome ↔ ∃ y, (affine x y).OnCurve := by
  constructor
  · intro h
    rw [evenY?, Option.isSome_map] at h
    obtain ⟨r, hr⟩ := Option.isSome_iff_exists.mp h
    exact ⟨r, FieldElement.sq_of_sqrt? hr⟩
  · rintro ⟨y, h⟩
    rw [evenY?_of_onCurve h]
    rfl

/-- The second coordinate of a parity that is found above the first coordinate of a point is that point's, or the opposite
one when the parity is the other. -/
theorem lift?_of_onCurve {x y : FieldElement} (h : (affine x y).OnCurve) (even : Bool) :
    lift? x even = some (.affine x (if y.isEven = even then y else -y)) := by
  rw [lift?, evenY?_of_onCurve h, Option.map_some, Option.some_inj, Point.affine.injEq]
  refine ⟨rfl, ?_⟩
  cases y.isEven <;> cases even <;> simp

/-- Of an element and its opposite the chosen one is even. -/
theorem isEven_even (y : FieldElement) : (if y.isEven then y else -y).isEven = true := by
  split
  · assumption
  · rename_i h
    by_cases h0 : y = 0
    · rw [h0] at h
      exact absurd rfl h
    · rw [FieldElement.isEven_neg h0]
      simpa using h

/-- The opposite of a point of the curve is one. -/
theorem onCurve_neg {P : Point} (h : P.OnCurve) : (-P).OnCurve := by
  obtain ⟨g, rfl⟩ := onCurve_iff.mp h
  exact onCurve_iff.mpr ⟨-g, ofGroup_neg g⟩

/-- The point with an even second coordinate that is found above a first coordinate is one of the curve. -/
theorem exists_of_lift? {x : FieldElement} {P : Point} (h : lift? x true = some P) :
    P.OnCurve ∧ ∃ y, P = affine x y ∧ y.isEven = true := by
  obtain ⟨y', hy', rfl⟩ := Option.map_eq_some_iff.mp h
  obtain ⟨y, hy⟩ := isSome_evenY?_iff.mp (Option.isSome_iff_exists.mpr ⟨y', hy'⟩)
  rw [evenY?_of_onCurve hy] at hy'
  obtain rfl := Option.some.inj hy'
  refine ⟨?_, _, rfl, isEven_even y⟩
  rw [if_pos rfl]
  split
  · exact hy
  · exact onCurve_neg hy

end Point

namespace PublicKey

@[simp] theorem ofPoint?_toPoint (K : PublicKey) : ofPoint? K.toPoint = some K := rfl

theorem ofPoint?_eq_some_iff {P : Point} {K : PublicKey} : ofPoint? P = some K ↔ P = K.toPoint := by
  constructor
  · intro h
    cases P with
    | infinity => cases h
    | affine x y =>
      cases h
      rfl
  · rintro rfl
    exact ofPoint?_toPoint K

end PublicKey

namespace SecretKey

/-- The residue of a secret key is not zero. -/
theorem residue_ne_zero (d : SecretKey) : residue d.scalar ≠ 0 := fun h => d.scalar_ne_zero (residue_eq_zero_iff.mp h)

theorem val_pos (d : SecretKey) : 0 < d.scalar.val :=
  Nat.pos_of_ne_zero fun h => d.scalar_ne_zero (Fin.ext h)

/-- The even scalar as a number. -/
theorem val_evenScalar (d : SecretKey) :
    d.evenScalar.val = if d.publicKey.y.isEven then d.scalar.val else groupOrder - d.scalar.val := by
  unfold evenScalar
  split
  · rfl
  · rw [Fin.val_neg, if_neg d.scalar_ne_zero]

/-- The public key is the multiple of the base point. -/
theorem toPoint_publicKey (d : SecretKey) : d.publicKey.toPoint = Point.ofGroup (multiple (residue d.scalar)) := by
  have hne : Point.mulGenerator d.scalar ≠ .infinity := by
    rw [Point.mulGenerator_eq, Ne, Point.ofGroup_eq_infinity_iff, multiple_eq_zero_iff]
    exact d.residue_ne_zero
  rw [← Point.mulGenerator_eq, publicKey]
  cases h : Point.mulGenerator d.scalar with
  | infinity => exact absurd h hne
  | affine x y => rfl

/-- The sum of as many base points as the secret key says has the coordinates of the public key. -/
theorem ofGroup_nsmul_base (d : SecretKey) : Point.ofGroup (d.scalar.val • base) = .affine d.xOnly.x d.publicKey.y := by
  rw [← multiple_natCast]
  exact d.toPoint_publicKey.symm

theorem onCurve_publicKey (d : SecretKey) : d.publicKey.toPoint.OnCurve :=
  Point.onCurve_iff.mpr ⟨_, d.toPoint_publicKey.symm⟩

/-- A secret key's scalar has a public key; zero has none. -/
theorem ofPoint?_multiple (k : Scalar) :
    PublicKey.ofPoint? (Point.ofGroup (multiple (residue k))) = (ofScalar? k).map publicKey := by
  unfold ofScalar?
  split
  · rename_i h
    rw [← toPoint_publicKey ⟨k, h⟩, PublicKey.ofPoint?_toPoint]
    rfl
  · rename_i h
    have h0 : k = 0 := Decidable.byContradiction h
    rw [h0, residue_zero, map_zero]
    rfl

/-- The even scalar's multiple of the base point has the x-only key's first coordinate and an even second one. -/
theorem ofGroup_evenScalar (d : SecretKey) :
    Point.ofGroup (multiple (residue d.evenScalar)) =
      .affine d.publicKey.x (if d.publicKey.y.isEven then d.publicKey.y else -d.publicKey.y) := by
  unfold evenScalar
  split
  · exact d.toPoint_publicKey.symm
  · rw [residue_neg, map_neg, Point.ofGroup_neg, ← d.toPoint_publicKey]
    rfl

/-- The x-only key stands for the even scalar's multiple of the base point. -/
theorem point?_xOnly (d : SecretKey) : d.xOnly.point? = some (Point.ofGroup (multiple (residue d.evenScalar))) := by
  rw [ofGroup_evenScalar, XOnlyKey.point?]
  exact (Point.lift?_of_onCurve d.onCurve_publicKey true)

/-- The second coordinate of the point that the x-only key stands for is even. -/
theorem isEven_evenY (d : SecretKey) :
    (if d.publicKey.y.isEven then d.publicKey.y else -d.publicKey.y).isEven = true := Point.isEven_even d.publicKey.y

/-- Tweaking the x-only key gives the public key of the tweaked even scalar, and fails with it. -/
theorem tweak?_xOnly (d : SecretKey) (t : Scalar) : d.xOnly.tweak? t = (d.tweakEven? t).map publicKey := by
  rw [XOnlyKey.tweak?, d.point?_xOnly, tweakEven?, ← ofPoint?_multiple, residue_add, map_add, Point.ofGroup_add,
    Point.mulGenerator_eq]
  rfl

/-- Adding a tweak gives a secret key, unless the sum is zero. -/
theorem exists_tweak? {d : SecretKey} {t : Scalar} (h : d.scalar + t ≠ 0) :
    ∃ d', d.tweak? t = some d' ∧ d'.scalar = d.scalar + t := ⟨⟨_, h⟩, dif_pos h, rfl⟩

theorem tweak?_eq_none {d : SecretKey} {t : Scalar} (h : d.scalar + t = 0) : d.tweak? t = none :=
  dif_neg (not_not_intro h)

/-- Tweaking the public key gives the public key of the tweaked secret key, and fails with it. -/
theorem tweak?_publicKey (d : SecretKey) (t : Scalar) : d.publicKey.tweak? t = (d.tweak? t).map publicKey := by
  rw [PublicKey.tweak?, SecretKey.tweak?, ← ofPoint?_multiple, residue_add, map_add, Point.ofGroup_add,
    Point.mulGenerator_eq, d.toPoint_publicKey]

end SecretKey

/-! ## Written forms -/

theorem fieldPrime_lt : fieldPrime < 256 ^ 32 := by norm_num [fieldPrime]

theorem groupOrder_lt : groupOrder < 256 ^ 32 := by norm_num [groupOrder]

theorem FieldElement.toNatBE_toBytes (a : FieldElement) : a.toBytes.toList.toNatBE = a.val := by
  have hlt : a.val < 256 ^ 32 := a.isLt.trans fieldPrime_lt
  exact Bytes.toNatBE_ofNatBE_of_lt hlt

theorem FieldElement.ofBytes?_toBytes (a : FieldElement) : FieldElement.ofBytes? a.toBytes.toList = some a := by
  simp only [FieldElement.ofBytes?, a.toNatBE_toBytes, a.isLt, dite_true]

/-- Bytes are read as a field element exactly when they are the ones written for it. -/
theorem FieldElement.ofBytes?_eq_some_iff {bs : Bytes} (hlength : bs.length = 32) {a : FieldElement} :
    FieldElement.ofBytes? bs = some a ↔ bs = a.toBytes.toList := by
  constructor
  · intro h
    unfold FieldElement.ofBytes? at h
    split at h
    · have hval : bs.toNatBE = a.val := congrArg Fin.val (Option.some.inj h)
      have hbytes := Bytes.ofNatBE_toNatBE bs
      rw [hlength, hval] at hbytes
      exact hbytes.symm
    · cases h
  · intro h
    rw [h, a.ofBytes?_toBytes]

theorem Scalar.toNatBE_toBytes (k : Scalar) : k.toBytes.toList.toNatBE = k.val := by
  have hlt : k.val < 256 ^ 32 := k.isLt.trans groupOrder_lt
  exact Bytes.toNatBE_ofNatBE_of_lt hlt

theorem Scalar.ofBytes?_toBytes (k : Scalar) : Scalar.ofBytes? k.toBytes.toList = some k := by
  simp only [Scalar.ofBytes?, Scalar.toNatBE_toBytes k, k.isLt, dite_true]

/-- A scalar that bytes write is the number that they write. -/
theorem Scalar.val_of_ofBytes? {bs : Bytes} {k : Scalar} (h : Scalar.ofBytes? bs = some k) : k.val = bs.toNatBE := by
  unfold Scalar.ofBytes? at h
  split at h
  · exact (congrArg Fin.val (Option.some.inj h)).symm
  · cases h

/-- Bytes that write a number below the order of the group write a scalar. -/
theorem Scalar.exists_of_lt {bs : Bytes} (h : bs.toNatBE < groupOrder) :
    ∃ k, Scalar.ofBytes? bs = some k ∧ k.val = bs.toNatBE := ⟨⟨bs.toNatBE, h⟩, dif_pos h, rfl⟩

theorem SecretKey.scalar_of_ofScalar? {k : Scalar} {d : SecretKey} (h : ofScalar? k = some d) : d.scalar = k := by
  unfold ofScalar? at h
  split at h
  · exact (congrArg SecretKey.scalar (Option.some.inj h)).symm
  · cases h

theorem SecretKey.ofScalar?_scalar (d : SecretKey) : SecretKey.ofScalar? d.scalar = some d := dif_pos d.scalar_ne_zero

/-- The bytes of a secret key are read as that key. -/
theorem SecretKey.ofBytes_toBytes (d : SecretKey) : SecretKey.ofBytes d.toBytes.toList = .ok d := by
  rw [SecretKey.ofBytes, if_pos d.toBytes.length_toList, SecretKey.toBytes, Scalar.ofBytes?_toBytes, Option.bind_some,
    d.ofScalar?_scalar]

/-- Bytes are read as a secret key exactly when they are the ones written for it. -/
theorem SecretKey.ofBytes_eq_ok_iff {bs : Bytes} {d : SecretKey} : SecretKey.ofBytes bs = .ok d ↔ d.toBytes.toList = bs := by
  constructor
  · intro h
    unfold ofBytes at h
    split at h
    · rename_i hlength
      split at h
      · rename_i d' hread
        cases h
        obtain ⟨k, hk, hd⟩ := Option.bind_eq_some_iff.mp hread
        have hbytes : d.toBytes.toList = Bytes.ofNatBE 32 bs.toNatBE := by
          rw [← Scalar.val_of_ofBytes? hk, ← SecretKey.scalar_of_ofScalar? hd]
          rfl
        rw [hbytes, ← hlength, Bytes.ofNatBE_toNatBE]
      · cases h
    · cases h
  · rintro rfl
    exact d.ofBytes_toBytes

/-- A secret key is told by its bytes. -/
theorem SecretKey.eq_of_toBytes {d d' : SecretKey} (h : d.toBytes.toList = d'.toBytes.toList) : d = d' := by
  have hread := d.ofBytes_toBytes
  rw [h, d'.ofBytes_toBytes] at hread
  exact (Except.ok.inj hread).symm

/-- Bytes that write a number between zero and the order of the group are those of a secret key. -/
theorem SecretKey.exists_of_bytes {bs : Bytes} (hlength : bs.length = 32) (hpos : 0 < bs.toNatBE)
    (hlt : bs.toNatBE < groupOrder) : ∃ d : SecretKey, d.toBytes.toList = bs ∧ d.scalar.val = bs.toNatBE := by
  have hne : (⟨bs.toNatBE, hlt⟩ : Scalar) ≠ 0 := by
    intro h
    exact absurd (congrArg Fin.val h) hpos.ne'
  refine ⟨⟨⟨bs.toNatBE, hlt⟩, hne⟩, ?_, rfl⟩
  have hbytes := Bytes.ofNatBE_toNatBE bs
  rwa [hlength] at hbytes

/-- Bytes are those of a secret key exactly when they write a number between zero and the order of the group. -/
theorem SecretKey.exists_toBytes_iff {bs : Bytes} :
    (∃ d : SecretKey, d.toBytes.toList = bs) ↔ bs.length = 32 ∧ 0 < bs.toNatBE ∧ bs.toNatBE < groupOrder := by
  constructor
  · rintro ⟨d, hd⟩
    have hval : bs.toNatBE = d.scalar.val := hd ▸ Scalar.toNatBE_toBytes d.scalar
    rw [hval]
    exact ⟨hd ▸ d.toBytes.length_toList, d.val_pos, d.scalar.isLt⟩
  · rintro ⟨hlength, hpos, hlt⟩
    obtain ⟨d, hd, -⟩ := SecretKey.exists_of_bytes hlength hpos hlt
    exact ⟨d, hd⟩

/-- The bytes of an x-only key above which a point lies are read as that key. -/
theorem XOnlyKey.ofBytes_toBytes {K : XOnlyKey} (h : K.point?.isSome) : XOnlyKey.ofBytes K.toBytes.toList = .ok K := by
  have hy : (Point.evenY? K.x).isSome := by simpa [XOnlyKey.point?, Point.lift?] using h
  rw [XOnlyKey.ofBytes, if_pos K.toBytes.length_toList, XOnlyKey.toBytes, FieldElement.ofBytes?_toBytes]
  simp [hy]

/-- Bytes are read as an x-only key exactly when they are the ones written for it, and a point lies above it. -/
theorem XOnlyKey.ofBytes_eq_ok_iff {bs : Bytes} {K : XOnlyKey} :
    XOnlyKey.ofBytes bs = .ok K ↔ bs = K.toBytes.toList ∧ ∃ y, (Point.affine K.x y).OnCurve := by
  rw [← Point.isSome_evenY?_iff]
  constructor
  · intro h
    unfold XOnlyKey.ofBytes at h
    split at h
    · rename_i hlength
      split at h
      · rename_i x hx
        split at h
        · rename_i hy
          obtain rfl : ⟨x⟩ = K := Except.ok.inj h
          exact ⟨(FieldElement.ofBytes?_eq_some_iff hlength).mp hx, hy⟩
        · cases h
      · cases h
    · cases h
  · rintro ⟨hbytes, hy⟩
    rw [hbytes, XOnlyKey.ofBytes_toBytes (by rwa [XOnlyKey.point?, Point.lift?, Option.isSome_map])]

/-- Of 33 bytes, those are read as a public key that mark the parity of the second coordinate and write a first coordinate
above which a point lies. -/
theorem PublicKey.ofBytes_eq_ok_iff {bs : Bytes} (hlength : bs.length = 33) {K : XOnlyKey} :
    (PublicKey.ofBytes bs).map PublicKey.xOnly = .ok K ↔
      (bs = 0x02 :: K.toBytes.toList ∨ bs = 0x03 :: K.toBytes.toList) ∧ ∃ y, (Point.affine K.x y).OnCurve := by
  rw [← Point.isSome_evenY?_iff]
  cases bs with
  | nil => cases hlength
  | cons lead rest =>
    have hrest : rest.length = 32 := Nat.succ.inj hlength
    have hform : (lead :: rest = 0x02 :: K.toBytes.toList ∨ lead :: rest = 0x03 :: K.toBytes.toList) ↔
        (lead = 0x02 ∨ lead = 0x03) ∧ FieldElement.ofBytes? rest = some K.x := by
      rw [FieldElement.ofBytes?_eq_some_iff hrest, List.cons.injEq, List.cons.injEq, ← or_and_right]
      rfl
    rw [hform, PublicKey.ofBytes, PublicKey.ofBytes?]
    by_cases hlead : lead = 0x02 ∨ lead = 0x03
    · rw [if_pos ⟨hrest, hlead⟩]
      cases hx : FieldElement.ofBytes? rest with
      | none => exact iff_of_false nofun fun h => nomatch h.1.2
      | some x =>
        rw [Option.bind_eq_bind, Option.bind_some, Point.lift?]
        cases hy : Point.evenY? x with
        | none =>
          refine iff_of_false nofun ?_
          rintro ⟨⟨-, hxK⟩, hsome⟩
          rw [← Option.some.inj hxK, hy] at hsome
          cases hsome
        | some y =>
          constructor
          · intro h
            obtain rfl : ⟨x⟩ = K := Except.ok.inj h
            exact ⟨⟨hlead, rfl⟩, by rw [hy]; rfl⟩
          · rintro ⟨⟨-, hxK⟩, -⟩
            exact congrArg (fun x => Except.ok (XOnlyKey.mk x)) (Option.some.inj hxK)
    · rw [if_neg fun h => hlead h.2, if_neg (by rw [hrest]; decide)]
      exact iff_of_false nofun fun h => hlead h.1.1

theorem FieldElement.eq_of_toBytes {a b : FieldElement} (h : a.toBytes.toList = b.toBytes.toList) : a = b := by
  have hread := a.ofBytes?_toBytes
  rw [h, b.ofBytes?_toBytes] at hread
  exact (Option.some.inj hread).symm

namespace PublicKey

/-- A tweaked key is a point of the curve. -/
theorem onCurve_of_tweak? {K K' : PublicKey} {t : Scalar} (hK : K.toPoint.OnCurve) (h : K.tweak? t = some K') :
    K'.toPoint.OnCurve := by
  obtain ⟨g, hg⟩ := Point.onCurve_iff.mp hK
  rw [tweak?, ofPoint?_eq_some_iff, ← hg, Point.mulGenerator_eq, ← Point.ofGroup_add] at h
  exact Point.onCurve_iff.mpr ⟨_, h⟩

/-- Of the points of the curve, each is told by its 33 bytes. -/
theorem eq_of_compressed {K K' : PublicKey} (hK : K.toPoint.OnCurve) (hK' : K'.toPoint.OnCurve)
    (h : K.compressed.toList = K'.compressed.toList) : K = K' := by
  obtain ⟨x, y⟩ := K
  obtain ⟨x', y'⟩ := K'
  obtain ⟨hlead, hx⟩ := List.cons.inj h
  obtain rfl : x = x' := FieldElement.eq_of_toBytes hx
  have hparity : y'.isEven = y.isEven := by
    dsimp only at hlead
    cases hy : y.isEven <;> cases hy' : y'.isEven <;> simp [hy, hy'] at hlead ⊢
  have hlift := Point.lift?_of_onCurve hK y.isEven
  rw [Point.lift?_of_onCurve hK' y.isEven, if_pos hparity, if_pos rfl] at hlift
  obtain ⟨-, rfl⟩ := Point.affine.inj (Option.some.inj hlift)
  rfl

end PublicKey

end OfflineSigner.Curve
