import Mathlib

/-! # How doubles are rounded

A finite double unpacks into a sign, a mantissa and an exponent, in a canonical form: the mantissa is full
unless the exponent is the least. Rounding gives this form to every mantissa, and packing keeps what has it,
unless the exponent is too large.
-/
namespace Metrology.Decimal

open Float.Model Float.Model.UnpackedFloat

/-- What rounding leaves: a mantissa that is full unless the exponent is the least. -/
structure Canonical (m : Nat) (e : Int) : Prop where
  pos : 0 < m
  lt : m < 2 ^ 53
  le : -1074 ≤ e
  full : m.log2 = 52 ∨ e = -1074

theorem finite_congr (s : Sign) {m m' : Nat} {e e' : Int} (hm : m = m') (he : e = e') (h : 0 < m) (h' : 0 < m') :
    UnpackedFloat.finite s m e h = .finite s m' e' h' := by
  subst hm he
  rfl

theorem unpack_components (s : Sign) (field fraction : Nat) (hfield : field < 2047) (hfraction : fraction < 2 ^ 52)
    (hne : 0 < field ∨ 0 < fraction) : ∃ h, UnpackedFloat.unpack Format.binary64
      (packComponents Format.binary64 s (BitVec.ofNat 11 field) (BitVec.ofNat 52 fraction)) =
        .finite s (if field = 0 then fraction else 2 ^ 52 + fraction)
            ((if field = 0 then 1 else field : Nat) - 1075) h := by
  have hfieldNat : (BitVec.ofNat 11 field).toNat = field := by
    rw [BitVec.toNat_ofNat, Nat.mod_eq_of_lt (by omega)]
  have hfractionNat : (BitVec.ofNat 52 fraction).toNat = fraction := by
    rw [BitVec.toNat_ofNat, Nat.mod_eq_of_lt (by omega)]
  have htop : BitVec.ofNat 11 field ≠ -1#11 := fun h => by
    have h := congrArg BitVec.toNat h
    rw [hfieldNat] at h
    change field = 2047 at h
    omega
  unfold UnpackedFloat.unpack
  simp only [unpackExponent_packComponents, unpackMantissa_packComponents, unpackSign_packComponents,
    Sign.ofBitVec_toBitVec]
  rw [if_neg htop]
  by_cases hzero : field = 0
  · subst hzero
    have hmantissa : BitVec.ofNat 52 fraction ≠ 0#52 := fun h => by
      have h := congrArg BitVec.toNat h
      rw [hfractionNat] at h
      change fraction = 0 at h
      omega
    rw [if_pos rfl, dif_neg hmantissa]
    exact ⟨by omega, finite_congr s hfractionNat (by rfl) _ _⟩
  · have hfieldNe : BitVec.ofNat 11 field ≠ 0#11 := fun h => by
      have h := congrArg BitVec.toNat h
      rw [hfieldNat] at h
      exact hzero h
    rw [if_neg hfieldNe]
    have hnat : (1#1 ++ BitVec.ofNat 52 fraction).toNat = 2 ^ 52 + fraction := by
      rw [BitVec.toNat_append, hfractionNat, ← Nat.shiftLeft_add_eq_or_of_lt hfraction]
      rfl
    refine ⟨by simp [hzero], finite_congr s (by rw [hnat, if_neg hzero]) ?_ _ _⟩
    rw [hfieldNat, if_neg hzero]
    rfl

theorem unpack_pack_finite (s : Sign) {m : Nat} {e : Int} (h : Canonical m e) (he : e ≤ 971) :
    UnpackedFloat.unpack Format.binary64 (UnpackedFloat.pack Format.binary64 (.finite s m e h.pos)) =
      .finite s m e h.pos := by
  obtain ⟨hpos, hlt, hle, hfull⟩ := h
  have hbias : (Format.binary64.exponentBias : Int) = 1023 := rfl
  have hroom : ¬ 2 ^ 11 ≤ (e + 1023 + 52).toNat + 1 := by norm_num; omega
  unfold UnpackedFloat.pack
  dsimp only
  rw [hbias, if_neg (by exact hroom)]
  by_cases hnormal : m.log2 = 52
  · have hlow : 2 ^ 52 ≤ m := by
      have hself := Nat.log2_self_le (n := m) (by omega)
      rwa [hnormal] at hself
    rw [if_pos (by rw [hnormal]; rfl)]
    have hmod : BitVec.ofNat 52 m = BitVec.ofNat 52 (m - 2 ^ 52) := by
      apply BitVec.eq_of_toNat_eq
      simp only [BitVec.toNat_ofNat]
      omega
    obtain ⟨hp, hunpack⟩ := unpack_components s (e + 1023 + 52).toNat (m - 2 ^ 52) (by omega) (by omega)
      (Or.inl (by omega))
    rw [← hmod] at hunpack
    refine hunpack.trans (finite_congr s ?_ ?_ _ _)
    · rw [if_neg (by omega)]
      omega
    · rw [if_neg (by omega)]
      omega
  · have hsmall : m.log2 < 53 := (Nat.log2_lt (by omega)).mpr hlt
    have hlog : m.log2 < 52 := by omega
    have hmantissa : m < 2 ^ 52 := (Nat.log2_lt (by omega)).mp hlog
    obtain rfl : e = -1074 := hfull.resolve_left hnormal
    rw [if_neg (by change ¬ m.log2 + 1 = 53; omega)]
    obtain ⟨hp, hunpack⟩ := unpack_components s 0 m (by omega) hmantissa (Or.inr hpos)
    exact hunpack.trans (finite_congr s (by rw [if_pos rfl]) (by rfl) _ _)

/-- What has been unpacked is canonical, and its exponent is one that can be packed. -/
theorem canonical_of_unpack {b : BitVec Format.binary64.numBits} {s : Sign} {m : Nat} {e : Int} {hm : 0 < m}
    (h : UnpackedFloat.unpack Format.binary64 b = .finite s m e hm) : Canonical m e ∧ e ≤ 971 := by
  have hmantissa : (unpackMantissa b).toNat < 2 ^ 52 := (unpackMantissa b).isLt
  have hfield : (unpackExponent b).toNat < 2 ^ 11 := (unpackExponent b).isLt
  unfold UnpackedFloat.unpack at h
  dsimp only at h
  split at h
  · split at h <;> cases h
  · next htop =>
    have hbelow : (unpackExponent b).toNat ≠ 2047 := fun h => htop (BitVec.eq_of_toNat_eq h)
    split at h
    · next hzero =>
      split at h
      · cases h
      · have he : ((unpackExponent b).toNat : Int) - (1023 + 52) + 1 = -1074 := by
          rw [hzero]
          rfl
        cases h
        exact ⟨⟨hm, by omega, he.ge, Or.inr he⟩, he.le.trans (by norm_num)⟩
    · next hzero =>
      have hnat : (1#1 ++ unpackMantissa b).toNat = 2 ^ 52 + (unpackMantissa b).toNat := by
        rw [BitVec.toNat_append, ← Nat.shiftLeft_add_eq_or_of_lt hmantissa]
        rfl
      have hexponent : (unpackExponent b).toNat ≠ 0 := fun h => hzero (BitVec.eq_of_toNat_eq h)
      cases h
      have hle : -1074 ≤ ((unpackExponent b).toNat : Int) - (1023 + 52) := by omega
      have hge : ((unpackExponent b).toNat : Int) - (1023 + 52) ≤ 971 := by omega
      refine ⟨⟨hm, by omega, hle, Or.inl ?_⟩, hge⟩
      rw [hnat]
      exact (Nat.log2_eq_iff (by omega)).mpr ⟨by omega, by omega⟩

theorem unpack_packedInfinity (s : Sign) :
    UnpackedFloat.unpack Format.binary64 (packedInfinity Format.binary64 s) = .infinity s := by
  cases s <;> rfl

theorem pack_overflow (s : Sign) {m : Nat} {e : Int} (hm : 0 < m) (he : 971 < e) :
    UnpackedFloat.pack Format.binary64 (.finite s m e hm) = packedInfinity Format.binary64 s := by
  have hbias : (Format.binary64.exponentBias : Int) = 1023 := rfl
  have hover : 2 ^ 11 ≤ (e + 1023 + 52).toNat + 1 := by
    norm_num
    omega
  unfold UnpackedFloat.pack
  dsimp only
  rw [hbias]
  exact if_pos hover

theorem unpack_ofModel_pack (u : UnpackedFloat) :
    (Float.ofModel (Float.Model.pack u)).toModel.unpack =
      UnpackedFloat.unpack Format.binary64 (UnpackedFloat.pack Format.binary64 u) := by
  simp only [Float.Model.unpack, Float.Model.pack, UInt64.toBitVec_ofBitVec]

/-! ## Rounding -/

theorem shift_exact (m k : Nat) :
    (⟨2 ^ k * m, false, false⟩ : ExtendedMantissa) >>> k = ⟨m, false, false⟩ := by
  induction k generalizing m with
  | zero => simp [HShiftRight.hShiftRight, Nat.repeat]
  | succ k ih =>
    change ((⟨2 ^ (k + 1) * m, false, false⟩ : ExtendedMantissa) >>> k).shiftRightOne = _
    rw [Nat.pow_succ, Nat.mul_assoc, ih (2 * m)]
    simp [ExtendedMantissa.shiftRightOne]

theorem shift_stay {m : Nat} {e : Int} (h : Canonical m e) (acc : Accuracy) :
    shiftToTargetExponent Format.binary64 m e acc = (ExtendedMantissa.ofMantissaAndAccuracy m acc, e) := by
  obtain ⟨hpos, hlt, hle, hfull⟩ := h
  have hsmall : m.log2 < 53 := (Nat.log2_lt (by omega)).mpr hlt
  have htarget : Format.binary64.targetExponent (totalExponent m e) = e := by
    simp only [Format.targetExponent, totalExponent, Format.mantissaBits, Format.minExponent]
    omega
  simp only [shiftToTargetExponent, htarget, shiftToExponent, sub_self]
  congr 1
  simp

/-- A mantissa of one bit too many is a power of two, which the next exponent takes up. -/
theorem shift_carry {e : Int} (he : -1074 ≤ e) :
    shiftToTargetExponent Format.binary64 (2 ^ 53) e .exact = (⟨2 ^ 52, false, false⟩, e + 1) := by
  have htarget : Format.binary64.targetExponent (totalExponent (2 ^ 53) e) = e + 1 := by
    simp only [Format.targetExponent, totalExponent, Format.mantissaBits, Format.minExponent, Nat.log2_two_pow]
    omega
  simp only [shiftToTargetExponent, htarget, shiftToExponent, ExtendedMantissa.ofMantissaAndAccuracy,
    show (e + 1 - e).toNat = 1 by omega]
  have hshift := shift_exact (2 ^ 52) 1
  congr 1

theorem roundedMantissa_eq (m : Nat) (acc : Accuracy) :
    (ExtendedMantissa.ofMantissaAndAccuracy m acc).roundedMantissa = acc.roundToNearestEven m := by
  cases acc with
  | exact => rfl
  | inexact o => cases o <;> rfl

theorem le_roundToNearestEven (m : Nat) (acc : Accuracy) :
    m ≤ acc.roundToNearestEven m ∧ acc.roundToNearestEven m ≤ m + 1 := by
  cases acc with
  | exact => simp [Accuracy.roundToNearestEven]
  | inexact o =>
    cases o <;> simp only [Accuracy.roundToNearestEven] <;> omega

theorem Canonical.of_ge {m m' : Nat} {e : Int} (h : Canonical m e) (hle : m ≤ m') (hlt : m' < 2 ^ 53) :
    Canonical m' e := by
  refine ⟨Nat.lt_of_lt_of_le h.pos hle, hlt, h.le, h.full.imp_left fun hlog => ?_⟩
  have hne : m ≠ 0 := Nat.ne_of_gt h.pos
  have hlow := (Nat.log2_eq_iff hne).mp hlog
  exact (Nat.log2_eq_iff (by omega)).mpr ⟨by omega, by omega⟩

theorem canonical_carry {e : Int} (he : -1074 ≤ e) : Canonical (2 ^ 52) (e + 1) :=
  ⟨by norm_num, by norm_num, by omega, Or.inl Nat.log2_two_pow⟩

/-- Rounding keeps the exponent unless it rounds up to a power of two. -/
theorem round_canonical (s : Sign) {m : Nat} {e : Int} (h : Canonical m e) (acc : Accuracy) :
    ∃ m' e' h', roundWithAccuracy Format.binary64 s m e acc = .finite s m' e' h' ∧ Canonical m' e' ∧
      ((e' = e ∧ m ≤ m') ∨ (e' = e + 1 ∧ m + 1 = 2 ^ 53)) := by
  obtain ⟨hge, hle⟩ := le_roundToNearestEven m acc
  unfold roundWithAccuracy
  simp only [shift_stay h, roundedMantissa_eq]
  have hlt := h.lt
  by_cases hfits : acc.roundToNearestEven m < 2 ^ 53
  · have hround := h.of_ge hge hfits
    simp only [shift_stay hround, ExtendedMantissa.ofMantissaAndAccuracy]
    exact ⟨_, e, hround.pos, dif_neg (Nat.ne_of_gt hround.pos), hround, Or.inl ⟨rfl, hge⟩⟩
  · have htop : acc.roundToNearestEven m = 2 ^ 53 := by omega
    have hcarry := canonical_carry h.le
    simp only [htop, shift_carry h.le]
    exact ⟨_, e + 1, hcarry.pos, dif_neg (by norm_num), hcarry, Or.inr ⟨rfl, by omega⟩⟩

theorem round_carry (s : Sign) {e : Int} (he : -1074 ≤ e) :
    roundWithAccuracy Format.binary64 s (2 ^ 53) e .exact = .finite s (2 ^ 52) (e + 1) (canonical_carry he).pos := by
  have hcarry := canonical_carry he
  have hround : ExtendedMantissa.roundedMantissa ⟨2 ^ 52, false, false⟩ = 2 ^ 52 := rfl
  unfold roundWithAccuracy
  simp only [shift_carry he, hround, shift_stay hcarry, ExtendedMantissa.ofMantissaAndAccuracy]
  exact dif_neg (by norm_num)

end Metrology.Decimal
