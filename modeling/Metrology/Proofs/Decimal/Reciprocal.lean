import Metrology.Proofs.Decimal.Rounding

/-! # Reciprocals

The quotient of one by a double has all the bits that it is rounded to, so it is rounded once. It is never
rounded to zero, and it overflows if the double is at most two to the power of -1024, as the smallest quarter
of the subnormal numbers is.
-/
namespace Metrology.Decimal

open Float.Model Float.Model.UnpackedFloat

def quotientExponent (m : Nat) (e : Int) : Int := max (-(m.log2 : Int) - e - 53) (-1074)

theorem divCore_one (m : Nat) {e : Int} (he : e ≤ 971) :
    divCore Format.binary64 (2 ^ 52) (-52) m e =
      (2 ^ (-e - quotientExponent m e).toNat / m, quotientExponent m e,
        accuracyOfFraction (2 ^ (-e - quotientExponent m e).toNat % m) m) := by
  have htarget : min (-52 - e) (Format.binary64.targetExponent (totalExponent (2 ^ 52) (-52) - totalExponent m e)) =
      quotientExponent m e := by
    simp only [Format.targetExponent, totalExponent, Format.mantissaBits, Format.minExponent, Nat.log2_two_pow,
      quotientExponent]
    omega
  have hshift : 2 ^ 52 <<< (-52 - e - quotientExponent m e).toNat = 2 ^ (-e - quotientExponent m e).toNat := by
    rw [Nat.shiftLeft_eq, ← Nat.pow_add]
    congr 1
    unfold quotientExponent
    omega
  simp only [divCore, htarget, hshift]

theorem quotient_between {m l : Nat} (hlow : 2 ^ l < m) (hhigh : m < 2 ^ (l + 1)) :
    2 ^ 52 ≤ 2 ^ (l + 53) / m ∧ 2 ^ (l + 53) / m < 2 ^ 53 := by
  have hpos : 0 < m := by omega
  constructor
  · rw [Nat.le_div_iff_mul_le hpos]
    calc 2 ^ 52 * m ≤ 2 ^ 52 * 2 ^ (l + 1) := Nat.mul_le_mul_left _ (Nat.le_of_lt hhigh)
      _ = 2 ^ (l + 53) := by ring
  · rw [Nat.div_lt_iff_lt_mul hpos]
    calc 2 ^ (l + 53) = 2 ^ 53 * 2 ^ l := by ring
      _ < 2 ^ 53 * m := (Nat.mul_lt_mul_left (by norm_num)).mpr hlow

/-- A quotient that rounds up to a power of two comes from a divisor just above one. -/
theorem quotient_not_top {m : Nat} (hlow : 2 ^ 50 < m) : 2 ^ (50 + 53) / m + 1 ≠ 2 ^ 53 := by
  intro htop
  have hmul := Nat.div_mul_le_self (2 ^ (50 + 53)) m
  have hquotient : 2 ^ (50 + 53) / m = 2 ^ 53 - 1 := by omega
  rw [hquotient] at hmul
  omega

/-- The reciprocal of a number does not overflow exactly if the number is larger than `2 ^ -1024`. -/
theorem one_div_finite (s : Sign) {m : Nat} {e : Int} (h : Canonical m e) (he : e ≤ 971) :
    ∃ m' e' h', UnpackedFloat.div Format.binary64 (.finite .positive (2 ^ 52) (-52) (by decide)) (.finite s m e h.pos) =
      .finite (.positive / s) m' e' h' ∧ Canonical m' e' ∧ (e' ≤ 971 ↔ -1074 < e ∨ 2 ^ 50 < m) := by
  simp only [UnpackedFloat.div, divCore_one m he]
  obtain ⟨hpos, hlt, hle, hfull⟩ := h
  have hne : m ≠ 0 := Nat.ne_of_gt hpos
  have hlow : 2 ^ m.log2 ≤ m := Nat.log2_self_le hne
  have hhigh : m < 2 ^ (m.log2 + 1) := Nat.lt_log2_self
  have hsmall : m.log2 < 53 := (Nat.log2_lt hne).mpr hlt
  have hexponent : quotientExponent m e = max (-(m.log2 : Int) - e - 53) (-1074) := rfl
  generalize m.log2 = l at *
  by_cases hregime : -1074 ≤ -(l : Int) - e - 53
  · have hT : quotientExponent m e = -(l : Int) - e - 53 := by omega
    have hk : (-e - quotientExponent m e).toNat = l + 53 := by omega
    rw [hk, hT]
    rcases Nat.eq_or_lt_of_le hlow with hpower | hbetween
    · subst hpower
      have hquotient : 2 ^ (l + 53) / 2 ^ l = 2 ^ 53 := by
        rw [Nat.pow_add, Nat.mul_div_cancel_left _ (Nat.two_pow_pos l)]
      have hrest : 2 ^ (l + 53) % 2 ^ l = 0 := by rw [Nat.pow_add, Nat.mul_mod_right]
      rw [hquotient, hrest]
      have hfits := canonical_carry hregime
      refine ⟨_, _, hfits.pos, round_carry _ hregime, hfits, ?_⟩
      rw [Nat.pow_lt_pow_iff_right (by norm_num)]
      omega
    · obtain ⟨hfrom, hto⟩ := quotient_between hbetween hhigh
      have hq : Canonical (2 ^ (l + 53) / m) (-(l : Int) - e - 53) :=
        ⟨by omega, hto, hregime, Or.inl ((Nat.log2_eq_iff (by omega)).mpr ⟨hfrom, hto⟩)⟩
      obtain ⟨m', e', h', hround, hcanonical, hexact⟩ :=
        round_canonical (.positive / s) hq (accuracyOfFraction (2 ^ (l + 53) % m) m)
      refine ⟨m', e', h', hround, hcanonical, ?_⟩
      rcases hfull with rfl | rfl
      · omega
      · rcases Nat.lt_trichotomy l 50 with hl | rfl | hl
        · have hm : 2 ^ (l + 1) ≤ 2 ^ 50 := Nat.pow_le_pow_right (by norm_num) hl
          omega
        · have htop := quotient_not_top hbetween
          omega
        · have hm : 2 ^ 51 ≤ 2 ^ l := Nat.pow_le_pow_right (by norm_num) hl
          omega
  · have hT : quotientExponent m e = -1074 := by omega
    obtain rfl : l = 52 := by omega
    have hk : (-e - quotientExponent m e).toNat = 103 ∨ (-e - quotientExponent m e).toNat = 104 := by omega
    have hq : Canonical (2 ^ (-e - quotientExponent m e).toNat / m) (-1074) := by
      refine ⟨Nat.div_pos ?_ hpos, Nat.div_lt_of_lt_mul ?_, le_refl _, Or.inr rfl⟩
      · rcases hk with hk | hk <;> rw [hk] <;> omega
      · rcases hk with hk | hk <;> rw [hk] <;> omega
    rw [hT] at hq ⊢
    obtain ⟨m', e', h', hround, hcanonical, hexact⟩ := round_canonical (.positive / s) hq
      (accuracyOfFraction (2 ^ (-e - -1074).toNat % m) m)
    exact ⟨m', e', h', hround, hcanonical, by omega⟩

/-! ## Doubles -/

/-- A double that can be multiplied by without losing the other factor: neither zero nor infinite nor
undefined. -/
def Proper (x : Float) : Prop := x.isFinite = true ∧ (x == 0.0) = false

def leastDivisor : Float := Float.ofBits 0x4000000000000

theorem unpack_leastDivisor : leastDivisor.toModel.unpack = .finite .positive (2 ^ 50) (-1074) (by decide) := by rfl

theorem proper_iff {x : Float} : Proper x ↔ ∃ s m e h, x.toModel.unpack = .finite s m e h := by
  have hfinite : x.isFinite = x.toModel.unpack.isFinite := rfl
  have hzero : (x == 0.0) = x.toModel.unpack.beq (.zero .positive) := rfl
  rw [Proper, hfinite, hzero]
  cases x.toModel.unpack with
  | notANumber => simp [UnpackedFloat.isFinite]
  | infinity s => simp [UnpackedFloat.isFinite]
  | zero s => cases s <;> simp [UnpackedFloat.isFinite, UnpackedFloat.beq, UnpackedFloat.compare]
  | finite s m e h => cases s <;> simp [UnpackedFloat.isFinite, UnpackedFloat.beq, UnpackedFloat.compare, h]

theorem lt_abs_iff (y x : Float) : y < x.abs ↔ y.toModel.unpack.lt
    (UnpackedFloat.unpack Format.binary64 (UnpackedFloat.pack Format.binary64 x.toModel.unpack.abs)) = true := by
  rw [← unpack_ofModel_pack]
  exact decide_eq_true_iff

theorem leastDivisor_lt_abs_iff {x : Float} {s : Sign} {m : Nat} {e : Int} {h : 0 < m}
    (hx : x.toModel.unpack = .finite s m e h) : leastDivisor < x.abs ↔ -1074 < e ∨ 2 ^ 50 < m := by
  obtain ⟨hcanonical, he⟩ := canonical_of_unpack hx
  have hle := hcanonical.le
  rw [lt_abs_iff, unpack_leastDivisor, hx, UnpackedFloat.abs, unpack_pack_finite .positive hcanonical he]
  simp only [UnpackedFloat.lt, UnpackedFloat.compare, beq_iff_eq, Option.some.injEq, Ordering.then_eq_lt,
    Int.compare_eq_lt, Nat.compare_eq_lt, Int.compare_eq_eq]
  omega

/-- The reciprocal of a double can be divided by in turn unless the double is undefined, infinite or at most
`2 ^ -1024`. -/
theorem proper_one_div_iff {x : Float} : Proper (1.0 / x) ↔ x.isFinite = true ∧ leastDivisor < x.abs := by
  have hdiv : (1.0 / x).toModel.unpack = UnpackedFloat.unpack Format.binary64 (UnpackedFloat.pack Format.binary64
      (UnpackedFloat.div Format.binary64 (.finite .positive (2 ^ 52) (-52) (by decide)) x.toModel.unpack)) := by
    rw [← unpack_ofModel_pack]
    rfl
  have hfinite : x.isFinite = x.toModel.unpack.isFinite := rfl
  rw [proper_iff, hdiv, hfinite]
  cases hx : x.toModel.unpack with
  | notANumber => simp [UnpackedFloat.div, UnpackedFloat.isFinite, UnpackedFloat.pack]
  | infinity s => simp [UnpackedFloat.div, UnpackedFloat.isFinite, UnpackedFloat.pack]
  | zero s =>
    have hsmall : ¬ leastDivisor < x.abs := by
      rw [lt_abs_iff, unpack_leastDivisor, hx]
      simp [UnpackedFloat.abs, UnpackedFloat.pack, UnpackedFloat.lt, UnpackedFloat.compare]
    simp [UnpackedFloat.div, UnpackedFloat.pack, unpack_packedInfinity, hsmall]
  | finite s m e h =>
    obtain ⟨hcanonical, he⟩ := canonical_of_unpack hx
    obtain ⟨m', e', h', hquotient, hcanonical', hexponent⟩ := one_div_finite s hcanonical he
    rw [leastDivisor_lt_abs_iff hx, ← hexponent, hquotient]
    by_cases hfits : e' ≤ 971
    · rw [unpack_pack_finite _ hcanonical' hfits]
      simp [UnpackedFloat.isFinite, hfits, h']
    · rw [pack_overflow _ h' (by omega), unpack_packedInfinity]
      simp [hfits]

end Metrology.Decimal
