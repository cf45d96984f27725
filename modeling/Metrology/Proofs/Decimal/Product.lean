import Metrology.Proofs.Decimal.Rounding

/-! # Products with one

One has a mantissa of a single bit at the top, so multiplying by it shifts the other mantissa to the left,
rounding shifts it back, and packing restores the bits.
-/
namespace Metrology.Decimal

open Float.Model Float.Model.UnpackedFloat

theorem unpack_one : (1.0 : Float).toModel.unpack = .finite .positive (2 ^ 52) (-52) (by decide) := by
  rfl

theorem log2_two_pow_mul {m : Nat} (hm : m ≠ 0) (k : Nat) : (2 ^ k * m).log2 = k + m.log2 := by
  induction k with
  | zero => simp
  | succ k ih =>
    have hne : 2 ^ k * m ≠ 0 := Nat.mul_ne_zero (by simp) hm
    rw [Nat.pow_succ', Nat.mul_assoc, Nat.log2_two_mul hne, ih]
    omega

theorem round_exact (s : Sign) {m : Nat} {e : Int} (h : Canonical m e) :
    roundWithAccuracy Format.binary64 s (2 ^ 52 * m) (-52 + e) .exact = .finite s m e h.pos := by
  obtain ⟨hpos, hlt, hle, hfull⟩ := h
  have hlog : (2 ^ 52 * m).log2 = 52 + m.log2 := log2_two_pow_mul (Nat.ne_of_gt hpos) 52
  have hsmall : m.log2 < 53 := (Nat.log2_lt (Nat.ne_of_gt hpos)).mpr hlt
  have htarget : Format.binary64.targetExponent (totalExponent (2 ^ 52 * m) (-52 + e)) = e := by
    simp only [Format.targetExponent, totalExponent, hlog, Format.mantissaBits, Format.minExponent]
    omega
  have hshift : shiftToTargetExponent Format.binary64 (2 ^ 52 * m) (-52 + e) .exact = (⟨m, false, false⟩, e) := by
    simp only [shiftToTargetExponent, htarget, shiftToExponent, ExtendedMantissa.ofMantissaAndAccuracy,
      show (e - (-52 + e)).toNat = 52 by omega, shift_exact]
    congr 1
    omega
  have hround : ExtendedMantissa.roundedMantissa ⟨m, false, false⟩ = m := rfl
  unfold roundWithAccuracy
  simp only [hshift, hround, shift_stay ⟨hpos, hlt, hle, hfull⟩, ExtendedMantissa.ofMantissaAndAccuracy]
  exact dif_neg (Nat.ne_of_gt hpos)

theorem one_mul_unpack (b : BitVec Format.binary64.numBits) :
    UnpackedFloat.mul Format.binary64 (.finite .positive (2 ^ 52) (-52) (by decide))
      (UnpackedFloat.unpack Format.binary64 b) = UnpackedFloat.unpack Format.binary64 b := by
  have hsign (s : Sign) : Sign.positive * s = s := by cases s <;> rfl
  cases h : UnpackedFloat.unpack Format.binary64 b with
  | notANumber => rfl
  | infinity s => simp only [UnpackedFloat.mul, hsign]
  | zero s => simp only [UnpackedFloat.mul, hsign]
  | finite s m e hm =>
    rw [UnpackedFloat.mul, hsign, round_exact s (canonical_of_unpack h).1]

theorem one_mul_double (x : Float) : 1.0 * x = x := by
  obtain ⟨bits, hvalid⟩ := x
  have hmodel : (1.0 : Float).toModel.mul ⟨bits, hvalid⟩ = ⟨bits, hvalid⟩ := by
    rw [Float.Model.mul, unpack_one, Float.Model.unpack, one_mul_unpack]
    simp only [Float.Model.pack, pack_unpack_of_valid hvalid, UInt64.ofBitVec_toBitVec]
  exact congrArg Float.ofModel hmodel

theorem unpacked_mul_comm (u v : UnpackedFloat) :
    UnpackedFloat.mul Format.binary64 u v = UnpackedFloat.mul Format.binary64 v u := by
  have hsign (s t : Sign) : s * t = t * s := by cases s <;> cases t <;> rfl
  cases u <;> cases v <;> simp only [UnpackedFloat.mul, hsign]
  rw [Nat.mul_comm, Int.add_comm, hsign]

theorem mul_comm_double (x y : Float) : x * y = y * x := by
  have hmodel : x.toModel.mul y.toModel = y.toModel.mul x.toModel := by
    rw [Float.Model.mul, Float.Model.mul, unpacked_mul_comm]
  exact congrArg Float.ofModel hmodel

theorem mul_one_double (x : Float) : x * 1.0 = x := by
  rw [mul_comm_double, one_mul_double]

theorem eq_of_unpack_eq {x y : Float} (h : x.toModel.unpack = y.toModel.unpack) : x = y := by
  obtain ⟨bits, hvalid⟩ := x
  obtain ⟨bits', hvalid'⟩ := y
  have hpack : bits.toBitVec = bits'.toBitVec := by
    rw [← pack_unpack_of_valid hvalid, ← pack_unpack_of_valid hvalid']
    exact congrArg _ h
  obtain rfl : bits = bits' := UInt64.toBitVec_inj.mp hpack
  rfl

/-- One has a single representation, so a double that does not differ from it is it. -/
theorem beq_one_iff {x : Float} : (x == 1.0) = true ↔ x = 1.0 := by
  constructor
  · intro h
    have hcompare : x.toModel.unpack.compare (.finite .positive (2 ^ 52) (-52) (by decide)) = some .eq := by
      rw [← unpack_one]
      exact beq_iff_eq.mp h
    apply eq_of_unpack_eq
    rw [unpack_one]
    cases hx : x.toModel.unpack with
    | notANumber => simp [hx, UnpackedFloat.compare] at hcompare
    | infinity s => cases s <;> simp [hx, UnpackedFloat.compare] at hcompare
    | zero s => cases s <;> simp [hx, UnpackedFloat.compare] at hcompare
    | finite s m e hm =>
      cases s with
      | negative => simp [hx, UnpackedFloat.compare] at hcompare
      | positive =>
        simp only [hx, UnpackedFloat.compare, Option.some.injEq, Ordering.then_eq_eq, Int.compare_eq_eq,
          Nat.compare_eq_eq] at hcompare
        exact finite_congr _ hcompare.2 hcompare.1 _ _
  · rintro rfl
    rfl

end Metrology.Decimal
