import Metrology.Decimal.Double
import Metrology.Proofs.Decimal.Rounding

/-! # What doubles denote

The bits of a double are read in two ways, field by field and by arithmetic, and both find the same number. A
finite double denotes a dyadic number with a mantissa below `2 ^ 53`.
-/
namespace Metrology.Decimal

open Float.Model Float.Model.UnpackedFloat

namespace Double

def ofSign : Sign → Bool
  | .positive => false
  | .negative => true

/-- What an unpacked number denotes; zero has the least exponent. -/
def ofUnpacked : UnpackedFloat → Double
  | .notANumber => .nan
  | .infinity s => .infinity (ofSign s)
  | .zero s => .finite (ofSign s) 0 (-1074)
  | .finite s m e _ => .finite (ofSign s) m e

def neg : Double → Double
  | .nan => .nan
  | .infinity negative => .infinity (!negative)
  | .finite negative m e => .finite (!negative) m e

theorem ofUnpacked_neg (u : UnpackedFloat) : ofUnpacked u.neg = (ofUnpacked u).neg := by
  have hsign (s : Sign) : ofSign (-s) = !ofSign s := by cases s <;> rfl
  cases u <;> simp only [UnpackedFloat.neg, ofUnpacked, neg, hsign]

theorem toNat_unpackMantissa (b : BitVec Format.binary64.numBits) :
    (unpackMantissa b).toNat = b.toNat % fractionCount := by
  simp [unpackMantissa, fractionCount]

theorem toNat_unpackExponent (b : BitVec Format.binary64.numBits) :
    (unpackExponent b).toNat = b.toNat / fractionCount % 2048 := by
  rw [unpackExponent, BitVec.toNat_cast, BitVec.extractLsb_toNat, Nat.shiftRight_eq_div_pow]
  rfl

theorem ofSign_unpackSign (b : BitVec Format.binary64.numBits) :
    ofSign (Sign.ofBitVec (unpackSign b)) = (b.toNat / (2048 * fractionCount) % 2 == 1) := by
  have hbit : (unpackSign b).toNat = b.toNat / (2048 * fractionCount) % 2 := by
    rw [unpackSign, BitVec.toNat_cast, BitVec.extractLsb_toNat, Nat.shiftRight_eq_div_pow]
    rfl
  rw [← hbit, Sign.ofBitVec]
  generalize unpackSign b = bit
  revert bit
  decide

theorem ofUnpacked_unpack (b : BitVec Format.binary64.numBits) :
    ofUnpacked (UnpackedFloat.unpack Format.binary64 b) = ofBits b.toNat := by
  have hmantissa := toNat_unpackMantissa b
  have hexponent := toNat_unpackExponent b
  have htop : unpackExponent b = -BitVec.ofNat Format.binary64.exponentBits 1 ↔
      b.toNat / fractionCount % 2048 = 2047 := by
    rw [← hexponent, ← BitVec.toNat_inj]
    rfl
  have hbottom : unpackExponent b = BitVec.ofNat Format.binary64.exponentBits 0 ↔
      b.toNat / fractionCount % 2048 = 0 := by
    rw [← hexponent, ← BitVec.toNat_inj]
    rfl
  have hempty : unpackMantissa b = BitVec.ofNat Format.binary64.mantissaBitsWithoutImplicit 0 ↔
      b.toNat % fractionCount = 0 := by
    rw [← hmantissa, ← BitVec.toNat_inj]
    rfl
  have hfull : (1#1 ++ unpackMantissa b).toNat = fractionCount + b.toNat % fractionCount := by
    rw [BitVec.toNat_append, ← Nat.shiftLeft_add_eq_or_of_lt (unpackMantissa b).isLt, hmantissa]
    rfl
  unfold UnpackedFloat.unpack ofBits
  simp only [htop, hbottom, hempty]
  split
  · split <;> simp only [ofUnpacked, ofSign_unpackSign]
  · split
    · next hzero =>
      split
      · next hnought => simp only [ofUnpacked, ofSign_unpackSign, hnought]
      · simp only [ofUnpacked, ofSign_unpackSign, hmantissa, hexponent, hzero]
        rfl
    · simp only [ofUnpacked, ofSign_unpackSign, hfull, hexponent]
      rfl

theorem unpack_pack {u : UnpackedFloat} (hu : ∀ s m e h, u = .finite s m e h → Canonical m e ∧ e ≤ 971) :
    UnpackedFloat.unpack Format.binary64 (UnpackedFloat.pack Format.binary64 u) = u := by
  cases u with
  | notANumber => rfl
  | infinity s => exact unpack_packedInfinity s
  | zero s => cases s <;> rfl
  | finite s m e h =>
    obtain ⟨hcanonical, he⟩ := hu s m e h rfl
    exact unpack_pack_finite s hcanonical he

theorem ofFloat_eq (x : Float) : ofFloat x = ofUnpacked x.toModel.unpack := (ofUnpacked_unpack _).symm

theorem ofFloat_ofBits (b : UInt64) : ofFloat (Float.ofBits b) = ofBits b.toNat := by
  have hunpack : (Float.ofBits b).toModel.unpack = UnpackedFloat.unpack Format.binary64 b.toBitVec := by
    refine Eq.trans (unpack_ofModel_pack _) (unpack_pack ?_)
    rintro s m e h hb
    exact canonical_of_unpack hb
  rw [ofFloat_eq, hunpack, ofUnpacked_unpack]
  rfl

theorem ofFloat_neg (x : Float) : ofFloat (-x) = (ofFloat x).neg := by
  have hunpack : (-x).toModel.unpack = x.toModel.unpack.neg := by
    refine Eq.trans (unpack_ofModel_pack _) (unpack_pack ?_)
    intro s m e h hneg
    cases hx : x.toModel.unpack with
    | notANumber => simp [hx, UnpackedFloat.neg] at hneg
    | infinity s => simp [hx, UnpackedFloat.neg] at hneg
    | zero s => simp [hx, UnpackedFloat.neg] at hneg
    | finite s m e h =>
      rw [hx] at hneg
      cases hneg
      exact canonical_of_unpack hx
  rw [ofFloat_eq, hunpack, ofUnpacked_neg, ofFloat_eq]

def dyadic? : Double → Option ℚ
  | .finite negative m e => some ((if negative then -1 else 1) * (m * 2 ^ e))
  | _ => none

theorem dyadic?_neg (d : Double) : d.neg.dyadic? = d.dyadic?.map fun r => -r := by
  cases d with
  | nan => rfl
  | infinity negative => rfl
  | finite negative m e => cases negative <;> simp [neg, dyadic?]

theorem bounds_of_ofBits {bits m : Nat} {e : Int} {negative : Bool} (h : ofBits bits = .finite negative m e) :
    m < 2 ^ 53 ∧ -1074 ≤ e := by
  have hfraction : bits % fractionCount < 2 ^ 52 := Nat.mod_lt _ (by decide)
  have hcount : fractionCount = 2 ^ 52 := by decide
  unfold ofBits at h
  dsimp only at h
  split at h
  · split at h <;> cases h
  · split at h
    · cases h
      omega
    · cases h
      omega

end Double

def dyadic? (x : Float) : Option ℚ := (Double.ofFloat x).dyadic?

theorem dyadic?_neg (x : Float) : dyadic? (-x) = (dyadic? x).map fun r => -r := by
  rw [dyadic?, Double.ofFloat_neg, Double.dyadic?_neg, dyadic?]

theorem ofFloat_of_isFinite {x : Float} (h : x.isFinite = true) :
    ∃ negative m e, Double.ofFloat x = .finite negative m e := by
  have hfinite : x.toModel.unpack.isFinite = true := h
  rw [Double.ofFloat_eq]
  cases hx : x.toModel.unpack with
  | notANumber => simp [hx, UnpackedFloat.isFinite] at hfinite
  | infinity s => simp [hx, UnpackedFloat.isFinite] at hfinite
  | zero s => exact ⟨_, _, _, rfl⟩
  | finite s m e hm => exact ⟨_, _, _, rfl⟩

/-- A double is the multiple of a power of two by an integer of 53 bits. -/
theorem exists_mantissa {x : Float} {r : ℚ} (h : dyadic? x = some r) :
    ∃ (m : Int) (e : Int), r = m * 2 ^ e ∧ m.natAbs < 2 ^ 53 ∧ -1074 ≤ e := by
  unfold dyadic? at h
  cases hx : Double.ofFloat x with
  | nan => simp [hx, Double.dyadic?] at h
  | infinity negative => simp [hx, Double.dyadic?] at h
  | finite negative m e =>
    obtain ⟨hm, he⟩ := Double.bounds_of_ofBits hx
    rw [hx] at h
    cases h
    refine ⟨(if negative then -1 else 1) * m, e, ?_, ?_, he⟩
    · cases negative <;> simp
    · cases negative <;> simpa using hm

end Metrology.Decimal
