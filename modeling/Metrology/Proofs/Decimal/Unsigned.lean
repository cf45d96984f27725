import Metrology.Proofs.Decimal.Reading

/-! # Doubles that are not below zero

The double nearest to a number that is not negative is not negative either, and it is defined, if only as
infinity. So a numeral without a sign has a value that is not below zero.
-/
namespace Metrology.Decimal

open Float.Model

def Unsigned (x : Float) : Prop := x.isNaN = false ∧ 0.0 ≤ x

/-- The one negative form that is not below zero is zero itself. -/
theorem unsigned_iff {x : Float} : Unsigned x ↔ Double.ofFloat x = .infinity false ∨
    ∃ negative m e, Double.ofFloat x = .finite negative m e ∧ (negative = true → m = 0) := by
  have hnan : x.isNaN = x.toModel.unpack.isNaN := rfl
  have hzero : (0.0 : Float).toModel.unpack = .zero .positive := by rfl
  have hle : 0.0 ≤ x ↔ (0.0 : Float).toModel.unpack.le x.toModel.unpack = true := decide_eq_true_iff
  rw [Unsigned, hnan, hle, hzero, Double.ofFloat_eq]
  cases x.toModel.unpack with
  | notANumber => simp [Double.ofUnpacked, UnpackedFloat.isNaN]
  | infinity s =>
    cases s <;>
      simp [Double.ofUnpacked, Double.ofSign, UnpackedFloat.isNaN, UnpackedFloat.le, UnpackedFloat.compare]
  | zero s =>
    cases s <;>
      simp [Double.ofUnpacked, Double.ofSign, UnpackedFloat.isNaN, UnpackedFloat.le, UnpackedFloat.compare]
  | finite s m e hm =>
    have hne : m ≠ 0 := by omega
    cases s <;>
      simp [Double.ofUnpacked, Double.ofSign, UnpackedFloat.isNaN, UnpackedFloat.le, UnpackedFloat.compare, hne]

theorem Nearest.unsigned {q : ℚ} {x : Float} (hq : 0 ≤ q) (h : Nearest q x) : Unsigned x := by
  rw [unsigned_iff]
  cases h with
  | @finite negative m e r hx hr _ closest =>
    refine Or.inr ⟨negative, m, e, hx, ?_⟩
    rintro rfl
    have hvalue : -(m * 2 ^ e : ℚ) = r := by simpa [dyadic?, hx, Double.dyadic?] using hr
    have hzero : dyadic? 0.0 = some 0 := by decide +kernel
    by_contra hne
    -- Zero would be nearer than any number on the other side of it.
    have hpos : (0 : ℚ) < m * 2 ^ e := by positivity
    have hfar : |q - 0| < |q - r| := by
      rw [sub_zero, abs_of_nonneg hq, ← hvalue, abs_of_nonneg (by linarith)]
      linarith
    rcases closest 0.0 0 hzero with hless | ⟨hsame, -⟩
    · exact absurd hfar hless.not_gt
    · exact absurd hfar hsame.not_gt
  | infinite hx =>
    left
    rw [hx, decide_eq_false hq.not_gt]

theorem Numeral.unsigned_value {n : Numeral} (h : n.negative = false) : Unsigned n.value := by
  have hnearest : ∀ num {den : Nat}, 0 < den → Unsigned (nearest false num den) := by
    intro num den hden
    exact (nearest_nonneg num hden).unsigned (by positivity)
  have hdown : 0 < powDown 10 n.scale := Nat.pow_pos (by decide)
  unfold value
  rw [h]
  dsimp only
  split
  · exact hnearest 0 (by decide)
  · split
    · exact hnearest _ (by decide)
    · exact hnearest _ hdown

theorem Numeral.not_negative_of_isDigit {c : Char} {more : List Char} {n : Numeral} (hc : c.isDigit = true)
    (h : Numeral.read? (c :: more) = some n) : n.negative = false := by
  have hspells := read?_eq_some_iff.mp h
  generalize hcs : c :: more = cs at hspells
  cases hspells with
  | parts hsign =>
    cases hsign with
    | absent => rfl
    | plus => rfl
    | minus =>
      obtain rfl : c = '-' := (List.cons.inj hcs).1
      cases hc

end Metrology.Decimal
