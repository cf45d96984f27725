import Metrology.Proofs.Decimal.Notation
import Metrology.Proofs.Decimal.Reading

/-! # The values of numerals

The value of a numeral is the double nearest to the decimal number that its digits and its exponent denote.
Numbers that are far outside the range of doubles are not written out: the small ones are nearer to zero than
to anything else, and the large ones lie where doubles end.
-/
namespace Metrology.Decimal

variable {q : ℚ} {x : Float}

/-- A double other than zero is not smaller than the least one. -/
theorem least_le_abs {y : Float} {s : ℚ} (hs : dyadic? y = some s) (hne : s ≠ 0) : (2 : ℚ) ^ (-1074 : Int) ≤ |s| := by
  obtain ⟨m, e, rfl, -, he⟩ := exists_mantissa hs
  have hm : m ≠ 0 := by
    rintro rfl
    simp at hne
  have hone : (1 : ℚ) ≤ |(m : ℚ)| := by exact_mod_cast Int.one_le_abs hm
  have hunit : (2 : ℚ) ^ (-1074 : Int) ≤ 2 ^ e := zpow_le_zpow_right₀ (by norm_num) he
  have hpositive : (0 : ℚ) < 2 ^ e := zpow_pos (by norm_num) e
  rw [abs_mul, abs_of_pos hpositive]
  calc (2 : ℚ) ^ (-1074 : Int) ≤ 1 * 2 ^ e := by rwa [one_mul]
    _ ≤ |(m : ℚ)| * 2 ^ e := by gcongr

/-- What is nearest to zero is nearest to all that is less than half the least double away. -/
theorem Nearest.of_small (h : Nearest 0 x) (hq : |q| < 2 ^ (-1075 : Int)) : Nearest q x := by
  have hhalf : (2 : ℚ) ^ (-1074 : Int) = 2 * 2 ^ (-1075 : Int) := by
    rw [← zpow_one_add₀ (by norm_num)]
    norm_num
  have hover : |q| < overflow := by
    refine hq.trans_le ?_
    rw [overflow_eq]
    have hsmall : (2 : ℚ) ^ (-1075 : Int) ≤ 2 ^ (971 : Int) := zpow_le_zpow_right₀ (by norm_num) (by norm_num)
    have hlarge : (0 : ℚ) < 2 ^ (971 : Int) := zpow_pos (by norm_num) _
    generalize (2 : ℚ) ^ (971 : Int) = unit at *
    linarith
  cases h with
  | @finite negative m e r hx hr _ closest =>
    have hzero : dyadic? 0.0 = some 0 := by decide +kernel
    obtain rfl : r = 0 := by
      rcases closest 0.0 0 hzero with hless | ⟨hsame, -⟩
      · simp only [zero_sub, abs_neg, sub_zero, abs_zero] at hless
        exact absurd hless (abs_nonneg r).not_gt
      · simpa using hsame
    refine .finite hx hr hover ?_
    intro y s hs
    by_cases hne : s = 0
    · exact Or.inr ⟨by rw [hne], Or.inl hne⟩
    · left
      have hleast := least_le_abs hs hne
      have htriangle := abs_sub_abs_le_abs_sub s q
      rw [abs_sub_comm] at htriangle
      rw [sub_zero]
      linarith
  | infinite _ hq =>
    rw [abs_zero] at hq
    exact absurd overflow_pos hq.not_gt

/-- What is nearest to a number beyond the range is nearest to all of them. -/
theorem Nearest.of_large {p : ℚ} (h : Nearest p x) (hp : overflow ≤ p) (hq : overflow ≤ q) : Nearest q x := by
  have hnonneg : 0 ≤ p := overflow_pos.le.trans hp
  cases h with
  | finite _ _ hless =>
    rw [abs_of_nonneg hnonneg] at hless
    exact absurd hp hless.not_ge
  | infinite hx _ =>
    refine .infinite ?_ (hq.trans (le_abs_self q))
    rw [hx, decide_eq_false hnonneg.not_gt, decide_eq_false (overflow_pos.le.trans hq).not_gt]

theorem overflow_le_two_pow {n : Nat} (hn : 1024 ≤ n) : overflow ≤ 2 ^ n := by
  have hless : overflow ≤ 2 ^ 1024 := sub_le_self _ (by positivity)
  exact hless.trans (pow_le_pow_right₀ (by norm_num) hn)

/-- Powers of ten that lie outside the range of doubles, on either side. -/
theorem ten_pow_400 : (10 : ℚ) ^ (-400 : Int) ≤ 2 ^ (-1075 : Int) ∧ overflow ≤ 10 ^ (400 : Int) := by
  have hnat : 2 ^ 1075 ≤ 10 ^ 400 := by decide +kernel
  have hcast : (2 : ℚ) ^ 1075 ≤ 10 ^ 400 := by exact_mod_cast hnat
  constructor
  · rw [zpow_neg, zpow_neg]
    exact inv_anti₀ (by positivity) (by exact_mod_cast hcast)
  · exact_mod_cast (overflow_le_two_pow (by norm_num)).trans hcast

theorem overflow_le_ten_pow {k : Nat} (h : 400 ≤ k) : overflow ≤ (Nat.pow 10 k : Nat) := by
  calc overflow ≤ (10 : ℚ) ^ (400 : Int) := ten_pow_400.2
    _ ≤ 10 ^ (k : Int) := zpow_le_zpow_right₀ (by norm_num) (by exact_mod_cast h)
    _ = (Nat.pow 10 k : Nat) := by rw [zpow_natCast, Nat.pow_eq, Nat.cast_pow, Nat.cast_ofNat]

theorem natOfDigits_lt {ds : List Nat} (h : ∀ d ∈ ds, d < 10) : natOfDigits ds < 10 ^ ds.length := by
  induction ds using List.reverseRecOn with
  | nil => simp [natOfDigits]
  | append_singleton ds d ih =>
    have hfront := ih fun d hd => h d (List.mem_append_left _ hd)
    have hlast := h d (by simp)
    rw [natOfDigits, List.foldl_append, List.length_append, List.length_singleton, pow_succ]
    change 10 * natOfDigits ds + d < _
    omega

namespace Numeral

theorem value_neg (digits : List Nat) (scale : Int) :
    (⟨true, digits, scale⟩ : Numeral).value = -(⟨false, digits, scale⟩ : Numeral).value := by
  simp only [value, nearest, if_true, Bool.false_eq_true, if_false]
  split
  · rfl
  · split <;> rfl

theorem nearest_value_unsigned {digits : List Nat} (h : ∀ d ∈ digits, d < 10) (scale : Int) :
    Nearest (natOfDigits digits * 10 ^ scale) (⟨false, digits, scale⟩ : Numeral).value := by
  have hten : (10 : ℚ) ≠ 0 := by norm_num
  have hpower : (0 : ℚ) < 10 ^ scale := zpow_pos (by norm_num) scale
  have hlt : (natOfDigits digits : ℚ) < 10 ^ digits.length := by exact_mod_cast natOfDigits_lt h
  unfold value
  dsimp only
  split
  · next hsmall =>
    have hzero : Nearest 0 (nearest false 0 1) := by simpa using nearest_nonneg 0 Nat.one_pos
    apply hzero.of_small
    rw [abs_of_nonneg (by positivity)]
    rcases hsmall with hm | hreach
    · rw [hm]
      simp
    · calc (natOfDigits digits : ℚ) * 10 ^ scale < 10 ^ digits.length * 10 ^ scale := by gcongr
        _ = 10 ^ ((digits.length : Int) + scale) := by rw [zpow_add₀ hten, zpow_natCast]
        _ ≤ 10 ^ (-400 : Int) := zpow_le_zpow_right₀ (by norm_num) (by omega)
        _ ≤ 2 ^ (-1075 : Int) := ten_pow_400.1
  · next hlarge =>
    obtain ⟨hm, -⟩ := not_or.mp hlarge
    split
    · next hreach =>
      have htop := nearest_nonneg (powUp 2 1100) Nat.one_pos
      refine htop.of_large ?_ (ten_pow_400.2.trans ?_)
      · rw [powUp, Nat.pow_eq, Nat.cast_pow, Nat.cast_ofNat, Nat.cast_one, div_one]
        exact overflow_le_two_pow (by omega)
      · have hone : (1 : ℚ) ≤ natOfDigits digits := by exact_mod_cast Nat.one_le_iff_ne_zero.mpr hm
        calc (10 : ℚ) ^ (400 : Int) ≤ 10 ^ scale := zpow_le_zpow_right₀ (by norm_num) (by omega)
          _ ≤ natOfDigits digits * 10 ^ scale := le_mul_of_one_le_left hpower.le hone
    · have hdown : 0 < powDown 10 scale := Nat.pow_pos (by norm_num)
      have hvalue : (natOfDigits digits : ℚ) * 10 ^ scale =
          ((natOfDigits digits * powUp 10 scale : Nat) : ℚ) / (powDown 10 scale : Nat) := by
        have hpositive : 0 < (powDown 10 scale : ℚ) := powDown_pos (by norm_num) _
        rw [Nat.cast_mul, powUp_eq (by norm_num)]
        push_cast
        field_simp
      rw [hvalue]
      exact nearest_nonneg _ hdown

/-- The value of a numeral is the double nearest to the number that it denotes. -/
theorem nearest_value {n : Numeral} (h : ∀ d ∈ n.digits, d < 10) : Nearest n.rational n.value := by
  obtain ⟨negative, digits, scale⟩ := n
  have hmagnitude := nearest_value_unsigned h scale
  cases negative with
  | false => simpa [rational] using hmagnitude
  | true => simpa [rational, value_neg] using hmagnitude.neg

theorem Spells.lt_ten {n : Numeral} {cs : List Char} (h : n.Spells cs) : ∀ d ∈ n.digits, d < 10 := by
  obtain ⟨-, hmantissa, -⟩ := h
  cases hmantissa with
  | whole _ hwhole =>
    rw [List.append_nil]
    exact Spelled.lt_ten hwhole
  | pointed _ hwhole hfraction => exact List.forall_mem_append.mpr ⟨Spelled.lt_ten hwhole, Spelled.lt_ten hfraction⟩

end Numeral

theorem isFinite_of_ofFloat {negative : Bool} {m : Nat} {e : Int} (h : Double.ofFloat x = .finite negative m e) :
    x.isFinite = true := by
  have hfinite : x.isFinite = x.toModel.unpack.isFinite := rfl
  rw [Double.ofFloat_eq] at h
  rw [hfinite]
  cases hx : x.toModel.unpack with
  | notANumber =>
    rw [hx] at h
    cases h
  | infinity s =>
    rw [hx] at h
    cases h
  | zero s => rfl
  | finite s m e hm => rfl

/-- An integer has a nearest double unless it lies beyond the largest one by half a unit or more. -/
theorem ofInt?_eq_none_iff {n : Int} : ofInt? n = none ↔ overflow ≤ |(n : ℚ)| := by
  have hmade : nearest (n < 0) n.natAbs 1 = ofRat n := rfl
  unfold ofInt?
  rw [hmade]
  cases nearest_ofRat n with
  | finite hx _ hq => simp [isFinite_of_ofFloat hx, hq]
  | infinite hx hq =>
    have hinfinite : (ofRat n).isFinite = false := by
      cases hfinite : (ofRat n).isFinite with
      | false => rfl
      | true =>
        obtain ⟨negative, m, e, hfinite⟩ := ofFloat_of_isFinite hfinite
        rw [hx] at hfinite
        cases hfinite
    simp [hinfinite, hq]

theorem ofInt?_eq {n : Int} (h : |(n : ℚ)| < overflow) : ofInt? n = some (ofRat n) := by
  have hmade : ofInt? n = if (ofRat n).isFinite then some (ofRat n) else none := rfl
  rw [hmade]
  split
  · rfl
  · next hinfinite =>
    rw [if_neg hinfinite, ofInt?_eq_none_iff] at hmade
    exact absurd h (not_lt.mpr hmade)

end Metrology.Decimal
