import Metrology.Proofs.Decimal.Reading
import Metrology.Proofs.Decimal.Rounding

/-! # Shortest digits

The digits that a double is written with denote a number of its neighbourhood, between the halfway points to
the doubles next to it. Each grid is searched at the two multiples around the double. Seventeen digits make a
grid that is finer than the neighbourhood is wide, so one of the two is in it at the latest then.
-/
namespace Metrology.Decimal

/-! ## Digits -/

theorem lt_pow_digitCount (n : Nat) : n < 10 ^ digitCount n :=
  (Nat.length_toDigits_le_iff (by norm_num) Nat.length_toDigits_pos).mp le_rfl

theorem pow_digitCount_le {n : Nat} (hn : 0 < n) : 10 ^ (digitCount n - 1) ≤ n := by
  have hpos : 0 < digitCount n := Nat.length_toDigits_pos
  rcases Nat.eq_or_lt_of_le (Nat.one_le_of_lt hpos) with hone | hmore
  · rw [← hone]
    simpa using Nat.succ_le_of_lt hn
  · by_contra hlt
    have hshort : digitCount n ≤ digitCount n - 1 :=
      (Nat.length_toDigits_le_iff (by norm_num) (by omega)).mpr (not_le.mp hlt)
    omega

/-- A positive quotient has its first digit at the floor of its logarithm, or before it. -/
theorem pow_floorLog10_le {num den : Nat} (hnum : 0 < num) (hden : 0 < den) :
    (10 : ℚ) ^ floorLog10 num den ≤ (num : ℚ) / den := by
  have hpos : (0 : ℚ) < den := by exact_mod_cast hden
  unfold floorLog10
  split
  · next hle =>
    have hcount : 0 < digitCount (num / den) := Nat.length_toDigits_pos
    have hexponent : (digitCount (num / den) : Int) - 1 = ((digitCount (num / den) - 1 : Nat) : Int) := by omega
    have hpow : 10 ^ (digitCount (num / den) - 1) ≤ num / den := pow_digitCount_le (Nat.div_pos hle hden)
    rw [hexponent, zpow_natCast, le_div_iff₀ hpos]
    exact_mod_cast (Nat.mul_le_mul_right den hpow).trans (Nat.div_mul_le_self num den)
  · next hlt =>
    have hpow := lt_pow_digitCount ((den - 1) / num)
    have hmul : den ≤ num * 10 ^ digitCount ((den - 1) / num) := by
      have hless := (Nat.div_lt_iff_lt_mul hnum).mp hpow
      rw [mul_comm]
      omega
    rw [zpow_neg, zpow_natCast, inv_le_comm₀ (by positivity) (by positivity), inv_div,
      div_le_iff₀ (by exact_mod_cast hnum)]
    rw [mul_comm]
    exact_mod_cast hmul

theorem decimalValue_ofNat {n : Nat} (hn : 0 < n) (scale : Int) :
    Algebra.decimalValue (Digits.ofNat n scale) = n * 10 ^ scale := by
  have hvalue : Nat.ofDigitChars 10 (Nat.toDigits 10 n) 0 = n := Nat.ofDigitChars_ten_toDigits
  have hnonempty := (written_ofNat hn scale).nonempty
  obtain ⟨kept, zeros, hsplit, hkept⟩ : ∃ kept zeros, Nat.toDigits 10 n = kept ++ List.replicate zeros '0' ∧
      (Digits.ofNat n scale).digits = kept := by
    refine ⟨_, ((Nat.toDigits 10 n).reverse.takeWhile fun c => c == '0').length, ?_, rfl⟩
    have hzeros : (Nat.toDigits 10 n).reverse.takeWhile (fun c => c == '0') =
        List.replicate ((Nat.toDigits 10 n).reverse.takeWhile fun c => c == '0').length '0' := by
      apply List.eq_replicate_iff.mpr
      refine ⟨rfl, fun c hc => ?_⟩
      simpa using List.mem_takeWhile_imp hc
    have happend := congrArg List.reverse (List.takeWhile_append_dropWhile (p := fun c => c == '0')
      (l := (Nat.toDigits 10 n).reverse))
    rw [List.reverse_append, List.reverse_reverse] at happend
    rw [← List.reverse_replicate, ← hzeros]
    exact happend.symm
  have hpoint : (Digits.ofNat n scale).point = scale + (Nat.toDigits 10 n).length - 1 := rfl
  have hlength : 0 < kept.length := by
    rw [← hkept]
    exact List.length_pos_iff.mpr hnonempty
  rw [decimalValue_eq, hkept, hpoint, hsplit]
  rw [hsplit, Nat.ofDigitChars_append, ofDigitChars_zeros] at hvalue
  have hexponent : scale + ((kept ++ List.replicate zeros '0').length : Int) - 1 - (kept.length - 1 : Nat) =
      zeros + scale := by
    rw [List.length_append, List.length_replicate]
    omega
  rw [hexponent, zpow_add₀ (by norm_num), zpow_natCast, ← mul_assoc]
  congr 1
  exact_mod_cast hvalue

/-! ## Numbers that are read as one double -/

/-- A number of quarters of a place is compared with a multiple of a power of ten in natural numbers. -/
theorem grid_le_iff (a c : Nat) (u s : Int) :
    (a * (powUp 2 u * powDown 10 s) ≤ c * (powDown 2 u * powUp 10 s) ↔ (a : ℚ) * 2 ^ u ≤ c * 10 ^ s) ∧
      (c * (powDown 2 u * powUp 10 s) ≤ a * (powUp 2 u * powDown 10 s) ↔ (c : ℚ) * 10 ^ s ≤ a * 2 ^ u) := by
  have hfactor : (0 : ℚ) < powDown 2 u * powDown 10 s :=
    mul_pos (powDown_pos two_ne_zero _) (powDown_pos (by norm_num) _)
  have hquarters : ((a * (powUp 2 u * powDown 10 s) : Nat) : ℚ) = a * 2 ^ u * (powDown 2 u * powDown 10 s) := by
    rw [Nat.cast_mul, Nat.cast_mul, powUp_eq two_ne_zero]
    push_cast
    ring
  have htens : ((c * (powDown 2 u * powUp 10 s) : Nat) : ℚ) = c * 10 ^ s * (powDown 2 u * powDown 10 s) := by
    rw [Nat.cast_mul, Nat.cast_mul, powUp_eq (by norm_num : 10 ≠ 0)]
    push_cast
    ring
  constructor
  · rw [← Nat.cast_le (α := ℚ), hquarters, htens, mul_le_mul_iff_left₀ hfactor]
  · rw [← Nat.cast_le (α := ℚ), hquarters, htens, mul_le_mul_iff_left₀ hfactor]

namespace Neighbourhood

variable {b : Neighbourhood} {q : ℚ} {scale : Int} {n : Nat}

structure Holds (b : Neighbourhood) (q : ℚ) : Prop where
  low : b.low * 2 ^ b.unit ≤ q
  high : q ≤ b.high * 2 ^ b.unit
  inside : b.closed = false → b.low * 2 ^ b.unit < q ∧ q < b.high * 2 ^ b.unit

theorem Holds.of_lt (hlow : b.low * 2 ^ b.unit < q) (hhigh : q < b.high * 2 ^ b.unit) : b.Holds q :=
  ⟨hlow.le, hhigh.le, fun _ => ⟨hlow, hhigh⟩⟩

theorem Holds.le_low (h : ¬ b.Holds q) (hq : q < b.high * 2 ^ b.unit) : q ≤ b.low * 2 ^ b.unit := by
  by_contra hlow
  exact h (.of_lt (not_le.mp hlow) hq)

theorem Holds.high_le (h : ¬ b.Holds q) (hq : b.low * 2 ^ b.unit < q) : b.high * 2 ^ b.unit ≤ q := by
  by_contra hhigh
  exact h (.of_lt hq (not_le.mp hhigh))

def num (b : Neighbourhood) (scale : Int) : Nat := powUp 2 b.unit * powDown 10 scale

def den (b : Neighbourhood) (scale : Int) : Nat := powDown 2 b.unit * powUp 10 scale

def reads (b : Neighbourhood) (scale : Int) (c : Nat) : Bool :=
  if b.closed then b.low * b.num scale ≤ c * b.den scale && c * b.den scale ≤ b.high * b.num scale
  else b.low * b.num scale < c * b.den scale && c * b.den scale < b.high * b.num scale

def below (b : Neighbourhood) (scale : Int) : Nat := b.value * b.num scale / b.den scale

theorem onGrid?_eq (b : Neighbourhood) (scale : Int) : b.onGrid? scale =
    match b.reads scale (b.below scale), b.reads scale (b.below scale + 1) with
    | false, false => none
    | true, false => some (b.below scale)
    | false, true => some (b.below scale + 1)
    | true, true => some (roundDiv (b.value * b.num scale) (b.den scale)) := rfl

theorem reads_iff {c : Nat} : b.reads scale c = true ↔ b.Holds (c * 10 ^ scale) := by
  have hlow := (grid_le_iff b.low c b.unit scale).1
  have hlow' := (grid_le_iff b.low c b.unit scale).2
  have hhigh := (grid_le_iff b.high c b.unit scale).2
  have hhigh' := (grid_le_iff b.high c b.unit scale).1
  unfold reads num den
  cases hclosed : b.closed with
  | true =>
    simp only [if_true, Bool.and_eq_true, decide_eq_true_eq, hlow, hhigh]
    exact ⟨fun h => ⟨h.1, h.2, by simp [hclosed]⟩, fun h => ⟨h.low, h.high⟩⟩
  | false =>
    simp only [Bool.false_eq_true, if_false, Bool.and_eq_true, decide_eq_true_eq, ← not_le, hlow', hhigh']
    exact ⟨fun h => .of_lt (not_le.mp h.1) (not_le.mp h.2), fun h => by simpa using h.inside hclosed⟩

theorem below_le (b : Neighbourhood) (scale : Int) : (b.below scale : ℚ) * 10 ^ scale ≤ b.value * 2 ^ b.unit :=
  (grid_le_iff _ _ _ _).2.mp (Nat.div_mul_le_self _ _)

theorem lt_below_succ (b : Neighbourhood) (scale : Int) :
    b.value * 2 ^ b.unit < ((b.below scale + 1 : Nat) : ℚ) * 10 ^ scale := by
  have hden : 0 < b.den scale := Nat.mul_pos (Nat.pow_pos (by norm_num)) (Nat.pow_pos (by norm_num))
  have hless : b.value * b.num scale < (b.below scale + 1) * b.den scale :=
    (Nat.div_lt_iff_lt_mul hden).mp (Nat.lt_succ_self _)
  have hgrid := (grid_le_iff b.value (b.below scale + 1) b.unit scale).2
  rw [← not_le, ← hgrid, not_le]
  exact hless

theorem holds_of_onGrid? (h : b.onGrid? scale = some n) : b.Holds (n * 10 ^ scale) := by
  rw [onGrid?_eq] at h
  split at h
  · cases h
  · next hbelow _ =>
    cases h
    exact reads_iff.mp hbelow
  · next hnext =>
    cases h
    exact reads_iff.mp hnext
  · next hbelow hnext =>
    cases h
    have hround : roundDiv (b.value * b.num scale) (b.den scale) = b.below scale ∨
        roundDiv (b.value * b.num scale) (b.den scale) = b.below scale + 1 := by
      unfold roundDiv below
      dsimp only
      grind
    rcases hround with hround | hround
    · rw [hround]
      exact reads_iff.mp hbelow
    · rw [hround]
      exact reads_iff.mp hnext

/-- A grid that is finer than the neighbourhood is wide has a multiple in it. -/
theorem exists_onGrid? (hlow : b.low < b.value) (hhigh : b.value < b.high)
    (hfine : (10 : ℚ) ^ scale < (b.high - b.low) * 2 ^ b.unit) : ∃ n, b.onGrid? scale = some n := by
  have hunit : (0 : ℚ) < 2 ^ b.unit := zpow_pos (by norm_num) _
  have hlowCast : (b.low : ℚ) * 2 ^ b.unit < b.value * 2 ^ b.unit := by gcongr
  have hhighCast : (b.value : ℚ) * 2 ^ b.unit < b.high * 2 ^ b.unit := by gcongr
  rw [onGrid?_eq]
  split
  · next hbelow hnext =>
    rw [Bool.eq_false_iff, ne_eq, reads_iff] at hbelow hnext
    -- Neither neighbour on the grid is held, so the whole neighbourhood lies between them.
    have hleft := Holds.le_low hbelow ((b.below_le scale).trans_lt hhighCast)
    have hright := Holds.high_le hnext (hlowCast.trans (b.lt_below_succ scale))
    push_cast at hright
    linarith
  · exact ⟨_, rfl⟩
  · exact ⟨_, rfl⟩
  · exact ⟨_, rfl⟩

theorem holds_search (hlow : 0 < b.low) (count : Nat) (scale : Int) {d : Digits} (h : b.search count scale = some d) :
    b.Holds (Algebra.decimalValue d) := by
  induction count generalizing scale with
  | zero => cases h
  | succ count ih =>
    simp only [search] at h
    split at h
    · next n hn =>
      cases h
      rw [decimalValue_ofNat (onGrid?_pos hlow hn)]
      exact holds_of_onGrid? hn
    · exact ih (scale - 1) h

theorem exists_search {count : Nat} {k : Nat} (hk : k < count) (h : ∃ n, b.onGrid? (scale - k) = some n) :
    ∃ d, b.search count scale = some d := by
  induction count generalizing scale k with
  | zero => omega
  | succ count ih =>
    unfold search
    cases hfirst : b.onGrid? scale with
    | some n => exact ⟨_, rfl⟩
    | none =>
      cases k with
      | zero =>
        obtain ⟨n, hn⟩ := h
        rw [Nat.cast_zero, sub_zero, hfirst] at hn
        cases hn
      | succ k =>
        apply ih (k := k) (by omega)
        have hscale : scale - 1 - (k : Int) = scale - (k + 1 : Nat) := by
          push_cast
          ring
        rwa [hscale]

end Neighbourhood

theorem Canonical.full_le {m : Nat} {e : Int} (h : Canonical m e) (he : e ≠ -1074) : fractionCount ≤ m := by
  have hlog := h.full.resolve_right he
  rw [fractionCount_eq, ← hlog]
  exact Nat.log2_self_le h.pos.ne'

theorem Neighbourhood.ends_of {m : Nat} (hm : 0 < m) (e : Int) :
    0 < (of m e).low ∧ (of m e).low < (of m e).value ∧ (of m e).value < (of m e).high := by
  simp only [of]
  split <;> omega

/-- The seventeenth digit counts for less than a neighbourhood is wide: a mantissa has 53 bits. -/
theorem Canonical.lt_width {m : Nat} {e : Int} (h : Canonical m e) : (m : ℚ) * 2 ^ e / 10 ^ 16 <
    ((Neighbourhood.of m e).high - (Neighbourhood.of m e).low) * 2 ^ (Neighbourhood.of m e).unit := by
  have hunit : (0 : ℚ) < 2 ^ e := zpow_pos (by norm_num) e
  have hpos := h.pos
  have hless : (m : ℚ) < 2 ^ 53 := by exact_mod_cast h.lt
  have hquarter : (2 : ℚ) ^ (e - 2) = 2 ^ e / 4 := by
    rw [zpow_sub₀ (by norm_num)]
    norm_num
  simp only [Neighbourhood.of]
  rw [hquarter]
  split
  · next hbottom =>
    rw [Nat.cast_sub (by omega), hbottom.1, fractionCount_eq]
    push_cast
    linarith
  · rw [Nat.cast_sub (by omega)]
    push_cast
    nlinarith

/-- The shortest digits of a double denote a number that is read as the double: with seventeen of them the
grid is fine enough. -/
theorem holds_shortest {m : Nat} {e : Int} (h : Canonical m e) :
    (Neighbourhood.of m e).Holds (Algebra.decimalValue (shortest m e)) := by
  have hvalue : ((m * powUp 2 e : Nat) : ℚ) / (powDown 2 e : Nat) = m * 2 ^ e := by
    have hdown : 0 < (powDown 2 e : ℚ) := powDown_pos two_ne_zero e
    rw [Nat.cast_mul, powUp_eq two_ne_zero]
    push_cast
    field_simp
  have hnum : 0 < m * powUp 2 e := Nat.mul_pos h.pos (Nat.pow_pos (by norm_num))
  have hden : 0 < powDown 2 e := Nat.pow_pos (by norm_num)
  have hpoint := pow_floorLog10_le hnum hden
  rw [hvalue] at hpoint
  unfold shortest
  dsimp only
  generalize floorLog10 (m * powUp 2 e) (powDown 2 e) = point at hpoint ⊢
  have hscale : (10 : ℚ) ^ (point - 16) ≤ m * 2 ^ e / 10 ^ 16 := by
    rw [zpow_sub₀ (by norm_num)]
    exact div_le_div_of_nonneg_right hpoint (by positivity)
  obtain ⟨hlow, hbelow, habove⟩ := Neighbourhood.ends_of h.pos e
  have hgrid := Neighbourhood.exists_onGrid? hbelow habove (hscale.trans_lt h.lt_width)
  obtain ⟨d, hd⟩ := Neighbourhood.exists_search (show 16 < 17 by norm_num) hgrid
  rw [hd, Option.getD_some]
  exact Neighbourhood.holds_search hlow 17 point hd

end Metrology.Decimal
