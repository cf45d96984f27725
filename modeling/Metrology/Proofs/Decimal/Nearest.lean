import Metrology.Proofs.Decimal.Exact

/-! # Rounding to the nearest double

A positive quotient is rounded to a multiple of a power of two that leaves it 53 bits, or fewer at the bottom
of the range. No double is nearer than that multiple: those that are no multiples of the same power lie below
all that have 53 bits.
-/
namespace Metrology.Decimal

/-! ## Quotients of natural numbers -/

theorem powUp_eq {base : Nat} (hbase : base ≠ 0) (e : Int) :
    (powUp base e : ℚ) = (base : ℚ) ^ e * (powDown base e : ℚ) := by
  have hne : (base : ℚ) ≠ 0 := Nat.cast_ne_zero.mpr hbase
  obtain ⟨n, rfl | rfl⟩ := e.eq_nat_or_neg
  · simp [powUp, powDown]
  · simp [powUp, powDown, hne]

theorem powDown_pos {base : Nat} (hbase : base ≠ 0) (e : Int) : 0 < (powDown base e : ℚ) := by
  have hpos : 0 < base ^ (-e).toNat := Nat.pow_pos (Nat.pos_of_ne_zero hbase)
  exact_mod_cast hpos

/-- Moving powers of two to the side where they are integers does not change a quotient. -/
theorem scaled_div (num den : Nat) (e : Int) :
    ((num * powDown 2 e : Nat) : ℚ) / ((den * powUp 2 e : Nat) : ℚ) = (num : ℚ) / den / 2 ^ e := by
  have hdown : 0 < (powDown 2 e : ℚ) := powDown_pos two_ne_zero e
  push_cast
  rw [powUp_eq (by norm_num)]
  push_cast
  field_simp

theorem roundDiv_error (num : Nat) {den : Nat} (hden : 0 < den) :
    |(num : ℚ) / den - roundDiv num den| ≤ 1 / 2 ∧
      (|(num : ℚ) / den - roundDiv num den| = 1 / 2 → roundDiv num den % 2 = 0) := by
  have hpos : (0 : ℚ) < den := by exact_mod_cast hden
  have hsplit : (num : ℚ) = den * (num / den : Nat) + (num % den : Nat) := by
    exact_mod_cast (Nat.div_add_mod num den).symm
  have hquotient : (num : ℚ) / den = (num / den : Nat) + ((num % den : Nat) : ℚ) / den := by
    rw [hsplit]
    field_simp
  have hrest : (0 : ℚ) ≤ ((num % den : Nat) : ℚ) / den := by positivity
  have hless : ((num % den : Nat) : ℚ) / den < 1 := by
    rw [div_lt_one hpos]
    exact_mod_cast Nat.mod_lt num hden
  unfold roundDiv
  dsimp only
  rw [hquotient]
  generalize num / den = quotient at *
  by_cases hbelow : 2 * (num % den) < den
  · have hhalf : ((num % den : Nat) : ℚ) / den < 1 / 2 := by
      rw [div_lt_iff₀ hpos]
      have hcast : (2 : ℚ) * (num % den : Nat) < den := by exact_mod_cast hbelow
      linarith
    rw [if_pos hbelow, add_sub_cancel_left, abs_of_nonneg hrest]
    exact ⟨hhalf.le, fun h => absurd h hhalf.ne⟩
  · rw [if_neg hbelow]
    by_cases habove : den < 2 * (num % den)
    · have hhalf : 1 / 2 < ((num % den : Nat) : ℚ) / den := by
        rw [lt_div_iff₀ hpos]
        have hcast : (den : ℚ) < 2 * (num % den : Nat) := by exact_mod_cast habove
        linarith
      rw [if_pos habove]
      push_cast
      rw [add_sub_add_left_eq_sub, abs_of_neg (by linarith)]
      constructor
      · linarith
      · intro h
        linarith
    · have hhalf : ((num % den : Nat) : ℚ) / den = 1 / 2 := by
        rw [div_eq_iff hpos.ne']
        have hcast : (2 : ℚ) * (num % den : Nat) = den := by
          have heq : 2 * (num % den) = den := by omega
          exact_mod_cast heq
        linarith
      rw [if_neg habove, hhalf]
      push_cast
      rw [add_sub_add_left_eq_sub]
      rcases Nat.mod_two_eq_zero_or_one quotient with heven | hodd
      · rw [heven]
        norm_num
        omega
      · rw [hodd]
        norm_num
        omega

/-- A quotient is compared with a power of two in natural numbers. -/
theorem mul_powDown_lt_iff {num den : Nat} (hden : 0 < den) (e : Int) :
    num * powDown 2 e < den * powUp 2 e ↔ (num : ℚ) / den < 2 ^ e := by
  have hdown : 0 < (powDown 2 e : ℚ) := powDown_pos two_ne_zero e
  have hpos : (0 : ℚ) < den := by exact_mod_cast hden
  have hcast : num * powDown 2 e < den * powUp 2 e ↔
      (num : ℚ) * powDown 2 e < den * (2 ^ e * powDown 2 e) := by
    have hup : (powUp 2 e : ℚ) = 2 ^ e * (powDown 2 e : ℚ) := powUp_eq two_ne_zero e
    rw [← hup]
    exact_mod_cast Iff.rfl
  rw [hcast, ← mul_assoc, mul_lt_mul_iff_left₀ hdown, div_lt_iff₀ hpos, mul_comm (2 ^ e : ℚ)]

theorem log2_bounds {n : Nat} (hn : 0 < n) : (2 : ℚ) ^ (n.log2 : Int) ≤ n ∧ (n : ℚ) < 2 ^ ((n.log2 : Int) + 1) := by
  constructor
  · rw [zpow_natCast]
    exact_mod_cast Nat.log2_self_le hn.ne'
  · have hlt : n < 2 ^ (n.log2 + 1) := Nat.lt_log2_self
    exact_mod_cast hlt

theorem floorLog2_spec {num den : Nat} (hnum : 0 < num) (hden : 0 < den) :
    (2 : ℚ) ^ floorLog2 num den ≤ (num : ℚ) / den ∧ (num : ℚ) / den < 2 ^ (floorLog2 num den + 1) := by
  have htwo : (2 : ℚ) ≠ 0 := by norm_num
  have hpos : (0 : ℚ) < den := by exact_mod_cast hden
  obtain ⟨hnumLow, hnumHigh⟩ := log2_bounds hnum
  obtain ⟨hdenLow, hdenHigh⟩ := log2_bounds hden
  have hlow : (2 : ℚ) ^ ((num.log2 : Int) - den.log2 - 1) ≤ (num : ℚ) / den := by
    rw [le_div_iff₀ hpos]
    calc (2 : ℚ) ^ ((num.log2 : Int) - den.log2 - 1) * den
        ≤ 2 ^ ((num.log2 : Int) - den.log2 - 1) * 2 ^ ((den.log2 : Int) + 1) := by gcongr
      _ = 2 ^ (num.log2 : Int) := by rw [← zpow_add₀ htwo]; congr 1; ring
      _ ≤ num := hnumLow
  have hhigh : (num : ℚ) / den < 2 ^ ((num.log2 : Int) - den.log2 + 1) := by
    rw [div_lt_iff₀ hpos]
    calc (num : ℚ) < 2 ^ ((num.log2 : Int) + 1) := hnumHigh
      _ = 2 ^ ((num.log2 : Int) - den.log2 + 1) * 2 ^ (den.log2 : Int) := by rw [← zpow_add₀ htwo]; congr 1; ring
      _ ≤ 2 ^ ((num.log2 : Int) - den.log2 + 1) * den := by gcongr
  unfold floorLog2
  dsimp only
  split
  · next hguess =>
    rw [mul_powDown_lt_iff hden] at hguess
    exact ⟨hlow, by rwa [sub_add_cancel]⟩
  · next hguess =>
    rw [mul_powDown_lt_iff hden, not_lt] at hguess
    exact ⟨hguess, hhigh⟩

/-! ## Rounding to a multiple of a power of two -/

/-- A nonnegative number rounded to `n` units of `2 ^ e`, of which it has fewer than `2 ^ 53`, and at least
half of that unless the unit is the least. A tie goes to an even number of units. -/
structure Rounds (q : ℚ) (e : Int) (n : Nat) : Prop where
  least : -1074 ≤ e
  lt : q / 2 ^ e < 2 ^ 53
  full : e = -1074 ∨ 2 ^ 52 ≤ q / 2 ^ e
  error : |q / 2 ^ e - n| ≤ 1 / 2
  even : |q / 2 ^ e - n| = 1 / 2 → n % 2 = 0

theorem rounds_roundDiv {num den : Nat} (hnum : 0 < num) (hden : 0 < den) {e : Int}
    (he : e = max (-1074) (floorLog2 num den - 52)) :
    Rounds (num / den) e (roundDiv (num * powDown 2 e) (den * powUp 2 e)) := by
  have htwo : (2 : ℚ) ≠ 0 := by norm_num
  have hunit : (0 : ℚ) < 2 ^ e := zpow_pos (by norm_num) e
  obtain ⟨hlow, hhigh⟩ := floorLog2_spec hnum hden
  have hdenominator : 0 < den * powUp 2 e := Nat.mul_pos hden (Nat.pow_pos (by norm_num))
  obtain ⟨herror, heven⟩ := roundDiv_error (num * powDown 2 e) hdenominator
  rw [scaled_div] at herror heven
  constructor
  · omega
  · rw [div_lt_iff₀ hunit, ← zpow_natCast, ← zpow_add₀ htwo]
    refine hhigh.trans_le (zpow_le_zpow_right₀ (by norm_num) ?_)
    push_cast
    omega
  · by_cases hbottom : e = -1074
    · exact Or.inl hbottom
    · right
      rw [le_div_iff₀ hunit, ← zpow_natCast, ← zpow_add₀ htwo]
      refine le_trans (zpow_le_zpow_right₀ (by norm_num) ?_) hlow
      push_cast
      omega
  · exact herror
  · exact heven

/-- No integer is nearer than one that is at most a half away, and none but such is as near. -/
theorem closest_integer {p : ℚ} {n : Int} (h : |p - n| ≤ 1 / 2) (t : Int) :
    |p - n| < |p - t| ∨ (|p - n| = |p - t| ∧ (t = n ∨ |p - n| = 1 / 2)) := by
  by_cases ht : t = n
  · right
    rw [ht]
    exact ⟨rfl, Or.inl rfl⟩
  · have hgap : (1 : ℚ) ≤ |(n : ℚ) - t| := by
      have hint : 1 ≤ |n - t| := Int.one_le_abs (by omega)
      exact_mod_cast hint
    have htriangle : |(n : ℚ) - t| ≤ |p - n| + |p - t| := by
      rw [abs_sub_comm p n]
      exact abs_sub_le _ _ _
    rcases lt_or_eq_of_le (show |p - n| ≤ |p - t| by linarith) with hless | hsame
    · exact Or.inl hless
    · right
      refine ⟨hsame, Or.inr ?_⟩
      linarith

namespace Rounds

variable {q : ℚ} {e : Int} {n : Nat}

theorem le_top (h : Rounds q e n) : n ≤ 2 ^ 53 := by
  have hlower := (abs_le.mp h.error).1
  have hlt := h.lt
  have hcast : (n : ℚ) < (2 ^ 53 + 1 : Nat) := by
    push_cast
    linarith
  have hnat : n < 2 ^ 53 + 1 := by exact_mod_cast hcast
  omega

theorem full_le (h : Rounds q e n) (he : e ≠ -1074) : 2 ^ 52 ≤ n := by
  have hupper := (abs_le.mp h.error).2
  have hfull := h.full.resolve_left he
  have hcast : ((2 ^ 52 : Nat) : ℚ) < n + 1 := by
    push_cast
    linarith
  have hnat : 2 ^ 52 < n + 1 := by exact_mod_cast hcast
  omega

theorem abs_sub_eq (q t : ℚ) (e : Int) : |q - t * 2 ^ e| = |q / 2 ^ e - t| * 2 ^ e := by
  have hunit : (0 : ℚ) < 2 ^ e := zpow_pos (by norm_num) e
  rw [← abs_of_pos hunit, ← abs_mul, abs_of_pos hunit, sub_mul, div_mul_cancel₀ _ hunit.ne']

/-- A double with a larger unit is a multiple of the smaller one. -/
theorem exists_multiple {f : Int} (hle : e ≤ f) (m : Int) :
    ∃ t : Int, (m : ℚ) * 2 ^ f = t * 2 ^ e ∧ (m % 2 = 0 → t % 2 = 0) := by
  refine ⟨m * 2 ^ (f - e).toNat, ?_, ?_⟩
  · push_cast
    rw [← zpow_natCast, Int.toNat_of_nonneg (by omega), mul_assoc, ← zpow_add₀ (by norm_num), sub_add_cancel]
  · intro hm
    rw [Int.mul_emod, hm, zero_mul, Int.zero_emod]

/-- A double with a smaller unit lies below all numbers of 53 bits. -/
theorem lt_of_finer (h : Rounds q e n) {m f : Int} (hm : m.natAbs < 2 ^ 53) (hf : -1074 ≤ f) (hfe : f < e) :
    |q - n * 2 ^ e| < |q - m * 2 ^ f| := by
  have htwo : (2 : ℚ) ≠ 0 := by norm_num
  have hunit : (0 : ℚ) < 2 ^ e := zpow_pos (by norm_num) e
  have herror : |q / 2 ^ e - (n : Int)| ≤ 1 / 2 := by exact_mod_cast h.error
  have hother : (m : ℚ) * 2 ^ f = m * 2 ^ (f - e) * 2 ^ e := by
    rw [mul_assoc, ← zpow_add₀ htwo, sub_add_cancel]
  have hfull := h.full.resolve_left (by omega)
  have hsmall : (m : ℚ) * 2 ^ (f - e) < 2 ^ 52 := by
    have hmantissa : (m : ℚ) < 2 ^ 53 := by
      have hint : m < 2 ^ 53 := by omega
      exact_mod_cast hint
    have hhalf : (2 : ℚ) ^ (f - e) ≤ 2 ^ (-1 : Int) := zpow_le_zpow_right₀ (by norm_num) (by omega)
    have hpositive : (0 : ℚ) < 2 ^ (f - e) := zpow_pos (by norm_num) _
    calc (m : ℚ) * 2 ^ (f - e) < 2 ^ 53 * 2 ^ (f - e) := by gcongr
      _ ≤ 2 ^ 53 * 2 ^ (-1 : Int) := by gcongr
      _ = 2 ^ 52 := by norm_num
  rw [hother, abs_sub_eq, abs_sub_eq, mul_lt_mul_iff_left₀ hunit]
  have htop : |q / 2 ^ e - n| ≤ |q / 2 ^ e - 2 ^ 52| := by
    rcases closest_integer herror (2 ^ 52) with hless | ⟨hsame, -⟩
    · exact_mod_cast hless.le
    · exact_mod_cast hsame.le
  rw [abs_of_nonneg (by linarith : (0 : ℚ) ≤ q / 2 ^ e - 2 ^ 52)] at htop
  rw [abs_of_pos (by linarith : (0 : ℚ) < q / 2 ^ e - m * 2 ^ (f - e))]
  linarith

/-- No double is nearer than the number that is rounded to. -/
theorem closest (h : Rounds q e n) {m f : Int} (hm : m.natAbs < 2 ^ 53) (hf : -1074 ≤ f) :
    |q - n * 2 ^ e| < |q - m * 2 ^ f| ∨
      (|q - n * 2 ^ e| = |q - m * 2 ^ f| ∧ ((m : ℚ) * 2 ^ f = n * 2 ^ e ∨ n % 2 = 0)) := by
  have hunit : (0 : ℚ) < 2 ^ e := zpow_pos (by norm_num) e
  have herror : |q / 2 ^ e - (n : Int)| ≤ 1 / 2 := by exact_mod_cast h.error
  by_cases hle : e ≤ f
  · obtain ⟨t, ht, -⟩ := exists_multiple hle m
    rw [ht, abs_sub_eq, abs_sub_eq, mul_lt_mul_iff_left₀ hunit, mul_left_inj' hunit.ne', mul_left_inj' hunit.ne']
    rcases closest_integer herror t with hless | ⟨hsame, hor⟩
    · exact Or.inl (by exact_mod_cast hless)
    · right
      refine ⟨by exact_mod_cast hsame, ?_⟩
      rcases hor with hint | hhalf
      · left
        rw [hint]
        norm_cast
      · right
        exact h.even (by exact_mod_cast hhalf)
  · exact Or.inl (h.lt_of_finer hm hf (not_le.mp hle))

/-- Of two numbers that are as near, one is odd. -/
theorem eq_of_tie (h : Rounds q e n) {m f : Int} (hm : m.natAbs < 2 ^ 53) (hf : -1074 ≤ f)
    (htie : |q - n * 2 ^ e| = |q - m * 2 ^ f|) (hn : n % 2 = 0) (heven : m % 2 = 0) : (m : ℚ) * 2 ^ f = n * 2 ^ e := by
  have hunit : (0 : ℚ) < 2 ^ e := zpow_pos (by norm_num) e
  have herror : |q / 2 ^ e - (n : Int)| ≤ 1 / 2 := by exact_mod_cast h.error
  by_cases hle : e ≤ f
  · obtain ⟨t, ht, hteven⟩ := exists_multiple hle m
    rw [ht, abs_sub_eq, abs_sub_eq, mul_left_inj' hunit.ne'] at htie
    have hgap : |(n : ℚ) - t| ≤ 1 := by
      calc |(n : ℚ) - t| ≤ |(n : ℚ) - q / 2 ^ e| + |q / 2 ^ e - t| := abs_sub_le _ _ _
        _ ≤ 1 / 2 + 1 / 2 := by
          rw [← htie, abs_sub_comm]
          exact add_le_add h.error h.error
        _ = 1 := by norm_num
    have hint : |(n : Int) - t| ≤ 1 := by exact_mod_cast hgap
    have heq : t = n := by
      have hpair := abs_le.mp hint
      have hparity := hteven heven
      omega
    rw [ht, heq]
    norm_cast
  · exact absurd htie (h.lt_of_finer hm hf (not_le.mp hle)).ne

end Rounds

/-! ## The bits of the nearest double -/

theorem fractionCount_eq : fractionCount = 2 ^ 52 := by decide

theorem ofBits_fraction {n : Nat} (hn : n < fractionCount) : Double.ofBits n = .finite false n (-1074) := by
  have hsign : n / (2048 * fractionCount) % 2 = 0 := by
    rw [fractionCount_eq] at hn ⊢
    omega
  have hfield : n / fractionCount % 2048 = 0 := by
    rw [fractionCount_eq] at hn ⊢
    omega
  simp [Double.ofBits, hsign, hfield, Nat.mod_eq_of_lt hn]

theorem ofBits_field {field fraction : Nat} (hpos : 0 < field) (hlt : field < 2047)
    (hfraction : fraction < fractionCount) :
    Double.ofBits (field * fractionCount + fraction) =
        .finite false (fractionCount + fraction) ((field : Int) - 1075) := by
  have hsign : (field * fractionCount + fraction) / (2048 * fractionCount) % 2 = 0 := by
    rw [fractionCount_eq] at hfraction ⊢
    omega
  have hfield : (field * fractionCount + fraction) / fractionCount % 2048 = field := by
    rw [fractionCount_eq] at hfraction ⊢
    omega
  have hrest : (field * fractionCount + fraction) % fractionCount = fraction := by
    rw [fractionCount_eq] at hfraction ⊢
    omega
  simp [Double.ofBits, hsign, hfield, hrest, hlt.ne, hpos.ne']

/-- Where doubles of finite size end: what is as far from zero is nearer to the next power of two than to the
largest one. -/
def overflow : ℚ := 2 ^ 1024 - 2 ^ 970

/-- Half a unit above the largest number of 53 bits. -/
theorem overflow_eq : overflow = (2 ^ 53 - 1 / 2) * 2 ^ (971 : Int) := by
  have htop : (2 : ℚ) ^ 1024 = 2 ^ 54 * 2 ^ 970 := by rw [← pow_add]
  have hunit : (2 : ℚ) ^ (971 : Int) = 2 * 2 ^ 970 := by
    rw [← pow_succ']
    exact zpow_natCast 2 971
  rw [overflow, htop, hunit]
  generalize (2 : ℚ) ^ 970 = u
  ring

/-- A double as near to a rational number as any, with an even mantissa if another is as near, and infinite
beyond the range. -/
inductive Nearest (q : ℚ) (x : Float) : Prop where
  | finite {negative : Bool} {m : Nat} {e : Int} {r : ℚ} (hx : Double.ofFloat x = .finite negative m e)
      (hr : dyadic? x = some r) (hq : |q| < overflow)
      (closest : ∀ y s, dyadic? y = some s → |q - r| < |q - s| ∨ (|q - r| = |q - s| ∧ (s = r ∨ m % 2 = 0)))
  | infinite (hx : Double.ofFloat x = .infinity (q < 0)) (hq : overflow ≤ |q|)

theorem overflow_pos : 0 < overflow := by
  rw [overflow_eq]
  positivity

theorem Nearest.neg {q : ℚ} {x : Float} (h : Nearest q x) : Nearest (-q) (-x) := by
  cases h with
  | @finite negative m e r hx hr hq closest =>
    have hx' : Double.ofFloat (-x) = .finite (!negative) m e := by rw [Double.ofFloat_neg, hx, Double.neg]
    have hr' : dyadic? (-x) = some (-r) := by rw [dyadic?_neg, hr, Option.map_some]
    refine .finite hx' hr' (by rwa [abs_neg]) ?_
    intro y s hs
    have hopposite : dyadic? (-y) = some (-s) := by rw [dyadic?_neg, hs, Option.map_some]
    have hflip (t : ℚ) : |-q - t| = |q - -t| := by rw [← abs_neg]; congr 1; ring
    rw [hflip, hflip, neg_neg]
    rcases closest (-y) (-s) hopposite with hless | ⟨hsame, hor⟩
    · exact Or.inl hless
    · right
      refine ⟨hsame, hor.imp_left ?_⟩
      intro heq
      rw [← heq, neg_neg]
  | infinite hx hq =>
    have hne : q ≠ 0 := abs_pos.mp (overflow_pos.trans_le hq)
    refine .infinite ?_ (by rwa [abs_neg])
    rw [Double.ofFloat_neg, hx, Double.neg]
    have hsign : (!decide (q < 0)) = decide (-q < 0) := by
      rcases lt_or_gt_of_ne hne with hlt | hgt
      · simp [hlt, hlt.le]
      · simp [hgt, hgt.le]
    rw [hsign]

namespace Rounds

variable {q : ℚ} {e : Int} {n : Nat}

def bits (e : Int) (n : Nat) : Nat :=
  if n < fractionCount then n else (e + 1075).toNat * fractionCount + (n - fractionCount)

theorem ofBits_bits (h : Rounds q e n) (he : e ≤ 971) (hfits : ¬ (e = 971 ∧ n = 2 ^ 53)) :
    ∃ m f, Double.ofBits (bits e n) = .finite false m f ∧ (m : ℚ) * 2 ^ f = n * 2 ^ e ∧ (n % 2 = 0 → m % 2 = 0) := by
  have hcount := fractionCount_eq
  have hleast := h.least
  have htop := h.le_top
  unfold bits
  split
  · next hsmall =>
    have hbottom : e = -1074 := by
      by_contra hne
      have hfull := h.full_le hne
      omega
    exact ⟨n, -1074, ofBits_fraction hsmall, by rw [hbottom], id⟩
  · next hlarge =>
    by_cases hcarry : n = 2 ^ 53
    · -- All 53 bits are carried over into the next exponent.
      have hsplit : (e + 1075).toNat * fractionCount + (n - fractionCount) =
          (e + 1076).toNat * fractionCount + 0 := by
        rw [hcarry, hcount]
        omega
      rw [hsplit]
      refine ⟨_, _, ofBits_field (by omega) (by omega) (by omega), ?_, fun _ => by rw [hcount]; norm_num⟩
      have hexponent : ((e + 1076).toNat : Int) - 1075 = e + 1 := by omega
      rw [hexponent, hcarry, hcount, zpow_add₀ (by norm_num)]
      push_cast
      ring
    · refine ⟨_, _, ofBits_field (by omega) (by omega) (by omega), ?_, ?_⟩
      · have hmantissa : fractionCount + (n - fractionCount) = n := by omega
        have hexponent : ((e + 1075).toNat : Int) - 1075 = e := by omega
        rw [hmantissa, hexponent]
      · omega

theorem bits_top {e : Int} {n : Nat} (he : e = 971) (hn : n = 2 ^ 53) : bits e n = 2047 * fractionCount := by
  subst he hn
  decide

/-- What does not fit has been rounded from a number beyond the range. -/
theorem overflow_le (h : Rounds q e n) (hover : 971 < e ∨ (e = 971 ∧ n = 2 ^ 53)) : overflow ≤ q := by
  have hunit : (0 : ℚ) < 2 ^ e := zpow_pos (by norm_num) e
  rw [overflow_eq]
  rcases hover with hover | ⟨rfl, rfl⟩
  · have hfull := h.full.resolve_left (by omega)
    rw [le_div_iff₀ hunit] at hfull
    have hlarge : (2 : ℚ) ^ (971 + 1 : Int) ≤ 2 ^ e := zpow_le_zpow_right₀ (by norm_num) (by omega)
    rw [zpow_add_one₀ (by norm_num)] at hlarge
    have htop : (0 : ℚ) < 2 ^ (971 : Int) := zpow_pos (by norm_num) _
    generalize (2 : ℚ) ^ (971 : Int) = unit at *
    norm_num at hfull ⊢
    linarith
  · have hupper := (abs_le.mp h.error).1
    rw [Nat.cast_pow, Nat.cast_ofNat] at hupper
    rw [← le_div_iff₀ hunit]
    linarith

theorem lt_overflow (h : Rounds q e n) (he : e ≤ 971) (hfits : ¬ (e = 971 ∧ n = 2 ^ 53)) : q < overflow := by
  have hunit : (0 : ℚ) < 2 ^ e := zpow_pos (by norm_num) e
  rw [overflow_eq]
  rcases lt_or_eq_of_le he with hlt | rfl
  · have hbelow := h.lt
    rw [div_lt_iff₀ hunit] at hbelow
    have hsmall : (2 : ℚ) ^ (e + 1) ≤ 2 ^ (971 : Int) := zpow_le_zpow_right₀ (by norm_num) (by omega)
    rw [zpow_add_one₀ (by norm_num)] at hsmall
    have htop : (0 : ℚ) < 2 ^ (971 : Int) := zpow_pos (by norm_num) _
    generalize (2 : ℚ) ^ (971 : Int) = unit at *
    norm_num at hbelow ⊢
    linarith
  · -- The number of units is at most `2 ^ 53 - 1`. That is odd, so it is no tie that has been rounded down.
    have htop := h.le_top
    have hupper := (abs_le.mp h.error).2
    rw [← div_lt_iff₀ hunit]
    rcases lt_or_eq_of_le hupper with hless | hhalf
    · have hn : n + 1 ≤ 2 ^ 53 := by omega
      have hcast : (n : ℚ) + 1 ≤ 2 ^ 53 := by exact_mod_cast hn
      linarith
    · have heven := h.even (by rw [hhalf]; norm_num)
      have hn : n + 2 ≤ 2 ^ 53 := by omega
      have hcast : (n : ℚ) + 2 ≤ 2 ^ 53 := by exact_mod_cast hn
      linarith

end Rounds

theorem nearestBits_eq {num : Nat} (hnum : 0 < num) (den : Nat) {e : Int}
    (he : e = max (-1074) (floorLog2 num den - 52)) :
    nearestBits num den = if 971 < e then 2047 * fractionCount
      else Rounds.bits e (roundDiv (num * powDown 2 e) (den * powUp 2 e)) := by
  subst he
  unfold nearestBits
  rw [if_neg hnum.ne']
  rfl

theorem nearestBits_lt (num den : Nat) (hden : 0 < den) : nearestBits num den < 2 ^ 64 := by
  rcases Nat.eq_zero_or_pos num with rfl | hnum
  · rw [nearestBits, if_pos rfl]
    norm_num
  · obtain ⟨e, he⟩ : ∃ e, e = max (-1074) (floorLog2 num den - 52) := ⟨_, rfl⟩
    have htop := (rounds_roundDiv hnum hden he).le_top
    rw [nearestBits_eq hnum den he, Rounds.bits, fractionCount_eq]
    split
    · norm_num
    · split <;> omega

theorem nearest_nonneg (num : Nat) {den : Nat} (hden : 0 < den) :
    Nearest ((num : ℚ) / den) (nearest false num den) := by
  have hbits : Double.ofFloat (nearest false num den) = Double.ofBits (nearestBits num den) := by
    have hword : (nearestBits num den).toUInt64.toNat = nearestBits num den := by
      exact Nat.mod_eq_of_lt (nearestBits_lt num den hden)
    exact (Double.ofFloat_ofBits _).trans (by rw [hword])
  have hq : (0 : ℚ) ≤ (num : ℚ) / den := by positivity
  rcases Nat.eq_zero_or_pos num with rfl | hnum
  · have hx : Double.ofFloat (nearest false 0 den) = .finite false 0 (-1074) := by
      rw [hbits, nearestBits, if_pos rfl]
      exact ofBits_fraction (by decide)
    have hzero : ((0 : Nat) : ℚ) / den = 0 := by rw [Nat.cast_zero, zero_div]
    have hr : dyadic? (nearest false 0 den) = some 0 := by
      rw [dyadic?, hx, Double.dyadic?]
      simp
    rw [hzero]
    refine .finite hx hr ?_ ?_
    · rw [abs_zero]
      exact overflow_pos
    · intro y s hs
      by_cases hs : s = 0
      · exact Or.inr ⟨by rw [hs], Or.inl hs⟩
      · left
        simpa using hs
  · obtain ⟨e, he⟩ : ∃ e, e = max (-1074) (floorLog2 num den - 52) := ⟨_, rfl⟩
    have hround := rounds_roundDiv hnum hden he
    rw [nearestBits_eq hnum den he] at hbits
    generalize roundDiv (num * powDown 2 e) (den * powUp 2 e) = n at hround hbits
    by_cases hover : 971 < e ∨ (e = 971 ∧ n = 2 ^ 53)
    · have htop : Double.ofFloat (nearest false num den) = .infinity false := by
        rw [hbits]
        rcases hover with hover | ⟨hexponent, hn⟩
        · rw [if_pos hover]
          rfl
        · rw [if_neg (by omega), Rounds.bits_top hexponent hn]
          rfl
      refine .infinite ?_ ?_
      · rw [htop, decide_eq_false (not_lt.mpr hq)]
      · rw [abs_of_nonneg hq]
        exact hround.overflow_le hover
    · rw [if_neg (by omega)] at hbits
      obtain ⟨m, f, hdouble, hvalue, heven⟩ := hround.ofBits_bits (by omega) (by omega)
      rw [hdouble] at hbits
      have hr : dyadic? (nearest false num den) = some ((n : ℚ) * 2 ^ e) := by
        rw [dyadic?, hbits, Double.dyadic?, hvalue]
        simp
      refine .finite hbits hr ?_ ?_
      · rw [abs_of_nonneg hq]
        exact hround.lt_overflow (by omega) (by omega)
      · intro y s hs
        obtain ⟨k, g, rfl, hk, hg⟩ := exists_mantissa hs
        rcases hround.closest hk hg with hless | ⟨hsame, hor⟩
        · exact Or.inl hless
        · exact Or.inr ⟨hsame, hor.imp_right heven⟩

/-- The double that is made of a rational number is nearest to it. -/
theorem nearest_ofRat (q : ℚ) : Nearest q (ofRat q) := by
  have hmagnitude := nearest_nonneg q.num.natAbs q.den_pos
  by_cases hnegative : q.num < 0
  · have hq : ((q.num.natAbs : ℚ) / q.den) = -q := by
      rw [Nat.cast_natAbs, abs_of_neg hnegative, Int.cast_neg, neg_div, Rat.num_div_den]
    rw [hq] at hmagnitude
    have hopposite := hmagnitude.neg
    rw [neg_neg] at hopposite
    have hofRat : ofRat q = -nearest false q.num.natAbs q.den := by
      rw [ofRat, decide_eq_true hnegative]
      rfl
    rw [hofRat]
    exact hopposite
  · have hq : ((q.num.natAbs : ℚ) / q.den) = q := by
      rw [Nat.cast_natAbs, abs_of_nonneg (not_lt.mp hnegative), Rat.num_div_den]
    rw [hq] at hmagnitude
    rw [ofRat, decide_eq_false hnegative]
    exact hmagnitude

end Metrology.Decimal
