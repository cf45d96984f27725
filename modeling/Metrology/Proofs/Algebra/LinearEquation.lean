import Metrology.Proofs.Algebra.LinearSum

/-! # Linear equations

The equation that a variable is an affine function of another one is linear, whatever the coefficients are.
Its derivative is a number and its value at zero an affine function again, so the quotient of the two is the
inverse function as an expanded sum.
-/
namespace Metrology.Algebra

open Term (multiple)

namespace Term

variable {t : Term} {ts : List Term} {x y : String} {k q : ℚ}

/-! ## Derivatives and values at zero -/

theorem beq_var_of_ne (h : y ≠ x) : (Term.var y == Term.var x) = false := by
  rw [beq_var]
  exact beq_eq_false_iff_ne.mpr h

theorem beq_var_self : (Term.var x == Term.var x) = true := by rw [beq_var, beq_self_eq_true]

theorem number_beq_var : (Term.num q == Term.var x) = false := rfl

theorem beq_zero (hq : q ≠ 0) : (Term.num q == zero) = false := by
  change (q == 0) = false
  exact beq_eq_false_iff_ne.mpr hq

theorem derivative_number : derivative (.var x) (.num q) = zero := by simp [derivative, number_beq_var]

theorem derivative_var : derivative (.var x) (.var y) = .num (if y = x then 1 else 0) := by
  by_cases h : y = x
  · simp [derivative, h, beq_var_self, one]
  · simp [derivative, h, beq_var_of_ne h, zero]

theorem derivative_multiple : derivative (.var x) (multiple k y) = .num (if y = x then k else 0) := by
  unfold multiple
  split
  · next hone => rw [derivative_var, hone]
  · next hone =>
    have hfactor : product [zero, .var y] = zero := product_multiple_self.trans (if_pos rfl)
    have hproduct (p : ℚ) : product [.num k, .num p] = .num (k * p) := product_numbers 197 k p
    rw [derivative]
    simp only [derivativeFactors, List.nil_append, List.cons_append, derivative_number, hfactor,
      derivative_var, hproduct]
    rw [sum_numbers (.refl _) (by simp [zero])]
    simp [zero]

theorem substitute_number (s : Term) : substitute (.var x) s (.num q) = .num q := by simp [substitute, number_beq_var]

theorem substitute_var (s : Term) : substitute (.var x) s (.var y) = if y = x then s else .var y := by
  by_cases h : y = x
  · simp [substitute, h, beq_var_self]
  · simp [substitute, h, beq_var_of_ne h]

theorem substitute_multiple (hk : k ≠ 0) :
    substitute (.var x) zero (multiple k y) = if y = x then zero else multiple k y := by
  unfold multiple
  split
  · next hone => exact substitute_var zero
  · next hone =>
    have hmul : (Term.mul [.num k, .var y] == Term.var x) = false := rfl
    have hproduct : product [.num k, zero] = zero := by
      have hzero : product [.num k, .num 0] = .num (k * 0) := product_numbers 197 k 0
      rwa [mul_zero] at hzero
    have hself : product [.num k, .var y] = .mul [.num k, .var y] := by
      rw [product_multiple_self, if_neg hk, multiple, if_neg hone]
    rw [substitute, hmul, substituteAll, substituteAll, substituteAll, substitute_number, substitute_var]
    by_cases h : y = x
    · rw [if_pos h, if_pos h]
      exact hproduct
    · rw [if_neg h, if_neg h]
      exact hself

/-! ## Occurrences -/

theorem occursIn_number : occursIn (.var x) (.num q) = false := by simp [occursIn, hasPart, number_beq_var]

theorem occursIn_multiple : occursIn (.var x) (multiple k y) = (y == x) := by
  have hmul : (Term.mul [.num k, .var y] == Term.var x) = false := rfl
  unfold multiple occursIn
  split
  · simp [hasPart, beq_var]
  · simp [hasPart, anyHasPart, hmul, number_beq_var, beq_var]

theorem occursIn_ofTerms : occursIn (.var x) (ofTerms ts) = ts.any (occursIn (.var x)) := by
  have hadd (us : List Term) : (Term.add us == Term.var x) = false := rfl
  unfold ofTerms
  split
  · simp [zero, occursIn_number]
  · simp
  · simp only [occursIn, hasPart, hadd, Bool.false_or]
    exact anyHasPart_eq_any

/-! ## Expansion -/

theorem factorsOf_multiple (hk : k ≠ 1) : (multiple k x).factorsOf = [.num k, .var x] := by
  rw [multiple, if_neg hk]
  rfl

theorem product_nil : product [] = one := rfl

theorem product_var : product [.var x] = .var x := rfl

theorem product_number : product [.num q] = .num q := by
  by_cases hone : q = 1
  · rw [hone]
    rfl
  · simp [product, callDepth, productWithin, beq_one hone]

/-- What is below the line of a multiple of a variable is the denominator of its coefficient. -/
theorem fraction_multiple (hk : k ≠ 0) : fraction (multiple k x) = (multiple k.num x, .num k.den) := by
  have hnum : (k.num : ℚ) ≠ 0 := Int.cast_ne_zero.mpr (Rat.num_ne_zero.mpr hk)
  have habove : product [.num k.num, .var x] = multiple k.num x := by rw [product_multiple_self, if_neg hnum]
  by_cases hone : k = 1
  · rw [hone]
    rfl
  · rw [fraction, factorsOf_multiple hone]
    by_cases hden : k.den = 1
    · have hself : product [.num k, .var x] = multiple k.num x := by rwa [num_of_den hden] at habove ⊢
      simp [fractionFactors, hden, hself, product_nil, one]
    · by_cases hunit : k.num = 1
      · simp [fractionFactors, hden, hunit, product_number, product_var, multiple]
      · simp [fractionFactors, hden, hunit, product_number, habove]

theorem distribute_multiple : distribute (multiple k x) = multiple k x := by
  have hsums : ([Term.num k, .var x].filter isSum) = [] := rfl
  unfold multiple
  split
  · rfl
  · simp [distribute, factorsOf, hsums]

theorem toTerm_multiple (hk : k ≠ 0) : (⟨k, 0⟩ : Affine).toTerm x = multiple k x := by
  rw [Affine.toTerm, if_neg hk, if_pos rfl]

theorem multiplyOut_multiple (hk : k ≠ 0) : multiplyOut (multiple k x) = multiple k x := by
  have hden : (k.den : ℚ) ≠ 0 := Nat.cast_ne_zero.mpr k.den_nz
  have hnum : (k.num : ℚ) ≠ 0 := Int.cast_ne_zero.mpr (Rat.num_ne_zero.mpr hk)
  have hquotient : quotient (multiple k.num x) (.num k.den) = multiple k x := by
    have hpower : power (.num k.den) minusOne = .num (1 / k.den) := power_minusOne 199 hden
    have hcoefficient : 1 / (k.den : ℚ) * k.num = k := by rw [one_div_mul_eq_div, Rat.num_div_den]
    have hproduct := (Affine.product_number (a := ⟨k.num, 0⟩) (x := x) (1 / (k.den : ℚ))).2
    rw [quotient, hpower, ← toTerm_multiple hnum, hproduct, Affine.scale, mul_zero, hcoefficient, toTerm_multiple hk]
  by_cases hone : k = 1
  · rw [hone]
    rfl
  · have hmul : multiple k x = .mul [.num k, .var x] := if_neg hone
    have hproduct : (Term.num k.den).isProduct = false := rfl
    rw [hmul, multiplyOut, ← hmul]
    simp [fraction_multiple hk, hproduct, hquotient, distribute_multiple]

theorem rebuild_multiple (hk : k ≠ 0) : rebuild multiplyOut (multiple k x) = multiple k x := by
  have hnumber : rebuild multiplyOut (.num k) = .num k := by simp [rebuild, multiplyOut]
  have hvar : rebuild multiplyOut (.var x) = .var x := by simp [rebuild, multiplyOut]
  by_cases hone : k = 1
  · rw [multiple, if_pos hone]
    exact hvar
  · have hmul : multiple k x = .mul [.num k, .var x] := if_neg hone
    have hall : sameAll [.num k, .var x] [.num k, .var x] = true := by simp [sameAll, same]
    rw [hmul, rebuild, rebuildAll, rebuildAll, rebuildAll, hnumber, hvar, if_pos hall, ← hmul]
    exact multiplyOut_multiple hk

end Term

namespace Affine

variable {a : Affine} {x y : String}

theorem over_toTerm : (a.toTerm x).Over fun _ => True := by
  unfold toTerm multiple
  split_ifs <;> simp

theorem rebuild_toTerm : Term.rebuild Term.multiplyOut (a.toTerm x) = a.toTerm x := by
  have hnumber (q : ℚ) : Term.rebuild Term.multiplyOut (.num q) = .num q := by simp [Term.rebuild, Term.multiplyOut]
  unfold toTerm
  by_cases hslope : a.slope = 0
  · rw [if_pos hslope]
    exact hnumber a.offset
  · rw [if_neg hslope]
    split
    · exact Term.rebuild_multiple hslope
    · have hsame := (over_toTerm (a := ⟨a.slope, 0⟩) (x := x)).same_self
      rw [Term.toTerm_multiple hslope] at hsame
      have hall : Term.sameAll [.num a.offset, multiple a.slope x] [.num a.offset, multiple a.slope x] = true :=
        Term.sameAll_self (by simpa using ⟨(Term.Over.num (P := fun _ => True) a.offset).same_self, hsame⟩)
      simp [Term.rebuild, Term.rebuildAll, Term.rebuild_multiple hslope, hall, Term.multiplyOut]

theorem isUndefined_toTerm : (a.toTerm x).isUndefined = false := by
  unfold toTerm multiple
  split_ifs <;> rfl

/-- There is nothing to multiply out in an expanded sum. -/
theorem expandProducts_toTerm : Term.expandProducts (a.toTerm x) = a.toTerm x := by
  have hrounds : Term.expansionRounds = 11 + 1 := rfl
  rw [Term.expandProducts, hrounds, Term.untilStable, rebuild_toTerm, if_pos over_toTerm.same_self]

end Affine

namespace Term

/-! ## Below the line -/

theorem parts_summand (h : Summand t) : ∀ u ∈ t.parts, Summand u := by
  cases h with
  | number q => simpa [parts] using Summand.number q
  | @multiple k x hk =>
    have hself : Summand (multiple k x) := .multiple x hk
    have hvar : Summand (.var x) := .multiple x one_ne_zero
    unfold multiple at hself ⊢
    split
    · simpa [parts] using hvar
    · next hone =>
      rw [if_neg hone] at hself
      simpa [parts, partsOfAll] using ⟨hself, .number k, hvar⟩

theorem partsOfAll_eq_flatMap : partsOfAll ts = ts.flatMap parts := by
  induction ts with
  | nil => rfl
  | cons t rest ih => rw [partsOfAll, ih, List.flatMap_cons]

theorem fraction_summand (h : Summand t) : ∃ q, (fraction t).2 = .num q := by
  cases h with
  | number q =>
    by_cases hden : q.den = 1
    · exact ⟨1, by simp [fraction, factorsOf, fractionFactors, hden, product_nil, one]⟩
    · exact ⟨q.den, by simp [fraction, factorsOf, fractionFactors, hden, product_number]⟩
  | multiple x hk => exact ⟨_, congrArg Prod.snd (fraction_multiple hk)⟩

/-- Only numbers are below the line of a linear sum. -/
theorem denominators_summands (h : ∀ t ∈ ts, Summand t) : denominators (.var x) (.add ts) = [] := by
  have hbelow : ∀ t ∈ (Term.add ts).parts, ∃ q, (fraction t).2 = .num q := by
    intro t ht
    rw [parts, partsOfAll_eq_flatMap] at ht
    rcases List.mem_cons.mp ht with rfl | ht
    · exact ⟨1, rfl⟩
    · obtain ⟨u, hu, ht⟩ := List.mem_flatMap.mp ht
      exact fraction_summand (parts_summand (h u hu) t ht)
  have hnone : ((Term.add ts).parts.flatMap fun t => (fraction t).2.factorsOf).filter (occursIn (.var x)) = [] := by
    apply List.filter_eq_nil_iff.mpr
    intro u hu
    obtain ⟨t, ht, hu⟩ := List.mem_flatMap.mp hu
    obtain ⟨q, hq⟩ := hbelow t ht
    rw [hq, factorsOf, List.mem_singleton] at hu
    · rw [hu, occursIn_number]
      exact Bool.false_ne_true
    · simp
  rw [denominators, hnone, List.map_nil]

/-! ## The numerator of a linear equation -/

theorem exists_constantTerms (c : ℚ) : ∀ t ∈ constantTerms c, ∃ q, t = .num q := by
  unfold constantTerms
  split
  · simp
  · simp

theorem sum_constantTerms (c : ℚ) : ((constantTerms c).map numberPart).sum = c := by
  unfold constantTerms
  split
  · next hzero => simp [hzero]
  · simp

theorem occursIn_constantTerms (c : ℚ) : (constantTerms c).any (occursIn (.var x)) = false := by
  apply List.any_eq_false.mpr
  intro t ht
  obtain ⟨q, rfl⟩ := exists_constantTerms c t ht
  rw [occursIn_number]
  exact Bool.false_ne_true

variable {c l m : ℚ} {vs : List Term}

theorem occursIn_numerator (hvs : vs.Perm [multiple l y, multiple m x]) :
    occursIn (.var x) (ofTerms (constantTerms c ++ vs)) = true := by
  rw [occursIn_ofTerms]
  apply List.any_eq_true.mpr
  refine ⟨multiple m x, List.mem_append_right _ (hvs.mem_iff.mpr (by simp)), ?_⟩
  rw [occursIn_multiple, beq_self_eq_true]

theorem ofTerms_pair (hvs : vs.Perm [multiple l y, multiple m x]) :
    ofTerms (constantTerms c ++ vs) = .add (constantTerms c ++ vs) := by
  rcases List.perm_pair.mp hvs with rfl | rfl
  all_goals
    unfold constantTerms
    split <;> rfl

/-- The derivative of the numerator is the coefficient of the variable. -/
theorem derivative_numerator (h : x ≠ y) (hvs : vs.Perm [multiple l y, multiple m x]) :
    derivative (.var x) (.add (constantTerms c ++ vs)) = .num m := by
  have hconstants : (constantTerms c).map (derivative (.var x)) = (constantTerms c).map fun _ => zero := by
    apply List.map_congr_left
    intro t ht
    obtain ⟨q, rfl⟩ := exists_constantTerms c t ht
    exact derivative_number
  have hperm : ((constantTerms c ++ vs).map (derivative (.var x))).Perm
      ((constantTerms c).map (fun _ => zero) ++ [.num 0, .num m]) := by
    have hmapped := (hvs.map (derivative (.var x))).append_left ((constantTerms c).map (derivative (.var x)))
    simpa [hconstants, derivative_multiple, h.symm] using hmapped
  have hnumbers : ∀ t ∈ (constantTerms c).map (fun _ => zero) ++ [.num 0, .num m], ∃ q, t = num q := by
    intro t ht
    rcases List.mem_append.mp ht with ht | ht
    · obtain ⟨-, -, rfl⟩ := List.mem_map.mp ht
      exact ⟨0, rfl⟩
    · simp only [List.mem_cons, List.not_mem_nil, or_false] at ht
      exact ht.elim (fun h => ⟨0, h⟩) fun h => ⟨m, h⟩
  rw [derivative, derivativeTerms_eq_map, sum_numbers hperm hnumbers]
  simp [zero]

/-- At zero the numerator is an affine function of the other variable. -/
theorem substitute_numerator (h : x ≠ y) (hl : l ≠ 0) (hm : m ≠ 0) (hvs : vs.Perm [multiple l y, multiple m x]) :
    substitute (.var x) zero (.add (constantTerms c ++ vs)) = (⟨l, c⟩ : Affine).toTerm y := by
  have hconstants : (constantTerms c).map (substitute (.var x) zero) = constantTerms c := by
    refine Eq.trans (List.map_congr_left fun t ht => ?_) (List.map_id _)
    obtain ⟨q, rfl⟩ := exists_constantTerms c t ht
    exact substitute_number zero
  have hperm : ((constantTerms c ++ vs).map (substitute (.var x) zero)).Perm
      ((constantTerms c ++ [zero]) ++ [multiple l y]) := by
    have hmapped := (hvs.map (substitute (.var x) zero)).append_left (constantTerms c)
    have hpair : [multiple l y, multiple m x].map (substitute (.var x) zero) = [multiple l y, zero] := by
      simp [substitute_multiple, hl, hm, h.symm]
    have hswapped : (constantTerms c ++ [multiple l y, zero]).Perm (constantTerms c ++ [zero] ++ [multiple l y]) := by
      rw [List.append_assoc]
      exact (List.Perm.swap _ _ _).append_left _
    rw [hpair] at hmapped
    rw [List.map_append, hconstants]
    exact hmapped.trans hswapped
  have hnumbers : ∀ t ∈ constantTerms c ++ [zero], ∃ q, t = num q := by
    intro t ht
    rcases List.mem_append.mp ht with ht | ht
    · exact exists_constantTerms c t ht
    · exact ⟨0, List.mem_singleton.mp ht⟩
  have hadd : (add (constantTerms c ++ vs) == var x) = false := rfl
  have hsum : ((constantTerms c ++ [zero]).map numberPart).sum = c := by
    rw [List.map_append, List.sum_append, sum_constantTerms]
    simp [zero]
  rw [substitute, hadd, substituteAll_eq_map, sum_multiple hperm hnumbers hl, hsum]
  rfl

open Equation (firstLook)

/-- An equation that an affine function of a variable is a multiple of another variable is linear. -/
theorem firstLook_equation (h : x ≠ y) (a : Affine) :
    firstLook (.var x) (.add (.var y :: (a.constants ++ a.multiples x))) =
      if a.slope = 0 then .unsolvable else .linear ((⟨-1 / a.slope, -a.offset / a.slope⟩ : Affine).toTerm y) := by
  obtain ⟨l, hl, vs, hvs, hnumer⟩ := numerDenom_equation h a
  have hbelow := denominators_summands (x := x) (summand_equation a x y)
  unfold firstLook
  simp only [hnumer]
  by_cases hslope : a.slope = 0
  · have hfree : occursIn (.var x) (ofTerms (constantTerms (l * a.offset) ++ vs)) = false := by
      have hvs : vs = [multiple l y] := by
        have hnone : (a.scale l).multiples x = [] := if_pos (by rw [Affine.scale, hslope, mul_zero])
        rw [hnone] at hvs
        exact List.perm_singleton.mp hvs
      rw [occursIn_ofTerms, hvs, List.any_append, List.any_cons, List.any_nil, occursIn_multiple,
        beq_false_of_ne h.symm, occursIn_constantTerms]
      rfl
    simp [hfree, hslope]
  · have hm : l * a.slope ≠ 0 := mul_ne_zero hl hslope
    have hpair : vs.Perm [multiple l y, multiple (l * a.slope) x] := by
      have hone : (a.scale l).multiples x = [multiple (l * a.slope) x] := if_neg hm
      rwa [hone] at hvs
    have hzero : (Term.add (constantTerms (l * a.offset) ++ vs) == zero) = false := rfl
    have hpower : power (.num (l * a.slope)) minusOne = .num (1 / (l * a.slope)) := power_minusOne 199 hm
    have hnegate : negate (.num (1 / (l * a.slope))) = .num (-(1 / (l * a.slope))) := rfl
    have hsolution := (Affine.product_number (a := ⟨l, l * a.offset⟩) (x := y) (-(1 / (l * a.slope)))).1
    have hscale : (⟨l, l * a.offset⟩ : Affine).scale (-(1 / (l * a.slope))) = ⟨-1 / a.slope, -a.offset / a.slope⟩ := by
      simp only [Affine.scale, Affine.mk.injEq]
      constructor <;> field_simp
    rw [occursIn_numerator hpair, ofTerms_pair hpair, derivative_numerator h hpair,
      substitute_numerator h hl hm hpair, hzero, hpower, hnegate, hsolution, hscale]
    have hnone : (Term.num (l * a.slope)).unknowns = [] := rfl
    simp [hnone, beq_zero hm, occursIn_number, Affine.expandProducts_toTerm, Affine.isUndefined_toTerm, hbelow, hslope]

end Term

variable {a : Affine} {x y : String}

theorem Affine.termsOf_toTerm : (a.toTerm x).termsOf = a.constants ++ a.multiples x := by
  have hmultiple : (multiple a.slope x).termsOf = [multiple a.slope x] := by
    unfold multiple
    split <;> rfl
  unfold toTerm constants multiples
  by_cases hslope : a.slope = 0
  · simp [hslope, Term.termsOf]
  · by_cases hoffset : a.offset = 0
    · simp [hslope, hoffset, hmultiple]
    · simp [hslope, hoffset, Term.termsOf]

theorem Affine.isLinear_toTerm (h : a.slope ≠ 0) : (a.toTerm x).isLinear = true := by
  unfold toTerm multiple
  rw [if_neg h]
  split_ifs <;> rfl

theorem Affine.hasPart_toTerm {p : Term → Bool} (hnum : ∀ q, p (.num q) = false) (hvar : p (.var x) = false)
    (hmul : ∀ ts, p (.mul ts) = false) (hadd : ∀ ts, p (.add ts) = false) : (a.toTerm x).hasPart p = false := by
  unfold toTerm multiple
  split_ifs <;> simp [Term.hasPart, Term.anyHasPart, hnum, hvar, hmul, hadd]

theorem roundApproximation_toTerm (h : a.slope ≠ 0) : roundApproximation (a.toTerm x) = a.toTerm x := by
  unfold Affine.toTerm multiple
  rw [if_neg h]
  split_ifs <;> rfl

/-- An affine equation has the inverse function as its solution. -/
theorem solutions_toTerm (h : x ≠ y) (a : Affine) :
    solutions (.var x) (.var y) (a.toTerm x) = .ok (some (if a.slope = 0 then [] else [a.inverse.toTerm y])) := by
  have hundefined : (a.toTerm x).hasPart Term.isUndefined = false :=
    Affine.hasPart_toTerm (fun _ => rfl) rfl (fun _ => rfl) fun _ => rfl
  have hinfinite : (a.toTerm x).hasPart Term.isInfinite = false :=
    Affine.hasPart_toTerm (fun _ => rfl) rfl (fun _ => rfl) fun _ => rfl
  have hlook := Term.firstLook_equation h (a.scale (-1))
  have hslope : (a.scale (-1)).slope = 0 ↔ a.slope = 0 := by simp [Affine.scale]
  have hsolution :
      (⟨-1 / (a.scale (-1)).slope, -(a.scale (-1)).offset / (a.scale (-1)).slope⟩ : Affine) = a.inverse := by
    simp only [Affine.scale, Affine.inverse, Affine.mk.injEq]
    constructor <;> ring
  have hdepth : Equation.depth = 39 + 1 := rfl
  rw [hsolution] at hlook
  simp only [hslope] at hlook
  unfold solutions
  rw [hundefined, hinfinite, Affine.negate_toTerm, Affine.termsOf_toTerm, Equation.solve, hdepth,
    Equation.solveWithin, hlook]
  · by_cases hzero : a.slope = 0
    · simp [hzero]
    · have hinverse : a.inverse.slope ≠ 0 := one_div_ne_zero hzero
      have hsimplify : (a.inverse.toTerm y).simplify = a.inverse.toTerm y := if_pos (Affine.isLinear_toTerm hinverse)
      simp [hzero, hsimplify, roundApproximation_toTerm hinverse]
  · simp

end Metrology.Algebra
