import Mathlib.Tactic.Linarith
import Metrology.Proofs.Algebra.Affine

/-! # Affine formulas as terms

Among terms an affine function is an expanded sum, its number first. Sums, products with a number and
quotients of such terms are such terms again, so that an affine formula is read as the sum of its two
coefficients, however its operations are nested.
-/
namespace Metrology.Algebra

open Formula (Tree)

namespace Term

def multiple (k : ℚ) (x : String) : Term := if k = 1 then .var x else .mul [.num k, .var x]

def numberPart : Term → ℚ
  | .num q => q
  | _ => 0

variable {k : ℚ} {x : String}

@[simp] theorem numberPart_num (q : ℚ) : numberPart (.num q) = q := rfl

@[simp] theorem flatTerms_multiple : flatTerms (multiple k x) = [multiple k x] := by
  unfold multiple
  split <;> rfl

@[simp] theorem isNumber_multiple : (multiple k x).isNumber = false := by
  unfold multiple
  split <;> rfl

@[simp] theorem isInfinite_multiple : (multiple k x).isInfinite = false := by
  unfold multiple
  split <;> rfl

@[simp] theorem isUndefined_multiple : (multiple k x).isUndefined = false := by
  unfold multiple
  split <;> rfl

@[simp] theorem numberPart_multiple : numberPart (multiple k x) = 0 := by
  unfold multiple
  split <;> rfl

@[simp] theorem splitCoefficient_multiple : splitCoefficient (multiple k x) = (k, .var x) := by
  unfold multiple
  split
  · next hone => rw [hone]; rfl
  · rfl

@[simp] theorem withCoefficient_var : withCoefficient k (.var x) = multiple k x := by
  have hone : (Term.var x == one) = false := rfl
  simp [withCoefficient, multiple, hone]

theorem hasPart_multiple : (multiple k x).hasPart isVariable = true := by
  unfold multiple
  split
  · rfl
  · simp [hasPart, anyHasPart, isVariable]

theorem negateProduct_num (q : ℚ) : negateProduct (.num q) = .num (-q) := rfl

theorem negateProduct_multiple : negateProduct (multiple k x) = multiple (-k) x := by
  unfold multiple
  by_cases hone : k = 1
  · rw [if_pos hone, if_neg (by rw [hone]; norm_num), hone]
    rfl
  · rw [if_neg hone]
    by_cases hminus : k = -1
    · simp [negateProduct, ofFactors, hminus]
    · have hne : -k ≠ 1 := fun h => hminus (by linarith)
      simp [negateProduct, hminus, hne]

theorem negate_multiple : negate (multiple k x) = multiple (-k) x := by
  rw [← negateProduct_multiple]
  unfold multiple
  split <;> rfl

theorem toTree_multiple : (multiple k x).toTree =
    .ok (if k = 1 then .var x else .binary .mul (literal k) (.var x)) := by
  have hpart := hasPart_multiple (k := k) (x := x)
  unfold multiple at hpart ⊢
  split
  · rfl
  · next hne =>
    rw [if_neg hne] at hpart
    rw [toTree_mul, isConstant, hpart]
    rfl

theorem numberRank_le (q : ℚ) : numberRank q ≤ 5 := by
  unfold numberRank
  split_ifs <;> omega

/-- A number stands before a multiple of a variable. -/
theorem sort_number_multiple (d : ℚ) : sort [.num d, multiple k x] = [.num d, multiple k x] := by
  have hrank := numberRank_le d
  have hbefore : (Term.num d).compare (multiple k x) = .lt := by
    unfold multiple
    split
    · exact Nat.compare_eq_lt.mpr (by omega : numberRank d < 7)
    · exact Nat.compare_eq_lt.mpr (by omega : numberRank d < 9)
  apply List.mergeSort_of_pairwise
  simp [hbefore]

/-- The sum of terms none of which is infinite or undefined. -/
theorem sum_finite {ts : List Term} (hundefined : (flatTermsAll ts).any isUndefined = false)
    (hinfinite : (flatTermsAll ts).any isInfinite = false) : sum ts =
      let flat := flatTermsAll ts
      let constant := (flat.map numberPart).sum
      let collected := (flat.filter fun t => !t.isNumber && !t.isInfinite).foldl
        (fun found t => collect (splitCoefficient t).1 (splitCoefficient t).2 found) []
      let terms := (collected.filter fun m => m.1 != 0).map fun m => withCoefficient m.1 m.2
      if constant = 0 then ofTerms (sort terms) else ofTerms (.num constant :: sort terms) := by
  have hnone : (flatTermsAll ts).filter isInfinite = [] := by
    apply List.filter_eq_nil_iff.mpr
    intro t ht hinf
    exact absurd (List.any_eq_false.mp hinfinite t ht) (by simp [hinf])
  unfold sum
  dsimp only
  rw [hnone, hundefined, hinfinite]
  simp only [List.length_nil, Bool.false_or, Bool.false_eq_true, if_false, List.sum_eq_foldl]
  rfl

/-! ## Products with a number -/

section Product

variable (fuel : Nat) {q : ℚ}

theorem gather_number (g : Gathering) (q : ℚ) : gatherWithin (fuel + 1) g (.num q) = g.addNumber q := by
  rw [gatherWithin]

theorem gather_var (g : Gathering) : gatherWithin (fuel + 1) g (.var x) = g.addPower (.var x) := by
  simp [gatherWithin]

theorem gather_mul (g : Gathering) (ts : List Term) :
    gatherWithin (fuel + 1) g (.mul ts) = ts.foldl (gatherWithin fuel) g := by
  rw [gatherWithin]

def gathered (c : ℚ) (ps : List (Term × Term)) : Gathering := { Gathering.start with coefficient := c, powers := ps }

theorem gather_start (q : ℚ) : gatherWithin (fuel + 1) .start (.num q) = gathered q [] := by
  have hnumber : Gathering.start.addNumber q = gathered (1 * q) [] := rfl
  rw [gather_number, hnumber, one_mul]

theorem gather_gathered (c q : ℚ) (ps : List (Term × Term)) :
    gatherWithin (fuel + 1) (gathered c ps) (.num q) = gathered (c * q) ps := by
  rw [gather_number]
  rfl

theorem gather_multiple (c : ℚ) :
    gatherWithin (fuel + 2) (gathered c []) (multiple k x) = gathered (c * k) [(.var x, one)] := by
  unfold multiple
  split
  · next hone =>
    rw [gather_var, hone, mul_one]
    rfl
  · rw [gather_mul, List.foldl_cons, List.foldl_cons, List.foldl_nil, gather_gathered, gather_var]
    rfl

theorem placeTurn_nil : placeTurn 0 [] = ⟨1, [], []⟩ := by
  have hfloor : Rat.floor 0 = 0 := rfl
  simp [placeTurn, hfloor]

theorem finish_gathered (c : ℚ) (ps : List (Term × Term)) : finishWithin (fuel + 1) (gathered c ps) =
    (gathered c ps).assemble 1 (settleWithin fuel 1 (gatherPowers ps)) := by
  have hexponentials : exponentialGroups [] = [] := rfl
  have hjoined : joinRoots [] = ⟨1, []⟩ := rfl
  have hroots : rootGroups [] = [] := rfl
  unfold finishWithin
  simp [gathered, Gathering.start, hexponentials, hjoined, hroots, placeTurn_nil, numbersAmong]

theorem finish_number (c : ℚ) : finishWithin (fuel + 2) (gathered c []) = .num c := by
  have hsettle : settleWithin (fuel + 1) 1 (gatherPowers []) = [] := rfl
  rw [finish_gathered, hsettle]
  simp only [gathered, Gathering.assemble, Gathering.start, numbersAmong, sort, List.filter_nil,
    List.foldl_nil, List.any_nil,
    List.mergeSort_nil, mul_one, Bool.or_false, Bool.false_eq_true, if_false, ofFactors]
  split
  · next hzero => rw [hzero, zero]
  · split
    · next hone => rw [hone, one]
    · rfl

theorem gatherPowers_var : gatherPowers [(.var x, one)] = [(.var x, one)] := by
  simp [gatherPowers, insertExponent, splitCoefficient, scale, one]

theorem settle_var (rounds : Nat) : settleWithin (fuel + 1) rounds [(.var x, one)] = [.var x] := by
  have hzero : (one == zero) = false := rfl
  have hone : (one == one) = true := rfl
  unfold settleWithin
  cases rounds <;> simp [hzero, hone]

theorem finish_var (c : ℚ) :
    finishWithin (fuel + 2) (gathered c [(.var x, one)]) = if c = 0 then zero else multiple c x := by
  have hnumber : (Term.var x).isNumber = false := rfl
  have hundefined : (Term.var x).isUndefined = false := rfl
  have hinfinite : (Term.var x).isInfinite = false := rfl
  rw [finish_gathered, gatherPowers_var, settle_var]
  simp [gathered, Gathering.assemble, Gathering.start, numbersAmong, sort, ofFactors, multiple, hnumber,
    hundefined, hinfinite]

theorem beq_one (hq : q ≠ 1) : (Term.num q == one) = false := by
  change (q == 1) = false
  exact beq_eq_false_iff_ne.mpr hq

theorem one_beq_one : (Term.num 1 == one) = true := rfl

theorem product_numbers (p q : ℚ) : productWithin (fuel + 3) [.num p, .num q] = .num (p * q) := by
  unfold productWithin
  by_cases hp : p = 1
  · by_cases hq : q = 1
    · simp [one_beq_one, hp, hq]
      rfl
    · simp [one_beq_one, beq_one, hp, hq]
  · by_cases hq : q = 1
    · simp [one_beq_one, beq_one, hp, hq]
    · simp [beq_one, hp, hq, gather_start, gather_gathered, finish_number]

/-- Whichever factor comes first, a number and a multiple of a variable are gathered. -/
theorem product_multiple (hq : q ≠ 1) (hk : k ≠ 0) :
    productWithin (fuel + 3) [.num q, multiple k x] = (if q = 0 then zero else multiple (q * k) x) ∧
      productWithin (fuel + 3) [multiple k x, .num q] = (if q = 0 then zero else multiple (q * k) x) := by
  have hfinish :
    finishWithin (fuel + 2) (gatherWithin (fuel + 2) (gatherWithin (fuel + 2) .start (.num q)) (multiple k x)) =
      if q = 0 then zero else multiple (q * k) x := by
    rw [gather_start, gather_multiple, finish_var]
    simp [hk]
  unfold productWithin
  unfold multiple at hfinish ⊢
  by_cases hone : k = 1
  · have hvar : (Term.var x == one) = false := rfl
    simp only [hone, if_true] at hfinish ⊢
    simp [beq_one, hq, hvar, hfinish]
  · have hmul : (Term.mul [.num k, .var x] == one) = false := rfl
    simp only [hone, if_false] at hfinish ⊢
    simp [beq_one, hq, hmul, hfinish]

theorem scale_multiple (hq : q ≠ 0) (hk : k ≠ 0) : scale q (multiple k x) = multiple (q * k) x := by
  unfold multiple
  by_cases hone : q = 1
  · by_cases hsame : k = 1
    · simp [scale, hone, hsame]
    · simp [scale, hone, hsame, hk]
  · by_cases hsame : k = 1
    · simp [scale, hsame, hq, hone]
    · simp [scale, hsame, hq, hk, ofFactors]

/-- A number is multiplied into the terms of a sum. -/
theorem product_sum (hq : q ≠ 1) (hk : k ≠ 0) (d : ℚ) :
    productWithin (fuel + 1) [.num q, .add [.num d, multiple k x]] =
        (if q = 0 then zero else .add [.num (q * d), multiple (q * k) x]) ∧
      productWithin (fuel + 1) [.add [.num d, multiple k x], .num q] =
        (if q = 0 then zero else .add [.num (q * d), multiple (q * k) x]) := by
  have hadd : (Term.add [.num d, multiple k x] == one) = false := rfl
  have hscale : scale q (.add [.num d, multiple k x]) =
      if q = 0 then zero else .add [.num (q * d), multiple (q * k) x] := by
    rw [scale]
    split
    · rfl
    · next hzero =>
      rw [scaleAll, scaleAll, scaleAll, scale, scale_multiple hzero hk, sort_number_multiple]
  unfold productWithin
  simp [beq_one, hadd, hq, hscale]

/-- The reciprocal of a number. -/
theorem power_minusOne (hq : q ≠ 0) : powerWithin (fuel + 1) (.num q) minusOne = .num (1 / q) := by
  have hinteger : powerWithin (fuel + 1) (.num q) minusOne = if q = 1 then one else integerPower q (-1) := by
    -- Zero, one and infinity are no exponents here, and the base is a number; the cases left are those of
    -- numbers.
    unfold powerWithin
    split
    case h_2 heq => exact absurd (Term.num.inj heq) (by decide)
    case h_3 heq => exact absurd (Term.num.inj heq) (by decide)
    case h_6 heq _ _ _ _ => exact (if_pos (Term.num.inj heq)).symm
    case h_7 p r _ _ hp hbase hexponent =>
      obtain rfl := Term.num.inj hbase
      obtain rfl := Term.num.inj hexponent
      exact (if_neg hp).symm
    case h_8 heq _ _ _ _ _ => exact absurd (Term.num.inj heq) hq
    case h_14 h _ _ _ _ => exact absurd rfl (h q (-1) rfl)
    all_goals contradiction
  rw [hinteger]
  split
  · next hone => rw [hone, div_one, one]
  · next hone =>
    unfold integerPower
    rw [if_neg hq, if_neg hone]
    split
    · next hminus => rw [hminus]; norm_num
    · simp [powerLimit]

end Product

end Term

namespace Affine

open Term (multiple)

variable {a b c : Affine} {x : String}

/-- The function as an expanded sum, the number first. -/
def toTerm (a : Affine) (x : String) : Term :=
  if a.slope = 0 then .num a.offset
  else if a.offset = 0 then multiple a.slope x
  else .add [.num a.offset, multiple a.slope x]

/-! ## Sums -/

def multiples (a : Affine) (x : String) : List Term := if a.slope = 0 then [] else [multiple a.slope x]

def constants (a : Affine) : List Term := if a.slope = 0 ∨ a.offset ≠ 0 then [.num a.offset] else []

theorem flatTerms_toTerm : Term.flatTerms (a.toTerm x) = a.constants ++ a.multiples x := by
  unfold toTerm constants multiples
  by_cases hslope : a.slope = 0
  · simp [hslope, Term.flatTerms]
  · by_cases hoffset : a.offset = 0
    · simp [hslope, hoffset]
    · simp [hslope, hoffset, Term.flatTerms, Term.flatTermsAll]

theorem ofTerms_multiples : (if a.offset = 0 then Term.ofTerms (Term.sort (a.multiples x))
    else Term.ofTerms (.num a.offset :: Term.sort (a.multiples x))) = a.toTerm x := by
  unfold toTerm multiples
  by_cases hslope : a.slope = 0
  · by_cases hoffset : a.offset = 0
    · simp [hslope, hoffset, Term.sort, Term.ofTerms, Term.zero]
    · simp [hslope, hoffset, Term.sort, Term.ofTerms]
  · simp [hslope, Term.sort, Term.ofTerms]

theorem any_multiples {p : Term → Bool} (h : p (multiple a.slope x) = false) : (a.multiples x).any p = false := by
  unfold multiples
  split
  · rfl
  · simp [h]

theorem any_constants {p : Term → Bool} (h : ∀ q, p (.num q) = false) : a.constants.any p = false := by
  unfold constants
  split
  · simp [h]
  · rfl

theorem sum_numberPart : ((a.constants ++ a.multiples x).map Term.numberPart).sum = a.offset := by
  unfold constants multiples
  by_cases hslope : a.slope = 0
  · simp [hslope]
  · by_cases hoffset : a.offset = 0
    · simp [hslope, hoffset]
    · simp [hslope, hoffset]

theorem filter_terms :
    (a.constants ++ a.multiples x).filter (fun t => !t.isNumber && !t.isInfinite) = a.multiples x := by
  have hnumber (q : ℚ) : (Term.num q).isNumber = true := rfl
  unfold constants multiples
  by_cases hslope : a.slope = 0
  · simp [hslope, hnumber]
  · by_cases hoffset : a.offset = 0
    · simp [hslope, hoffset]
    · simp [hslope, hoffset, hnumber]

/-- Multiples of one variable are collected. -/
theorem collect_multiples : (((a.multiples x ++ b.multiples x).foldl
    (fun found t => Term.collect (Term.splitCoefficient t).1 (Term.splitCoefficient t).2 found) []).filter
      fun m => m.1 != 0).map (fun m => Term.withCoefficient m.1 m.2) = (a.add b).multiples x := by
  have hsame : (Term.var x == Term.var x) = true := (Term.Over.var (P := fun _ => True) trivial).same_self
  have hslope : (a.add b).slope = b.slope + a.slope := add_comm a.slope b.slope
  -- Two multiples become one, or none if their factors cancel out.
  unfold multiples
  rw [hslope]
  by_cases ha : a.slope = 0
  · by_cases hb : b.slope = 0
    · simp [ha, hb]
    · simp [ha, hb, Term.collect]
  · by_cases hb : b.slope = 0
    · simp [ha, hb, Term.collect]
    · by_cases hsum : b.slope + a.slope = 0
      · simp [ha, hb, Term.collect, hsame, hsum]
      · simp [ha, hb, Term.collect, hsame, hsum]

theorem sum_toTerm : Term.sum [a.toTerm x, b.toTerm x] = (a.add b).toTerm x := by
  have hflat : Term.flatTermsAll [a.toTerm x, b.toTerm x] =
      (a.constants ++ a.multiples x) ++ (b.constants ++ b.multiples x) := by
    simp only [Term.flatTermsAll, flatTerms_toTerm, List.append_nil]
  have hnone {p : Term → Bool} (hnumber : ∀ q, p (.num q) = false) (hmultiple : ∀ k, p (multiple k x) = false) :
      (Term.flatTermsAll [a.toTerm x, b.toTerm x]).any p = false := by
    simp only [hflat, List.any_append, any_constants hnumber, any_multiples (hmultiple _), Bool.or_self]
  have hsum := Term.sum_finite (hnone (p := Term.isUndefined) (fun _ => rfl) (fun _ => Term.isUndefined_multiple))
    (hnone (p := Term.isInfinite) (fun _ => rfl) (fun _ => Term.isInfinite_multiple))
  have hconstant : ((Term.flatTermsAll [a.toTerm x, b.toTerm x]).map Term.numberPart).sum = (a.add b).offset := by
    rw [hflat, List.map_append, List.sum_append, sum_numberPart, sum_numberPart, add]
  have hterms : (Term.flatTermsAll [a.toTerm x, b.toTerm x]).filter (fun t => !t.isNumber && !t.isInfinite) =
      a.multiples x ++ b.multiples x := by
    rw [hflat, List.filter_append, filter_terms, filter_terms]
  rw [hsum]
  simp only [hconstant, hterms, collect_multiples]
  exact ofTerms_multiples

theorem negate_toTerm : Term.negate (a.toTerm x) = (a.scale (-1)).toTerm x := by
  have hscale : a.scale (-1) = ⟨-a.slope, -a.offset⟩ := by rw [scale, neg_one_mul, neg_one_mul]
  rw [hscale]
  unfold toTerm
  by_cases hslope : a.slope = 0
  · simp [hslope, Term.negate, Term.negateProduct_num]
  · by_cases hoffset : a.offset = 0
    · simp [hslope, hoffset, Term.negate_multiple]
    · simp [hslope, hoffset, Term.negate, Term.negateProduct_num, Term.negateProduct_multiple,
        Term.sort_number_multiple]

theorem difference_toTerm : Term.difference (a.toTerm x) (b.toTerm x) = (a.add (b.scale (-1))).toTerm x := by
  rw [Term.difference, negate_toTerm, sum_toTerm]

/-! ## Products and quotients -/

theorem toTerm_of_slope (h : a.slope = 0) : a.toTerm x = .num a.offset := if_pos h

theorem toTerm_scale (q : ℚ) (h : a.slope ≠ 0) : (a.scale q).toTerm x =
    if q = 0 then .zero
    else if a.offset = 0 then multiple (q * a.slope) x
    else .add [.num (q * a.offset), multiple (q * a.slope) x] := by
  by_cases hzero : q = 0
  · rw [if_pos hzero, toTerm_of_slope (by rw [scale, hzero, zero_mul]), scale, hzero, zero_mul, zero_mul]
    rfl
  · have hoffset : q * a.offset = 0 ↔ a.offset = 0 := by rw [mul_eq_zero, or_iff_right hzero]
    rw [if_neg hzero, scale, toTerm, if_neg (mul_ne_zero hzero h)]
    simp only [hoffset]

theorem product_one (fuel : Nat) : Term.productWithin (fuel + 3) [.num 1, a.toTerm x] = a.toTerm x ∧
    Term.productWithin (fuel + 3) [a.toTerm x, .num 1] = a.toTerm x := by
  have hvar : (Term.var x == Term.one) = false := rfl
  have hmul (ts : List Term) : (Term.mul ts == Term.one) = false := rfl
  have hadd (ts : List Term) : (Term.add ts == Term.one) = false := rfl
  unfold toTerm multiple
  by_cases hslope : a.slope = 0
  · simp only [hslope, if_true, Term.product_numbers, one_mul, mul_one, and_self]
  · unfold Term.productWithin
    split_ifs <;> simp [Term.one_beq_one, hvar, hmul, hadd]

theorem product_number (q : ℚ) : Term.product [.num q, a.toTerm x] = (a.scale q).toTerm x ∧
    Term.product [a.toTerm x, .num q] = (a.scale q).toTerm x := by
  by_cases hslope : a.slope = 0
  · have hscale : (a.scale q).toTerm x = .num (q * a.offset) := toTerm_of_slope (by rw [scale, hslope, mul_zero])
    rw [hscale, toTerm_of_slope hslope]
    exact ⟨Term.product_numbers 197 q a.offset, (Term.product_numbers 197 a.offset q).trans (by rw [mul_comm])⟩
  · by_cases hq : q = 1
    · have hscale : a.scale 1 = a := by rw [scale, one_mul, one_mul]
      rw [hq, hscale]
      exact product_one 197
    · rw [toTerm_scale q hslope, toTerm, if_neg hslope]
      by_cases hoffset : a.offset = 0
      · rw [if_pos hoffset, if_pos hoffset]
        exact Term.product_multiple 197 hq hslope
      · rw [if_neg hoffset, if_neg hoffset]
        exact Term.product_sum 199 hq hslope a.offset

theorem product_of_mul? (h : a.mul? b = some c) : Term.product [a.toTerm x, b.toTerm x] = c.toTerm x := by
  unfold mul? at h
  split at h
  · next ha =>
    cases h
    rw [toTerm_of_slope ha]
    exact (product_number a.offset).1
  · split at h
    · next hb =>
      cases h
      rw [toTerm_of_slope hb]
      exact (product_number b.offset).2
    · cases h

theorem quotient_of_div? (h : a.div? b = some c) : Term.quotient (a.toTerm x) (b.toTerm x) = c.toTerm x := by
  unfold div? at h
  split at h
  · next hconstant =>
    obtain ⟨hslope, hoffset⟩ := hconstant
    cases h
    have hpower : Term.power (.num b.offset) .minusOne = .num (1 / b.offset) := Term.power_minusOne 199 hoffset
    rw [Term.quotient, toTerm_of_slope hslope, hpower]
    exact (product_number (1 / b.offset)).2
  · cases h

/-! ## Reading and writing -/

/-- What is read as an affine function is read as its expanded sum among terms. -/
theorem ofTree_of_ofTree? {t : Tree} (h : ofTree? x t = some a) : Term.ofTree t = .ok (a.toTerm x) := by
  have hreads := reads_of_ofTree? h
  clear h
  induction hreads with
  | number hr => simp [Term.ofTree, hr, toTerm, constant]
  | var => simp [Term.ofTree, toTerm, identity, multiple]
  | add _ _ ihl ihr => simp only [Term.ofTree, ihl, ihr, Term.ofBinary, sum_toTerm]
  | sub _ _ ihl ihr => simp only [Term.ofTree, ihl, ihr, Term.ofBinary, difference_toTerm]
  | mul _ _ hmul ihl ihr => simp only [Term.ofTree, ihl, ihr, Term.ofBinary, product_of_mul? hmul]
  | div _ _ hdiv ihl ihr => simp only [Term.ofTree, ihl, ihr, Term.ofBinary, quotient_of_div? hdiv]
  | negate _ ih => simp only [Term.ofTree, ih, negate_toTerm]

/-- The expanded sum is written as the tree of the function. -/
theorem toTree_toTerm : (a.toTerm x).toTree = .ok (a.toTree x) := by
  unfold toTerm toTree
  by_cases hslope : a.slope = 0
  · rw [if_pos hslope, if_pos hslope]
    rfl
  · rw [if_neg hslope, if_neg hslope]
    by_cases hoffset : a.offset = 0
    · rw [if_pos hoffset, if_pos hoffset, Term.toTree_multiple]
    · have hpart : (Term.add [.num a.offset, multiple a.slope x]).hasPart Term.isVariable = true := by
        simp [Term.hasPart, Term.anyHasPart, Term.hasPart_multiple]
      have hnumber : (Term.num a.offset).toTree = .ok (literal a.offset) := rfl
      rw [if_neg hoffset, if_neg hoffset, Term.toTree_add, Term.isConstant, hpart]
      simp only [Term.toTrees, hnumber, Term.toTree_multiple]
      rfl

end Affine

end Metrology.Algebra
