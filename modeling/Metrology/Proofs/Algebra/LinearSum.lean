import Mathlib.Data.List.Permutation
import Metrology.Proofs.Algebra.AffineTerm

/-! # Linear sums

A sum of numbers and multiples of different variables is in normal form up to the order of its terms. Its
content is a number, so that its numerator is the sum of the same multiples of its terms.
-/

namespace Metrology.Algebra

namespace Term

/-- A number, or a multiple of a variable other than zero. -/
inductive Summand : Term → Prop
  | number (q : ℚ) : Summand (.num q)
  | multiple {k : ℚ} (x : String) (hk : k ≠ 0) : Summand (multiple k x)

def Apart (s t : Term) : Prop := ((splitCoefficient t).2 == (splitCoefficient s).2) = false

def variablesAmong (ts : List Term) : List Term := ts.filter fun t => !t.isNumber

variable {t : Term} {ts us ns ms : List Term} {x y : String} {k q : ℚ}

theorem beq_var {a b : String} : (Term.var a == Term.var b) = (a == b) := rfl

/-! ## Sums -/

theorem flatTermsAll_summands (h : ∀ t ∈ ts, Summand t) : flatTermsAll ts = ts := by
  induction ts with
  | nil => rfl
  | cons t rest ih =>
    obtain ⟨ht, hrest⟩ := List.forall_mem_cons.mp h
    rw [flatTermsAll, ih hrest]
    cases ht with
    | number q => rfl
    | multiple x hk => rw [flatTerms_multiple, List.singleton_append]

theorem any_summands {p : Term → Bool} (hnumber : ∀ q, p (.num q) = false) (hmultiple : ∀ k x, p (multiple k x) = false)
    (h : ∀ t ∈ ts, Summand t) : ts.any p = false := by
  apply List.any_eq_false.mpr
  intro t ht
  cases h t ht with
  | number q => rw [hnumber]; exact Bool.false_ne_true
  | multiple x hk => rw [hmultiple]; exact Bool.false_ne_true

theorem exists_multiple (h : ∀ t ∈ ts, Summand t) (ht : t ∈ variablesAmong ts) : ∃ k x, k ≠ 0 ∧ t = multiple k x := by
  obtain ⟨ht, hnumber⟩ := List.mem_filter.mp ht
  cases h t ht with
  | number q => cases hnumber
  | multiple x hk => exact ⟨_, x, hk, rfl⟩

theorem collect_apart {c : ℚ} {found : List (ℚ × Term)} (h : ∀ p ∈ found, (t == p.2) = false) :
    collect c t found = found ++ [(c, t)] := by
  induction found with
  | nil => rfl
  | cons p rest ih =>
    obtain ⟨hp, hrest⟩ := List.forall_mem_cons.mp h
    simp only [collect, hp, Bool.false_eq_true, if_false, ih hrest, List.cons_append]

theorem foldl_collect {found : List (ℚ × Term)}
    (hfound : ∀ p ∈ found, ∀ t ∈ ts, ((splitCoefficient t).2 == p.2) = false) (hapart : ts.Pairwise Apart) :
    ts.foldl (fun found t => collect (splitCoefficient t).1 (splitCoefficient t).2 found) found =
      found ++ ts.map splitCoefficient := by
  induction ts generalizing found with
  | nil => rw [List.foldl_nil, List.map_nil, List.append_nil]
  | cons t rest ih =>
    obtain ⟨ht, hrest⟩ := List.pairwise_cons.mp hapart
    rw [List.foldl_cons, collect_apart fun p hp => hfound p hp t List.mem_cons_self]
    have hgrown : ∀ p ∈ found ++ [((splitCoefficient t).1, (splitCoefficient t).2)], ∀ u ∈ rest,
        ((splitCoefficient u).2 == p.2) = false := by
      intro p hp u hu
      rcases List.mem_append.mp hp with hp | hp
      · exact hfound p hp u (List.mem_cons_of_mem _ hu)
      · rw [List.mem_singleton.mp hp]
        exact ht u hu
    rw [ih hgrown hrest, List.append_assoc]
    rfl

def constantTerms (c : ℚ) : List Term := if c = 0 then [] else [.num c]

/-- Numbers are added up, and multiples of different variables are sorted. -/
theorem sum_summands (h : ∀ t ∈ ts, Summand t) (hapart : (variablesAmong ts).Pairwise Apart) :
    sum ts = ofTerms (constantTerms (ts.map numberPart).sum ++ sort (variablesAmong ts)) := by
  have hundefined : (flatTermsAll ts).any isUndefined = false := by
    rw [flatTermsAll_summands h]
    exact any_summands (fun _ => rfl) (fun _ _ => isUndefined_multiple) h
  have hinfinite : (flatTermsAll ts).any isInfinite = false := by
    rw [flatTermsAll_summands h]
    exact any_summands (fun _ => rfl) (fun _ _ => isInfinite_multiple) h
  have hvariables : ts.filter (fun t => !t.isNumber && !t.isInfinite) = variablesAmong ts := by
    apply List.filter_congr
    intro t ht
    cases h t ht with
    | number q => rfl
    | multiple x hk => simp
  have hcollected : (variablesAmong ts).foldl
      (fun found t => collect (splitCoefficient t).1 (splitCoefficient t).2 found) [] =
          (variablesAmong ts).map splitCoefficient :=
    foldl_collect (List.forall_mem_nil _) hapart
  have hkept : ((variablesAmong ts).map splitCoefficient).filter (fun m => m.1 != 0) =
      (variablesAmong ts).map splitCoefficient := by
    apply List.filter_eq_self.mpr
    intro m hm
    obtain ⟨t, ht, rfl⟩ := List.mem_map.mp hm
    obtain ⟨k, x, hk, rfl⟩ := exists_multiple h ht
    simpa using hk
  have hterms : ((variablesAmong ts).map splitCoefficient).map (fun m => withCoefficient m.1 m.2) =
      variablesAmong ts := by
    rw [List.map_map]
    refine Eq.trans (List.map_congr_left fun t ht => ?_) (List.map_id _)
    obtain ⟨k, x, hk, rfl⟩ := exists_multiple h ht
    simp
  rw [sum_finite hundefined hinfinite, flatTermsAll_summands h]
  simp only [hvariables, hcollected, hkept, hterms, constantTerms]
  split
  · rfl
  · rfl

/-! ## The content of a linear sum -/

theorem scale_number (c q : ℚ) : scale c (.num q) = .num (c * q) := by rw [scale]

theorem keepCoefficient_one (c : ℚ) : keepCoefficient c one = .num c := rfl

theorem product_multiple_self : product [.num k, .var x] = if k = 0 then zero else multiple k x := by
  have hvar : Affine.identity.toTerm x = .var x := by simp [Affine.toTerm, Affine.identity, multiple]
  have hscaled := (Affine.product_number (a := Affine.identity) (x := x) k).1
  rw [hvar] at hscaled
  rw [hscaled, Affine.toTerm_scale k (by simp [Affine.identity])]
  simp [Affine.identity]

theorem keepCoefficient_var {c : ℚ} (hc : c ≠ 0) : keepCoefficient c (.var x) = multiple c x := by
  have hvar : (Term.var x == one) = false := rfl
  have hnegate : negate (.var x) = multiple (-1) x := negate_multiple (k := 1)
  have hproduct : product [.num c, .var x] = multiple c x := product_multiple_self.trans (if_neg hc)
  unfold keepCoefficient
  by_cases hone : c = 1
  · simp [hone, hvar, multiple]
  · by_cases hminus : c = -1
    · have hne : (-1 : ℚ) ≠ 1 := by norm_num
      simp [hminus, hne, hvar, hnegate]
    · simp [hone, hminus, hvar, hproduct]

/-- A coefficient that is put back onto what it was taken from. -/
theorem Summand.keepCoefficient_mul {c : ℚ} (h : Summand t) (hc : c ≠ 0) :
    keepCoefficient ((splitCoefficient t).1 * c) (splitCoefficient t).2 = scale c t := by
  cases h with
  | number q =>
    have hsplit : splitCoefficient (.num q) = (q, one) := rfl
    rw [hsplit, keepCoefficient_one, scale_number, mul_comm]
  | multiple x hk => rw [splitCoefficient_multiple, keepCoefficient_var (mul_ne_zero hk hc),
    scale_multiple hc hk, mul_comm]

theorem keepCoefficient_unit (t : Term) : keepCoefficient 1 t = t := by
  unfold keepCoefficient
  split
  · next hone =>
    cases t with
    | num q =>
      have hq : (q == 1) = true := hone
      rw [eq_of_beq hq]
    | _ => cases hone
  · rw [if_pos rfl]

theorem sortTerms_perm (ts : List Term) : (sortTerms ts).Perm ts := by
  have hsort : (sort (ts.filter fun t => !t.isNumber)).Perm (ts.filter fun t => !t.isNumber) := List.mergeSort_perm _ _
  exact (hsort.append_left _).trans (List.filter_append_perm _ ts)

theorem foldl_gcd_one (ps : List (ℚ × Term)) : ps.foldl (fun g p => Nat.gcd g p.1.num.natAbs) 1 = 1 := by
  induction ps with
  | nil => rfl
  | cons p rest ih => rw [List.foldl_cons, Nat.gcd_one_left, ih]

theorem dvd_foldl_lcm (ps : List (ℚ × Term)) {l : Nat} (hl : l ≠ 0) :
    ps.foldl (fun l p => Nat.lcm l p.1.den) l ≠ 0 ∧ l ∣ ps.foldl (fun l p => Nat.lcm l p.1.den) l ∧
      ∀ p ∈ ps, p.1.den ∣ ps.foldl (fun l p => Nat.lcm l p.1.den) l := by
  induction ps generalizing l with
  | nil => exact ⟨hl, dvd_refl l, List.forall_mem_nil _⟩
  | cons p rest ih =>
    obtain ⟨hne, hdvd, hall⟩ := ih (Nat.lcm_ne_zero hl p.1.den_nz)
    refine ⟨hne, (Nat.dvd_lcm_left _ _).trans hdvd, List.forall_mem_cons.mpr ⟨?_, hall⟩⟩
    exact (Nat.dvd_lcm_right _ _).trans hdvd

theorem den_mul_eq_one {l : Nat} (h : q.den ∣ l) : ((l : ℚ) * q).den = 1 := by
  obtain ⟨e, rfl⟩ := h
  have hinteger : ((q.den * e : Nat) : ℚ) * q = ((e * q.num : Int) : ℚ) := by
    calc ((q.den * e : Nat) : ℚ) * q = e * (q * q.den) := by push_cast; ring
      _ = e * q.num := by rw [Rat.mul_den_eq_num]
      _ = ((e * q.num : Int) : ℚ) := by push_cast; rfl
  rw [hinteger]
  rfl

def commonDenominator (ts : List Term) : Nat := (ts.map splitCoefficient).foldl (fun l p => Nat.lcm l p.1.den) 1

theorem commonDenominator_spec (ts : List Term) :
    commonDenominator ts ≠ 0 ∧ ∀ t ∈ ts, (splitCoefficient t).1.den ∣ commonDenominator ts := by
  obtain ⟨hne, -, hall⟩ := dvd_foldl_lcm (ts.map splitCoefficient) one_ne_zero
  exact ⟨hne, fun t ht => hall _ (List.mem_map_of_mem ht)⟩

theorem den_scale (h : ∀ t ∈ ts, Summand t) (ht : t ∈ ts) :
    (splitCoefficient (scale (commonDenominator ts) t)).1.den = 1 := by
  obtain ⟨hne, hdvd⟩ := commonDenominator_spec ts
  have hsplit := hdvd t ht
  cases h t ht with
  | number q => exact den_mul_eq_one hsplit
  | multiple x hk =>
    rw [splitCoefficient_multiple] at hsplit
    rw [scale_multiple (Nat.cast_ne_zero.mpr hne) hk, splitCoefficient_multiple]
    exact den_mul_eq_one hsplit

theorem Summand.scale_one (h : Summand t) : scale 1 t = t := by
  cases h with
  | number q => rw [scale_number, one_mul]
  | multiple x hk => rw [scale_multiple one_ne_zero hk, one_mul]

/-- A sum with a variable of its own has the content one over the common denominator, so its terms are
multiplied by that. -/
theorem primitive_summands (h : ∀ t ∈ Term.var y :: ts, Summand t) :
    ∃ us, primitive (.add (.var y :: ts)) = (1 / (commonDenominator (.var y :: ts) : ℚ), .add us) ∧
      us.Perm ((Term.var y :: ts).map (scale (commonDenominator (.var y :: ts)))) := by
  obtain ⟨hne, -⟩ := commonDenominator_spec (.var y :: ts)
  have hgcd : ((Term.var y :: ts).map splitCoefficient).foldl (fun g p => Nat.gcd g p.1.num.natAbs) 0 = 1 := by
    have hvar : splitCoefficient (.var y) = (1, .var y) := rfl
    simp only [List.map_cons, List.foldl_cons, hvar]
    exact foldl_gcd_one _
  have hinfinite : (Term.var y :: ts).any isInfinite = false :=
    any_summands (fun _ => rfl) (fun _ _ => isInfinite_multiple) h
  have hlcm : ((Term.var y :: ts).map splitCoefficient).foldl (fun l p => Nat.lcm l p.1.den) 1 =
      commonDenominator (.var y :: ts) := rfl
  unfold primitive
  simp only [hgcd, hlcm, hinfinite, true_and]
  by_cases hone : commonDenominator (.var y :: ts) = 1
  · have hscale : (Term.var y :: ts).map (scale 1) = .var y :: ts :=
      (List.map_congr_left fun t ht => (h t ht).scale_one).trans (List.map_id _)
    refine ⟨.var y :: ts, ?_, ?_⟩
    · rw [if_pos hone, hone, Nat.cast_one, div_one]
    · rw [hone, Nat.cast_one, hscale]
  · have hcontent (q : ℚ) : q / mkRat 1 (commonDenominator (.var y :: ts)) = q * commonDenominator (.var y :: ts) := by
      rw [Rat.mkRat_eq_div, Int.cast_one, div_div_eq_mul_div, div_one]
    have hscale : ((Term.var y :: ts).map splitCoefficient).map
        (fun p => keepCoefficient (p.1 / mkRat 1 (commonDenominator (.var y :: ts))) p.2) =
          (Term.var y :: ts).map (scale (commonDenominator (.var y :: ts))) := by
      rw [List.map_map]
      apply List.map_congr_left
      intro t ht
      simp only [Function.comp_apply, hcontent]
      exact (h t ht).keepCoefficient_mul (Nat.cast_ne_zero.mpr hne)
    refine ⟨sortTerms ((Term.var y :: ts).map (scale (commonDenominator (.var y :: ts)))), ?_, sortTerms_perm _⟩
    rw [if_neg hone, if_neg (by simp), ← hscale, Nat.cast_one, Rat.mkRat_eq_div, Int.cast_one]

/-! ## The numerator -/

theorem foldl_addToGroup (us : List Term) (ns : List Term) :
    (us.map fun t => (t, one)).foldl (fun found p => addToGroup p.2 p.1 found) [(one, ns)] = [(one, ns ++ us)] := by
  induction us generalizing ns with
  | nil => rw [List.append_nil]; rfl
  | cons u rest ih =>
    have hone : (one == one) = true := rfl
    rw [List.map_cons, List.foldl_cons, addToGroup, if_pos hone, ih, List.append_assoc, List.singleton_append]

theorem num_of_den (h : q.den = 1) : (q.num : ℚ) = q := by
  rw [← Rat.mul_den_eq_num, h, Nat.cast_one, mul_one]

/-- A term with an integer as coefficient is its own numerator. -/
theorem numerDenomWithin_summand (h : Summand t) (hden : (splitCoefficient t).1.den = 1) (fuel : Nat) :
    numerDenomWithin (fuel + 2) t = (t, one) := by
  cases h with
  | number q =>
    have hq : q.den = 1 := hden
    rw [numerDenomWithin, num_of_den hq, hq]
    rfl
  | @multiple k x hk =>
    rw [splitCoefficient_multiple] at hden
    have hproduct : product [.num k, .var x] = Term.multiple k x := product_multiple_self.trans (if_neg hk)
    have hones : product [one, one] = one := by
      have hone : product [.num 1, .num 1] = .num (1 * 1) := product_numbers 197 1 1
      rwa [one_mul] at hone
    unfold Term.multiple at hproduct ⊢
    split
    · rfl
    · next hne =>
      rw [if_neg hne] at hproduct
      have hdenominator : Term.num (k.den : ℚ) = one := by rw [hden]; rfl
      simp [numerDenomWithin, num_of_den hden, hdenominator, hproduct, hones]

theorem summand_scale {c : ℚ} (h : Summand t) (hc : c ≠ 0) : Summand (scale c t) := by
  cases h with
  | number q =>
    rw [scale_number]
    exact .number _
  | multiple x hk =>
    rw [scale_multiple hc hk]
    exact .multiple x (mul_ne_zero hc hk)

/-- The numerator of a linear sum with a variable of its own is the sum of its terms without their common
denominator. -/
theorem numerDenom_summands (h : ∀ t ∈ Term.var y :: ts, Summand t) :
    ∃ us, (numerDenom (.add (.var y :: ts))).1 = sum us ∧
      us.Perm ((Term.var y :: ts).map (scale (commonDenominator (.var y :: ts)))) := by
  obtain ⟨us, hprimitive, hperm⟩ := primitive_summands h
  refine ⟨us, ?_, hperm⟩
  obtain ⟨hne, -⟩ := commonDenominator_spec (.var y :: ts)
  have hscale : (commonDenominator (.var y :: ts) : ℚ) ≠ 0 := Nat.cast_ne_zero.mpr hne
  have hparts (fuel : Nat) : us.map (numerDenomWithin (fuel + 2)) = us.map fun t => (t, one) := by
    apply List.map_congr_left
    intro u hu
    obtain ⟨t, ht, rfl⟩ := List.mem_map.mp (hperm.mem_iff.mp hu)
    exact numerDenomWithin_summand (summand_scale (h t ht) hscale) (den_scale h ht) fuel
  obtain ⟨u, rest, rfl⟩ : ∃ u rest, us = u :: rest := by
    apply List.exists_cons_of_ne_nil
    rintro rfl
    exact absurd hperm.length_eq (by simp)
  have hfuel : 2 * (Term.add (.var y :: ts)).size + 4 = 2 * (Term.add (.var y :: ts)).size + 1 + 3 := rfl
  have hgroups : ((u :: rest).map fun t => (t, one)).foldl (fun found p => addToGroup p.2 p.1 found) [] =
      [(one, u :: rest)] := foldl_addToGroup rest [u]
  have hnum : (1 / (commonDenominator (.var y :: ts) : ℚ)).num = 1 := by
    rw [one_div]
    exact Rat.inv_natCast_num_of_pos (Nat.pos_of_ne_zero hne)
  rw [numerDenom, hfuel, numerDenomWithin]
  simp only [hprimitive, hparts, hgroups, hnum, Int.cast_one]
  rw [(List.map_congr_left fun t _ => keepCoefficient_unit t).trans (List.map_id _)]

/-! ## Sums up to the order of their terms -/

structure Multiples (ms : List Term) : Prop where
  multiple : ∀ m ∈ ms, ∃ k x, k ≠ 0 ∧ m = multiple k x
  apart : ms.Pairwise fun s t => Apart s t ∧ Apart t s

theorem sum_of_perm (hperm : us.Perm (ns ++ ms)) (hns : ∀ t ∈ ns, ∃ q, t = .num q) (hms : Multiples ms) :
    ∃ vs, vs.Perm ms ∧ sum us = ofTerms (constantTerms (ns.map numberPart).sum ++ vs) := by
  have hsummands : ∀ t ∈ us, Summand t := by
    intro t ht
    rcases List.mem_append.mp (hperm.mem_iff.mp ht) with hn | hm
    · obtain ⟨q, rfl⟩ := hns t hn
      exact .number q
    · obtain ⟨k, x, hk, rfl⟩ := hms.multiple t hm
      exact .multiple x hk
  have hnumbers : variablesAmong ns = [] := by
    apply List.filter_eq_nil_iff.mpr
    intro t ht
    obtain ⟨q, rfl⟩ := hns t ht
    exact Bool.false_ne_true
  have hmultiples : variablesAmong ms = ms := by
    apply List.filter_eq_self.mpr
    intro m hm
    obtain ⟨k, x, hk, rfl⟩ := hms.multiple m hm
    simp
  have hvariables : (variablesAmong us).Perm ms := by
    have hfiltered : (variablesAmong us).Perm (variablesAmong ns ++ variablesAmong ms) := by
      unfold variablesAmong
      rw [← List.filter_append]
      exact hperm.filter _
    rwa [hnumbers, hmultiples, List.nil_append] at hfiltered
  have hapart : (variablesAmong us).Pairwise Apart := by
    have hboth := (hvariables.pairwise_iff fun h => ⟨h.2, h.1⟩).mpr hms.apart
    exact hboth.imp And.left
  have hconstant : (us.map numberPart).sum = (ns.map numberPart).sum := by
    have hzero : (ms.map numberPart).sum = 0 := by
      apply List.sum_eq_zero
      intro q hq
      obtain ⟨m, hm, rfl⟩ := List.mem_map.mp hq
      obtain ⟨k, x, hk, rfl⟩ := hms.multiple m hm
      exact numberPart_multiple
    rw [(hperm.map numberPart).sum_eq, List.map_append, List.sum_append, hzero, add_zero]
  refine ⟨sort (variablesAmong us), (List.mergeSort_perm _ _).trans hvariables, ?_⟩
  rw [sum_summands hsummands hapart, hconstant]

theorem multiples_nil : Multiples [] := ⟨List.forall_mem_nil _, .nil⟩

theorem multiples_single (hk : k ≠ 0) : Multiples [multiple k x] := by
  refine ⟨?_, List.pairwise_singleton _ _⟩
  intro m hm
  exact ⟨k, x, hk, List.mem_singleton.mp hm⟩

theorem apart_multiple {l : ℚ} (h : x ≠ y) : Apart (multiple k x) (multiple l y) := by
  unfold Apart
  rw [splitCoefficient_multiple, splitCoefficient_multiple, beq_var]
  exact beq_eq_false_iff_ne.mpr h.symm

theorem multiples_pair {l : ℚ} (hk : k ≠ 0) (hl : l ≠ 0) (h : x ≠ y) : Multiples [multiple k x, multiple l y] := by
  refine ⟨?_, List.pairwise_pair.mpr ⟨apart_multiple h, apart_multiple h.symm⟩⟩
  exact List.forall_mem_cons.mpr ⟨⟨k, x, hk, rfl⟩, (multiples_single hl).multiple⟩

theorem sum_numbers (hperm : us.Perm ns) (hns : ∀ t ∈ ns, ∃ q, t = .num q) : sum us = .num (ns.map numberPart).sum := by
  have hperm : us.Perm (ns ++ []) := by rwa [List.append_nil]
  obtain ⟨vs, hvs, hsum⟩ := sum_of_perm hperm hns multiples_nil
  rw [hsum, hvs.eq_nil, List.append_nil]
  unfold constantTerms
  split
  · next hzero => rw [hzero]; rfl
  · rfl

theorem sum_multiple (hperm : us.Perm (ns ++ [multiple k y])) (hns : ∀ t ∈ ns, ∃ q, t = .num q) (hk : k ≠ 0) :
    sum us = (⟨k, (ns.map numberPart).sum⟩ : Affine).toTerm y := by
  obtain ⟨vs, hvs, hsum⟩ := sum_of_perm hperm hns (multiples_single hk)
  rw [hsum, List.perm_singleton.mp hvs, Affine.toTerm, if_neg hk]
  unfold constantTerms
  split <;> rfl

/-! ## The numerator of a linear equation -/

variable {a : Affine}

theorem summand_equation (a : Affine) (x y : String) :
    ∀ t ∈ var y :: (a.constants ++ a.multiples x), Summand t := by
  have hvar : Summand (.var y) := .multiple y one_ne_zero
  unfold Affine.constants Affine.multiples
  by_cases hslope : a.slope = 0
  · simpa [hslope] using ⟨hvar, .number a.offset⟩
  · have hmultiple : Summand (multiple a.slope x) := .multiple x hslope
    by_cases hoffset : a.offset = 0
    · simpa [hslope, hoffset] using ⟨hvar, hmultiple⟩
    · simpa [hslope, hoffset] using ⟨hvar, .number a.offset, hmultiple⟩

theorem map_scale_multiples {l : ℚ} (hl : l ≠ 0) : (a.multiples x).map (scale l) = (a.scale l).multiples x := by
  unfold Affine.multiples Affine.scale
  by_cases hslope : a.slope = 0
  · simp [hslope]
  · simp [hslope, hl, scale_multiple hl hslope]

theorem sum_scale_constants (l : ℚ) : ((a.constants.map (scale l)).map numberPart).sum = l * a.offset := by
  unfold Affine.constants
  split
  · simp [scale_number]
  · next h =>
    simp [not_not.mp (not_or.mp h).2]

/-- The numerator of the equation that two affine functions of different variables add up to zero. -/
theorem numerDenom_equation (h : x ≠ y) (a : Affine) : ∃ l : ℚ, l ≠ 0 ∧ ∃ vs,
    vs.Perm (multiple l y :: (a.scale l).multiples x) ∧
      (numerDenom (.add (.var y :: (a.constants ++ a.multiples x)))).1 =
        ofTerms (constantTerms (l * a.offset) ++ vs) := by
  obtain ⟨us, hnumer, hus⟩ := numerDenom_summands (summand_equation a x y)
  set l : ℚ := (commonDenominator (.var y :: (a.constants ++ a.multiples x)) : ℚ) with hl
  have hne : l ≠ 0 := Nat.cast_ne_zero.mpr (commonDenominator_spec _).1
  have hvar : scale l (.var y) = multiple l y := by
    have hscaled := scale_multiple (x := y) hne one_ne_zero
    rwa [multiple, if_pos rfl, mul_one] at hscaled
  have hperm : us.Perm (a.constants.map (scale l) ++ (multiple l y :: (a.scale l).multiples x)) := by
    rw [List.map_cons, List.map_append, hvar, map_scale_multiples hne] at hus
    exact hus.trans List.perm_middle.symm
  have hnumbers : ∀ t ∈ a.constants.map (scale l), ∃ q, t = .num q := by
    unfold Affine.constants
    split
    · simp [scale_number]
    · simp
  have hmultiples : Multiples (multiple l y :: (a.scale l).multiples x) := by
    unfold Affine.multiples
    split
    · exact multiples_single hne
    · next hslope => exact multiples_pair hne hslope h.symm
  obtain ⟨vs, hvs, hsum⟩ := sum_of_perm hperm hnumbers hmultiples
  rw [sum_scale_constants] at hsum
  exact ⟨l, hne, vs, hvs, hnumer.trans hsum⟩

end Term

end Metrology.Algebra
