import Metrology.Proofs.Algebra.LinearEquation
import Metrology.Proofs.Decimal.Reading

/-! # Exact inverses of affine formulas

A formula of sums, products with a constant and quotients by one is an affine function of its variable,
however these are nested. Its coefficients are found exactly, so that an inverse differs from the exact one by
the rounding of its two coefficients only.
-/
namespace Metrology

namespace Formula.Tree

/-- A formula of finite literals and one variable: at most one factor of a product has the variable, and
divisors are constant and not zero. -/
inductive AffineIn (x : String) : Tree → Prop where
  | number {value : Float} (h : value.isFinite = true) : AffineIn x (.number value)
  | var : AffineIn x (.var x)
  | add {l r : Tree} (hl : AffineIn x l) (hr : AffineIn x r) : AffineIn x (.binary .add l r)
  | sub {l r : Tree} (hl : AffineIn x l) (hr : AffineIn x r) : AffineIn x (.binary .sub l r)
  | mul {l r : Tree} (hl : AffineIn x l) (hr : AffineIn x r) (hfactor : x ∉ l.names ∨ x ∉ r.names) :
      AffineIn x (.binary .mul l r)
  | div {l r : Tree} {c : ℚ} (hl : AffineIn x l) (hr : AffineIn x r) (hne : c ≠ 0)
      (hdivisor : ∀ q, r.rational? x q = some c) : AffineIn x (.binary .div l r)
  | negate {t : Tree} (ht : AffineIn x t) : AffineIn x (.unary .negate t)

namespace AffineIn

variable {x : String} {t : Tree}

theorem names_eq (h : t.AffineIn x) : ∀ name ∈ t.names, name = x := by
  induction h with
  | number h => simp [names]
  | var => simp [names]
  | add _ _ ihl ihr => exact List.forall_mem_append.mpr ⟨ihl, ihr⟩
  | sub _ _ ihl ihr => exact List.forall_mem_append.mpr ⟨ihl, ihr⟩
  | mul _ _ _ ihl ihr => exact List.forall_mem_append.mpr ⟨ihl, ihr⟩
  | div _ _ _ _ ihl ihr => exact List.forall_mem_append.mpr ⟨ihl, ihr⟩
  | negate _ ih => exact ih

theorem vars_eq (h : t.AffineIn x) (hx : x ∈ t.names) : t.vars = [x] := by
  have hnames := h.names_eq
  obtain ⟨name, rest, hlist⟩ := List.exists_cons_of_ne_nil (List.ne_nil_of_mem hx)
  rw [hlist] at hnames
  obtain ⟨rfl, hrest⟩ := List.forall_mem_cons.mp hnames
  have hnone : (rest.filter fun b => !b == name) = [] := by
    apply List.filter_eq_nil_iff.mpr
    intro other hother
    rw [hrest other hother]
    simp
  rw [vars, hlist, List.eraseDups_cons, hnone]
  simp

/-- Without its variable a formula is a constant. -/
theorem rational?_const (h : t.AffineIn x) (hx : x ∉ t.names) (q r : ℚ) : t.rational? x q = t.rational? x r := by
  have hsplit {l r : Tree} (hlr : x ∉ l.names ++ r.names) : x ∉ l.names ∧ x ∉ r.names := by
    simpa [List.mem_append] using hlr
  induction h with
  | number _ => rfl
  | var => exact absurd (List.mem_singleton.mpr rfl) hx
  | add _ _ ihl ihr => simp only [rational?, ihl (hsplit hx).1, ihr (hsplit hx).2]
  | sub _ _ ihl ihr => simp only [rational?, ihl (hsplit hx).1, ihr (hsplit hx).2]
  | mul _ _ _ ihl ihr => simp only [rational?, ihl (hsplit hx).1, ihr (hsplit hx).2]
  | div _ _ _ _ ihl ihr => simp only [rational?, ihl (hsplit hx).1, ihr (hsplit hx).2]
  | negate _ ih => simp only [rational?, ih hx]

end AffineIn

end Formula.Tree

namespace Algebra

open Formula (Tree)

namespace Affine

variable {x : String} {t : Tree} {a : Affine}

theorem slope_eq_zero {c : ℚ} (h : ofTree? x t = some a) (hzero : t.rational? x 0 = some c)
    (hone : t.rational? x 1 = some c) : a.slope = 0 ∧ a.offset = c := by
  rw [rational?_of_ofTree? h] at hzero hone
  have hoffset := Option.some.inj hzero
  have hsum := Option.some.inj hone
  simp only [apply, mul_zero, zero_add] at hoffset
  simp only [apply, mul_one] at hsum
  constructor
  · linarith
  · exact hoffset

theorem slope_of_not_mem (h : ofTree? x t = some a) (ht : t.AffineIn x) (hx : x ∉ t.names) : a.slope = 0 := by
  have hzero : t.rational? x 0 = some (a.apply 0) := rational?_of_ofTree? h
  have hone : t.rational? x 1 = some (a.apply 0) := by rw [ht.rational?_const hx 1 0, hzero]
  exact (slope_eq_zero h hzero hone).1

theorem exists_mul? {a b : Affine} (h : a.slope = 0 ∨ b.slope = 0) : ∃ c, a.mul? b = some c := by
  unfold mul?
  split
  · exact ⟨_, rfl⟩
  · next ha =>
    rw [if_pos (h.resolve_left ha)]
    exact ⟨_, rfl⟩

/-- However the operations are nested, the coefficients are found. -/
theorem exists_ofTree? (h : t.AffineIn x) : ∃ a, ofTree? x t = some a := by
  induction h with
  | number hvalue =>
    obtain ⟨q, hq, -⟩ := exists_literalValue? hvalue
    exact ⟨constant q, by rw [ofTree?, hq, Option.map_some]⟩
  | var => exact ⟨identity, by simp [ofTree?]⟩
  | add _ _ ihl ihr =>
    obtain ⟨a, ha⟩ := ihl
    obtain ⟨b, hb⟩ := ihr
    exact ⟨a.add b, by simp only [ofTree?, ha, hb]⟩
  | sub _ _ ihl ihr =>
    obtain ⟨a, ha⟩ := ihl
    obtain ⟨b, hb⟩ := ihr
    exact ⟨a.add (b.scale (-1)), by simp only [ofTree?, ha, hb]⟩
  | mul hl hr hfactor ihl ihr =>
    obtain ⟨a, ha⟩ := ihl
    obtain ⟨b, hb⟩ := ihr
    -- The factor without the variable has slope zero.
    obtain ⟨c, hc⟩ := exists_mul? (hfactor.imp (slope_of_not_mem ha hl) (slope_of_not_mem hb hr))
    exact ⟨c, by simp only [ofTree?, ha, hb, hc]⟩
  | div _ _ hne hdivisor ihl ihr =>
    obtain ⟨a, ha⟩ := ihl
    obtain ⟨b, hb⟩ := ihr
    obtain ⟨hslope, hoffset⟩ := slope_eq_zero hb (hdivisor 0) (hdivisor 1)
    have hdiv : a.div? b = some (a.scale (1 / b.offset)) := if_pos ⟨hslope, by rwa [hoffset]⟩
    exact ⟨a.scale (1 / b.offset), by simp only [ofTree?, ha, hb, hdiv]⟩
  | negate _ ih =>
    obtain ⟨a, ha⟩ := ih
    exact ⟨a.scale (-1), by rw [ofTree?, ha, Option.map_some]⟩

end Affine

open Decimal (Nearest)

variable {f : Formula} {x y : String}

/-- What the inverse of an affine formula rests on: an affine equation has its exact solution as the only one,
written as an expanded sum, and no solution if the function is constant. -/
structure Solver.SolvesAffine (solve : Solver) : Prop where
  linear {x y : String} {a : Affine} (hne : x ≠ y) (hslope : a.slope ≠ 0) :
    ∃ b : Affine, (∀ q, a.apply (b.apply q) = q) ∧ solve (.var x) (.var y) (a.toTerm x) = .ok (some [b.toTerm y])
  constant {x y : String} {a : Affine} (hne : x ≠ y) (hslope : a.slope = 0) :
    solve (.var x) (.var y) (a.toTerm x) = .ok (some [])

theorem solvesAffine_solutions : Solver.SolvesAffine solutions where
  linear {x y a} hne hslope := by
    refine ⟨a.inverse, fun q => Affine.apply_inverse hslope, ?_⟩
    rw [solutions_toTerm hne, if_neg hslope]
  constant {x y a} hne hslope := by rw [solutions_toTerm hne, if_pos hslope]

section

variable {solve : Solver} {a : Affine}

theorem Solver.SolvesAffine.eq_inverse (hsolve : solve.SolvesAffine) (hne : x ≠ y) (hslope : a.slope ≠ 0) :
    solve (.var x) (.var y) (a.toTerm x) = .ok (some [a.inverse.toTerm y]) := by
  obtain ⟨b, hundo, hb⟩ := hsolve.linear hne hslope
  rw [hb, Affine.eq_inverse hslope hundo]

theorem invertWith_of_ofTree? (hsolve : solve.SolvesAffine) (ha : Affine.ofTree? x f.tree = some a)
    (hvars : f.vars = [x]) (hne : y ≠ x) :
    invertWith solve f x y = .ok (if a.slope = 0 then none else some (Formula.ofTree (a.inverse.toTree y))) := by
  have hguard : f.vars = [x] ∧ (!isPiecewise f.tree) = true := ⟨hvars, by rw [Affine.isPiecewise_of_ofTree? ha]; rfl⟩
  rw [invertWith, if_pos hguard]
  simp only [Affine.ofTree_of_ofTree? ha]
  by_cases hslope : a.slope = 0
  · simp only [hsolve.constant hne.symm hslope, if_pos hslope]
  · simp only [hsolve.eq_inverse hne.symm hslope, if_neg hslope, Affine.toTree_toTerm]
    rfl

end

theorem invert_affine {back : Formula} {a : Affine} (hne : x ≠ y) (ha : Affine.ofTree? x f.tree = some a)
    (h : invert f x y = .ok (some back)) : a.slope ≠ 0 ∧ back.tree = a.inverse.toTree y := by
  obtain ⟨hvars, -⟩ := invertWith_eq_some h
  rw [invert, invertWith_of_ofTree? solvesAffine_solutions ha hvars hne.symm] at h
  split at h
  · cases h
  · next hslope =>
    cases h
    exact ⟨hslope, rfl⟩

/-- An affine formula is read as its expanded sum, and has an inverse exactly if its slope is not zero. The
inverse is the exact solution with both coefficients rounded to the nearest doubles; an offset of zero and a
slope of one are left out. -/
theorem invert_exact {solve : Solver} (hsolve : solve.SolvesAffine) (hf : f.tree.AffineIn x) (hx : x ∈ f.tree.names)
    (hne : y ≠ x) :
    (∀ value : Float, value.isFinite = true → ∃ q, literalValue? value = some q ∧ Denotes value q) ∧
    ∃ k d : ℚ, (∀ v, f.tree.rational? x v = some (k * v + d)) ∧ Term.ofTree f.tree = .ok (Affine.toTerm ⟨k, d⟩ x) ∧
      (k = 0 → invertWith solve f x y = .ok none) ∧
      (k ≠ 0 → ∃ (back : Formula) (K D : Float), invertWith solve f x y = .ok (some back) ∧ back.vars = [y] ∧
        Nearest (1 / k) K ∧ Nearest (-d / k) D ∧
        solve (.var x) (.var y) (Affine.toTerm ⟨k, d⟩ x) = .ok (some [Affine.toTerm ⟨1 / k, -d / k⟩ y]) ∧
        (Affine.toTerm ⟨1 / k, -d / k⟩ y).toTree = .ok back.tree ∧
        let product : Tree := if k = 1 then .var y else .binary .mul (.number K) (.var y)
        back.tree = if d = 0 then product else .binary .add (.number D) product) := by
  obtain ⟨a, ha⟩ := Affine.exists_ofTree? hf
  have hvars : f.vars = [x] := hf.vars_eq hx
  have hinvert := invertWith_of_ofTree? hsolve ha hvars hne
  refine ⟨fun value hvalue => exists_literalValue? hvalue, a.slope, a.offset, fun v => ?_, ?_,
    fun hzero => ?_, fun hslope => ?_⟩
  · exact Affine.rational?_of_ofTree? ha
  · exact Affine.ofTree_of_ofTree? ha
  · rw [hinvert, if_pos hzero]
  · have hinverse : a.inverse.slope ≠ 0 := one_div_ne_zero hslope
    have hone : a.inverse.slope = 1 ↔ a.slope = 1 := by
      rw [Affine.inverse, div_eq_iff hslope, one_mul, eq_comm]
    have hzero : a.inverse.offset = 0 ↔ a.offset = 0 := by
      rw [Affine.inverse, div_eq_iff hslope, zero_mul, neg_eq_zero]
    refine ⟨Formula.ofTree (a.inverse.toTree y), Decimal.ofRat (1 / a.slope),
      Decimal.ofRat (-a.offset / a.slope), ?_, ?_,
      Decimal.nearest_ofRat _, Decimal.nearest_ofRat _, hsolve.eq_inverse hne.symm hslope, Affine.toTree_toTerm, ?_⟩
    · rw [hinvert, if_neg hslope]
    · exact Affine.vars_toTree hinverse y
    · simp only [Formula.ofTree, Affine.toTree, if_neg hinverse, hone, hzero]
      rfl

def fahrenheit : Formula where
  text := "{C} * 9 / 5 + 32"
  tree := .binary .add (.binary .div (.binary .mul (.var "C") (.number 9)) (.number 5)) (.number 32)

theorem invert_exact_fahrenheit : ∃ (back : Formula) (K D : Float),
    invert fahrenheit "C" "F" = .ok (some back) ∧ back.vars = ["F"] ∧ Nearest (5 / 9) K ∧ Nearest (-160 / 9) D ∧
      back.tree = .binary .add (.number D) (.binary .mul (.number K) (.var "F")) := by
  have hfive : ∀ q, (Tree.number 5).rational? "C" q = some 5 := by
    intro q
    have hliteral : literalValue? 5 = some 5 := by decide +kernel
    rw [Tree.rational?, hliteral]
  have hfactor : "C" ∉ (Tree.number 9).names := by simp [Tree.names]
  have hf : fahrenheit.tree.AffineIn "C" :=
    .add (.div (.mul .var (.number (by decide +kernel)) (Or.inr hfactor)) (.number (by decide +kernel))
      (by norm_num) hfive)
      (.number (by decide +kernel))
  have hzero : fahrenheit.tree.rational? "C" 0 = some 32 := by decide +kernel
  have hone : fahrenheit.tree.rational? "C" 1 = some (169 / 5) := by decide +kernel
  obtain ⟨-, k, d, hvalue, -, -, hback⟩ := invert_exact solvesAffine_solutions hf (by simp [fahrenheit, Tree.names])
    (by decide : "F" ≠ "C")
  have hd : d = 32 := by
    have hsame := (hvalue 0).symm.trans hzero
    simpa using hsame
  have hk : k = 9 / 5 := by
    have hsame := (hvalue 1).symm.trans hone
    rw [hd, mul_one] at hsame
    have hsum : k + 32 = 169 / 5 := Option.some.inj hsame
    linarith
  obtain ⟨back, K, D, hinvert, hvars, hK, hD, -, -, htree⟩ := hback (by rw [hk]; norm_num)
  rw [hk] at hK hD htree
  rw [hd] at hD htree
  norm_num at hK hD htree
  exact ⟨back, K, D, hinvert, hvars, hK, by norm_num; exact hD, htree⟩

end Algebra

end Metrology
