import Metrology.Algebra.Inversion
import Metrology.Proofs.Formula.Evaluation
import Metrology.Proofs.Over.Solution

/-! # Names of inverse formulas

A formula without extrema and remainders is read as a term over its names, and a term is written as a formula
over its names. So an inverse formula that has been found has no name but the one that it is asked in.
-/
namespace Metrology.Algebra

open Formula (Tree)

variable {P : String → Prop} {t : Term} {ts : List Term}

namespace Term

theorem over_withoutImaginary {s : Term} (h : Over P t) (heq : withoutImaginary? t = some s) : Over P s := by
  have hkept {us : List Term} (hus : ∀ u ∈ us, Over P u) : Over P (product (us.filter fun u => !(u == .imaginary))) :=
    .product fun u hu => hus u (List.mem_filter.mp hu).1
  unfold withoutImaginary? at heq
  split at heq
  · cases heq
    simp
  · split at heq
    · cases heq
      exact hkept (over_mul.mp h)
    · cases heq
  · dsimp only at heq
    split at heq
    · cases heq
      exact .sum (List.forall_mem_map.mpr fun u hu => hkept (over_add.mp h u hu).factorsOf)
    · cases heq
  · cases heq

theorem Over.signedCall {f : Callee} (h : Over P t) : Over P (signedCall f t) := by
  unfold Term.signedCall
  split
  · split <;> simp
  · split
    · dsimp only
      split
      · simpa using h.negate
      · exact Over.negate (by simpa using h.negate)
    · simpa using h

theorem Over.circular {f : Callee} (h : Over P t) : Over P (circular f t) := by
  unfold Term.circular
  split
  · simp
  · simp
  · extract_lets turned angle value
    have hangle : Over P angle := by
      dsimp only [angle]
      split
      · exact h.negate
      · exact h
    have hvalue : Over P value := by
      dsimp only [value]
      split
      · next s hs =>
        have hcall : Over P (Term.signedCall f.hyperbolic s) := (over_withoutImaginary hangle hs).signedCall
        split
        · exact hcall
        · exact .product (by simpa using hcall)
      · exact hangle.signedCall
    split
    · exact hvalue.negate
    · exact hvalue

/-! ## Formulas as terms -/

theorem over_ofBinary {op : Formula.Operator} {a b : Term} (hop : op ≠ .mod) (ha : Over P a) (hb : Over P b)
    (heq : ofBinary op a b = .ok t) : Over P t := by
  unfold ofBinary at heq
  split at heq
  · cases heq
    exact .sum (by simp [ha, hb])
  · cases heq
    exact ha.difference hb
  · cases heq
    exact .product (by simp [ha, hb])
  · cases heq
    exact ha.quotient hb
  · cases heq
    exact ha.power hb
  · exact absurd rfl hop
  · cases heq

theorem over_ofCall {f : Formula.Function} (hmax : f ≠ .max) (hmin : f ≠ .min) (hts : ∀ t ∈ ts, Over P t)
    (heq : ofCall f ts = .ok t) : Over P t := by
  have hcircular : (Callee.ofFunction f).isCircular = true := by
    cases f with
    | max => exact absurd rfl hmax
    | min => exact absurd rfl hmin
    | _ => rfl
  unfold ofCall at heq
  simp only [hcircular, if_true] at heq
  split at heq
  · next u =>
    cases heq
    exact (hts u (by simp)).circular
  · cases heq

theorem anyPiecewise_eq_any {trees : List Tree} : anyPiecewise trees = trees.any isPiecewise := by
  induction trees with
  | nil => rfl
  | cons tree rest ih => simp [anyPiecewise, ih]

theorem over_ofTrees {trees : List Tree} (h : ∀ tree ∈ trees, ∀ t, ofTree tree = .ok t → Over P t)
    (heq : ofTrees trees = .ok ts) : ∀ t ∈ ts, Over P t := by
  induction trees generalizing ts with
  | nil =>
    cases heq
    simp
  | cons tree rest ih =>
    obtain ⟨htree, hrest⟩ := List.forall_mem_cons.mp h
    unfold ofTrees at heq
    split at heq
    · cases heq
    · next u hu =>
      split at heq
      · cases heq
      · next us hus =>
        cases heq
        exact List.forall_mem_cons.mpr ⟨htree u hu, ih hrest hus⟩

theorem over_ofTree {tree : Tree} (h : tree.Over P) (hpieces : isPiecewise tree = false) (heq : ofTree tree = .ok t) :
    Over P t := by
  induction h generalizing t with
  | number value =>
    unfold ofTree at heq
    split at heq
    · cases heq
      simp
    · cases heq
  | var hname =>
    cases heq
    exact .var hname
  | @binary op l r _ _ _ ihl ihr =>
    simp only [isPiecewise, Bool.or_eq_false_iff, decide_eq_false_iff_not] at hpieces
    obtain ⟨⟨hop, hl⟩, hr⟩ := hpieces
    unfold ofTree at heq
    split at heq
    · cases heq
    · next a ha =>
      split at heq
      · cases heq
      · next b hb => exact over_ofBinary hop (ihl hl ha) (ihr hr hb) heq
  | unary _ ih =>
    unfold ofTree at heq
    split at heq
    · next u hu =>
      cases heq
      exact (ih hpieces hu).negate
    · cases heq
  | @call f args _ _ ih =>
    simp only [isPiecewise, Bool.or_eq_false_iff, decide_eq_false_iff_not, anyPiecewise_eq_any, List.any_eq_false,
      Bool.not_eq_true] at hpieces
    obtain ⟨⟨hmax, hmin⟩, hargs⟩ := hpieces
    unfold ofTree at heq
    split at heq
    · cases heq
    · next us hus =>
      exact over_ofCall hmax hmin (over_ofTrees (fun tree htree t => ih tree htree (hargs tree htree)) hus) heq

/-! ## Terms as formulas -/

theorem toTree_pow {b e : Term} : toTree (.pow b e) =
    if isConstant (.pow b e) then constantTree (.pow b e)
    else
      match toTree b with
      | .error o => .error o
      | .ok l =>
        match e with
        | .num (-1) => .ok (.binary .div (.number 1.0) l)
        | e =>
          match toTree e with
          | .error o => .error o
          | .ok r => .ok (.binary .pow l r) := by
  -- The match on the exponent is stuck until its numerator and denominator are known to be those of minus one
  -- or not.
  cases e with
  | num q =>
    delta toTree
    obtain ⟨n, d, _, _⟩ := q
    cases n with
    | ofNat n => rfl
    | negSucc n =>
      cases n with
      | zero =>
        match d with
        | 0 => rfl
        | 1 => rfl
        | _ + 2 => rfl
      | succ n => rfl
  | _ =>
    delta toTree
    rfl

theorem toTree_mul : toTree (.mul ts) =
    if isConstant (.mul ts) then constantTree (.mul ts)
    else
      match toTrees ts with
      | .error o => .error o
      | .ok trees => .ok (joined .mul trees) := rfl

theorem toTree_add : toTree (.add ts) =
    if isConstant (.add ts) then constantTree (.add ts)
    else
      match toTrees ts with
      | .error o => .error o
      | .ok trees => .ok (joined .add trees) := rfl

theorem toTree_call {f : Callee} : toTree (.call f ts) =
    if isConstant (.call f ts) then constantTree (.call f ts)
    else if f.toFunction?.isNone && f != .mod then .error (.unknownCall (.call f ts))
    else callTree f ts (toTrees ts) := rfl

section Inversion

variable {b e : Term} {tree : Tree} {trees : List Tree} {f : Callee}

theorem constantTree_eq_ok (h : constantTree t = .ok tree) : ∃ value, tree = .number value := by
  unfold constantTree at h
  split at h
  · cases h
    exact ⟨_, rfl⟩
  · cases h

/-- Without operands there are numbers and names only. -/
theorem toTree_leaf_eq_ok (h : (if t.isConstant then constantTree t else constantTree t) = .ok tree) :
    ∃ value, tree = .number value := by
  rw [ite_self] at h
  exact constantTree_eq_ok h

theorem toTree_var_eq_ok {name : String} (h : toTree (.var name) = .ok tree) :
    (∃ value, tree = .number value) ∨ tree = .var name := by
  change (if isConstant (.var name) then constantTree (.var name) else .ok (.var name)) = _ at h
  split at h
  · exact .inl (constantTree_eq_ok h)
  · cases h
    exact .inr rfl

theorem toTree_pow_eq_ok (h : toTree (.pow b e) = .ok tree) : (∃ value, tree = .number value) ∨
    ∃ l, toTree b = .ok l ∧
        (tree = .binary .div (.number 1.0) l ∨ ∃ r, toTree e = .ok r ∧ tree = .binary .pow l r) := by
  rw [toTree_pow] at h
  split at h
  · exact .inl (constantTree_eq_ok h)
  · split at h
    · cases h
    · next l hl =>
      refine .inr ⟨l, hl, ?_⟩
      split at h
      · cases h
        exact .inl rfl
      · split at h
        · cases h
        · next r hr =>
          cases h
          exact .inr ⟨r, hr, rfl⟩

theorem toTree_mul_eq_ok (h : toTree (.mul ts) = .ok tree) :
    (∃ value, tree = .number value) ∨ ∃ trees, toTrees ts = .ok trees ∧ tree = joined .mul trees := by
  rw [toTree_mul] at h
  split at h
  · exact .inl (constantTree_eq_ok h)
  · split at h
    · cases h
    · next trees htrees =>
      cases h
      exact .inr ⟨trees, htrees, rfl⟩

theorem toTree_add_eq_ok (h : toTree (.add ts) = .ok tree) :
    (∃ value, tree = .number value) ∨ ∃ trees, toTrees ts = .ok trees ∧ tree = joined .add trees := by
  rw [toTree_add] at h
  split at h
  · exact .inl (constantTree_eq_ok h)
  · split at h
    · cases h
    · next trees htrees =>
      cases h
      exact .inr ⟨trees, htrees, rfl⟩

theorem callTree_eq_ok {found : Except Obstacle (List Tree)} (h : callTree f ts found = .ok tree) :
    ∃ trees, found = .ok trees ∧ ((∃ l r, trees = [l, r] ∧ tree = .binary .mod l r) ∨ ∃ g, tree = .call g trees) := by
  cases found with
  | error o => cases h
  | ok trees =>
    refine ⟨trees, rfl, ?_⟩
    unfold callTree at h
    dsimp only at h
    split at h
    · cases h
      exact .inl ⟨_, _, rfl, rfl⟩
    · split at h
      · cases h
        exact .inr ⟨_, rfl⟩
      · cases h

theorem toTree_call_eq_ok (h : toTree (.call f ts) = .ok tree) : (∃ value, tree = .number value) ∨
    ∃ trees, toTrees ts = .ok trees ∧
        ((∃ l r, trees = [l, r] ∧ tree = .binary .mod l r) ∨ ∃ g, tree = .call g trees) := by
  rw [toTree_call] at h
  split at h
  · exact .inl (constantTree_eq_ok h)
  · split at h
    · cases h
    · exact .inr (callTree_eq_ok h)

theorem toTrees_eq_ok {Q : Tree → Prop} (h : ∀ t ∈ ts, ∀ tree, t.toTree = .ok tree → Q tree)
    (heq : toTrees ts = .ok trees) :
    trees.length = ts.length ∧ ∀ tree ∈ trees, Q tree := by
  induction ts generalizing trees with
  | nil =>
    unfold toTrees at heq
    cases heq
    exact ⟨rfl, List.forall_mem_nil _⟩
  | cons t rest ih =>
    obtain ⟨ht, hrest⟩ := List.forall_mem_cons.mp h
    unfold toTrees at heq
    split at heq
    · cases heq
    · next tree htree =>
      split at heq
      · cases heq
      · next others hothers =>
        cases heq
        obtain ⟨hlength, hall⟩ := ih hrest hothers
        exact ⟨by rw [List.length_cons, hlength, List.length_cons], List.forall_mem_cons.mpr ⟨ht tree htree, hall⟩⟩

theorem joined_of_forall {Q : Tree → Prop} {op : Formula.Operator} (hempty : Q (.number 0.0))
    (hbinary : ∀ l r, Q l → Q r → Q (.binary op l r)) (h : ∀ tree ∈ trees, Q tree) : Q (joined op trees) := by
  cases trees with
  | nil => exact hempty
  | cons tree rest =>
    obtain ⟨htree, hrest⟩ := List.forall_mem_cons.mp h
    exact List.foldlRecOn rest _ htree fun l hl r hr => hbinary l r hl (hrest r hr)

end Inversion

/-- Induction on terms with lists of terms in them. -/
theorem nested_induction {motive : Term → Prop} (num : ∀ q, motive (.num q)) (imaginary : motive .imaginary)
    (infinite : motive .infinite) (undefined : motive .undefined) (var : ∀ name, motive (.var name))
    (auxiliary : ∀ i positive, motive (.auxiliary i positive)) (pow : ∀ b e, motive b → motive e → motive (.pow b e))
    (mul : ∀ ts, (∀ t ∈ ts, motive t) → motive (.mul ts)) (add : ∀ ts, (∀ t ∈ ts, motive t) → motive (.add ts))
    (call : ∀ f ts, (∀ t ∈ ts, motive t) → motive (.call f ts)) (t : Term) : motive t :=
  @Term.rec motive (fun ts => ∀ t ∈ ts, motive t) num imaginary infinite undefined var auxiliary pow mul add call
    (List.forall_mem_nil _) (fun _ _ ht hrest => List.forall_mem_cons.mpr ⟨ht, hrest⟩) t

theorem over_toTree {tree : Tree} (h : Over P t) (heq : t.toTree = .ok tree) : tree.Over P := by
  induction h generalizing tree with
  | num | imaginary | infinite | undefined | auxiliary =>
    obtain ⟨value, rfl⟩ := toTree_leaf_eq_ok heq
    exact .number value
  | var hname =>
    obtain ⟨value, rfl⟩ | rfl := toTree_var_eq_ok heq
    · exact .number value
    · exact .var hname
  | pow _ _ ihb ihe =>
    obtain ⟨value, rfl⟩ | ⟨l, hl, rfl | ⟨r, hr, rfl⟩⟩ := toTree_pow_eq_ok heq
    · exact .number value
    · exact .binary rfl (.number 1.0) (ihb hl)
    · exact .binary rfl (ihb hl) (ihe hr)
  | mul _ ih =>
    obtain ⟨value, rfl⟩ | ⟨trees, htrees, rfl⟩ := toTree_mul_eq_ok heq
    · exact .number value
    · exact joined_of_forall (.number 0.0) (fun _ _ => .binary rfl) (toTrees_eq_ok (fun t ht tree => ih t ht) htrees).2
  | add _ ih =>
    obtain ⟨value, rfl⟩ | ⟨trees, htrees, rfl⟩ := toTree_add_eq_ok heq
    · exact .number value
    · exact joined_of_forall (.number 0.0) (fun _ _ => .binary rfl) (toTrees_eq_ok (fun t ht tree => ih t ht) htrees).2
  | call hne _ ih =>
    obtain ⟨value, rfl⟩ | ⟨trees, htrees, htree⟩ := toTree_call_eq_ok heq
    · exact .number value
    · obtain ⟨hlength, hall⟩ := toTrees_eq_ok (fun t ht tree => ih t ht) htrees
      obtain ⟨l, r, rfl, rfl⟩ | ⟨g, rfl⟩ := htree
      · exact .binary rfl (hall l (by simp)) (hall r (by simp))
      · refine .call ?_ hall
        rintro rfl
        exact hne (List.eq_nil_of_length_eq_zero hlength.symm)

end Term

/-! ## Inverse formulas -/

theorem over_roundApproximation (h : t.Over P) : (roundApproximation t).Over P := by
  unfold roundApproximation
  split
  · exact .num _
  · exact h

/-- The variable that the equation is solved for is in no solution, even if the other one has its name. -/
theorem over_solutions {x y : String} {found : List Term} (h : t.Over (· = x))
    (heq : solutions (.var x) (.var y) t = .ok (some found)) : ∀ s ∈ found, s.Over fun name => name = y ∧ name ≠ x := by
  unfold solutions at heq
  split at heq
  · cases heq
  · split at heq
    · have heq := Except.ok.inj heq
      simp only [Option.ite_none_right_eq_some, Option.some.injEq] at heq
      obtain ⟨-, rfl⟩ := heq
      exact List.forall_mem_singleton.mpr Term.over_zero
    · have hside : ∀ u ∈ (Term.negate t).termsOf, u.Over fun name => name = x ∨ name = y :=
        fun u hu => (h.negate.termsOf u hu).mono fun _ => Or.inl
      have hequation : (Term.add (.var y :: (Term.negate t).termsOf)).Over fun name => name = x ∨ name = y :=
        .add (List.forall_mem_cons.mpr ⟨.var (Or.inr rfl), hside⟩)
      split at heq
      · next hsolve =>
        cases heq
        refine List.forall_mem_map.mpr fun s hs => over_roundApproximation ?_
        refine (Equation.over_solve hequation hsolve s hs).mono fun name hname => ?_
        obtain ⟨hname, hne⟩ := hname
        have hother : name ≠ x := fun h => hne (congrArg Term.var h)
        exact ⟨hname.resolve_left hother, hother⟩
      · next hno => exact absurd heq (hno found)

theorem invertWith_eq_some {solve : Solver} {f g : Formula} {x y : String} (h : invertWith solve f x y = .ok (some g)) :
    f.vars = [x] ∧ isPiecewise f.tree = false ∧ ∃ t s tree, Term.ofTree f.tree = .ok t ∧
      solve (.var x) (.var y) t = .ok (some [s]) ∧ s.toTree = .ok tree ∧ g = Formula.ofTree tree := by
  unfold invertWith at h
  split at h
  · next hguard =>
    obtain ⟨hvars, hpieces⟩ := hguard
    refine ⟨hvars, by simpa using hpieces, ?_⟩
    split at h
    · cases h
    · next t ht =>
      split at h
      · next s hs =>
        obtain ⟨tree, htree, rfl⟩ := Option.map_eq_some_iff.mp (Except.ok.inj h)
        cases hwritten : s.toTree with
        | error o =>
          rw [hwritten] at htree
          cases htree
        | ok written =>
          rw [hwritten] at htree
          cases htree
          exact ⟨t, s, tree, ht, hs, hwritten, rfl⟩
      · cases h
      · cases h
  · cases h

/-- Whatever `invert` finds is a formula in the given name alone, and in none if that is the name of the
formula. -/
theorem over_invert {f g : Formula} {x y : String} (h : f.tree.Over fun _ => True) (heq : invert f x y = .ok (some g)) :
    g.tree.Over fun name => name = y ∧ name ≠ x := by
  obtain ⟨hvars, hpieces, t, s, tree, ht, hs, htree, rfl⟩ := invertWith_eq_some heq
  have hx : f.tree.Over (· = x) := by
    refine h.of_names fun name hname => ?_
    have hmem : name ∈ f.vars := Formula.Tree.mem_vars.mpr hname
    simpa [hvars] using hmem
  exact Term.over_toTree (over_solutions (Term.over_ofTree hx hpieces ht) hs s (by simp)) htree

end Metrology.Algebra
