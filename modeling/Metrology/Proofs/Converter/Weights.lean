import Metrology.Converter.Build
import Metrology.Proofs.Algebra.Inversion

/-! # What a definition gives

A definition declares a weight for its way, and the weight of the way back is derived from it unless that way
is declared as well or the policy rules it out. These are what `Builder.weights` returns when it does not
break off.
-/
namespace Metrology.Builder

def declared? (b : Builder) (d : Definition) : Option Weight :=
  match d.rule with
  | .factor x => some (.multiplier x)
  | .formula text => (Formula.read text).toOption.map fun f => .formula f (b.namesFor d.source d.category)

def inverse? (b : Builder) (d : Definition) (f : Formula) : Option Weight :=
  match f.vars with
  | [v] =>
    match Algebra.invert f v ((b.namesFor d.target d.category).headD d.target) with
    | .ok found => found.map fun g => .formula g (b.namesFor d.target d.category)
    | .error _ => none
  | _ => none

/-- The weight of the way back of a definition, if it has to be derived and can be. -/
def derived? (b : Builder) (d : Definition) : Option Weight :=
  if b.derivesBack d then
    match d.rule with
    | .factor x => some (.multiplier (1.0 / x))
    | .formula text => if b.policy.invert then (Formula.read text).toOption.bind (b.inverse? d) else none
  else none

theorem toOption_eq_some {ε α : Type} {r : Except ε α} {a : α} : r.toOption = some a ↔ r = .ok a := by
  cases r <;> simp [Except.toOption]

theorem readFormula_eq_ok {b : Builder} {d : Definition} {text : String} {f : Formula}
    (h : b.readFormula d text = .ok f) :
    Formula.read text = .ok f ∧ ∀ v ∈ f.vars, v ∈ b.namesFor d.source d.category := by
  unfold readFormula at h
  split at h
  · cases h
  · next f' hread =>
    dsimp only at h
    split at h
    · next hforeign =>
      cases h
      refine ⟨hread, fun v hv => ?_⟩
      have hnot := List.filter_eq_nil_iff.mp hforeign v hv
      simpa using hnot
    · cases h

theorem inverseWeight_eq_ok {b : Builder} {d : Definition} {f : Formula} {back : Option Weight}
    (h : b.inverseWeight d f = .ok back) : b.inverse? d f = back := by
  cases hvars : f.vars with
  | nil =>
    simp only [inverseWeight, hvars] at h
    cases h
    simp only [inverse?, hvars]
  | cons v rest =>
    cases rest with
    | cons _ _ =>
      simp only [inverseWeight, hvars] at h
      cases h
      simp only [inverse?, hvars]
    | nil =>
      simp only [inverseWeight, hvars] at h
      simp only [inverse?, hvars]
      cases hinvert : Algebra.invert f v ((b.namesFor d.target d.category).headD d.target) with
      | error e =>
        rw [hinvert] at h
        cases h
      | ok found =>
        rw [hinvert] at h
        cases h
        rfl

/-- The weights of a definition are the one that it declares and the one that is derived. -/
theorem weights_eq_ok {b : Builder} {d : Definition} {forth : Weight} {back : Option Weight}
    (h : b.weights d = .ok (forth, back)) : b.declared? d = some forth ∧ b.derived? d = back := by
  unfold weights at h
  unfold declared? derived?
  cases hrule : d.rule with
  | factor x =>
    simp only [hrule] at h ⊢
    split at h
    · cases h
    · cases h
      exact ⟨rfl, rfl⟩
  | formula text =>
    simp only [hrule] at h ⊢
    split at h
    · cases h
    · next f hf =>
      obtain ⟨hread, -⟩ := readFormula_eq_ok hf
      simp only [hread, Except.toOption, Option.map_some, Option.bind_some]
      cases hback : b.derivesBack d with
      | false =>
        rw [hback] at h
        cases h
        exact ⟨rfl, rfl⟩
      | true =>
        cases hinvert : b.policy.invert with
        | false =>
          rw [hback, hinvert] at h
          cases h
          exact ⟨rfl, rfl⟩
        | true =>
          simp only [hback, hinvert, Bool.and_self, if_true] at h
          split at h
          · next back' hweight =>
            cases h
            exact ⟨rfl, inverseWeight_eq_ok hweight⟩
          · cases h

theorem declares_eq_false_of_derived? {b : Builder} {d : Definition} {back : Weight} (h : b.derived? d = some back) :
    b.declares d.category d.target d.source = false := by
  unfold derived? at h
  split at h
  · next hback =>
    simp only [derivesBack, Bool.and_eq_true, Bool.not_eq_true'] at hback
    exact hback.2
  · cases h

def backName (b : Builder) (d : Definition) : String := (b.namesFor d.target d.category).headD d.target

theorem backName_mem (b : Builder) (d : Definition) : b.backName d ∈ b.namesFor d.target d.category := by
  unfold backName
  cases hnames : b.namesFor d.target d.category with
  | nil => simp [namesFor] at hnames
  | cons name rest => exact List.mem_cons_self

inductive Derives (b : Builder) (d : Definition) : Weight → Prop
  | reciprocal {x : Float} (hrule : d.rule = .factor x) (hzero : (x == 0.0) = false) :
      Derives b d (.multiplier (1.0 / x))
  | inverse {text v : String} {f back : Formula} (hrule : d.rule = .formula text) (hread : Formula.read text = .ok f)
      (hvars : f.vars = [v]) (hinvert : Algebra.invert f v (b.backName d) = .ok (some back)) :
      Derives b d (.formula back (b.namesFor d.target d.category))

theorem inverse?_eq_some {b : Builder} {d : Definition} {f : Formula} {w : Weight} (h : b.inverse? d f = some w) :
    ∃ v back, f.vars = [v] ∧ Algebra.invert f v (b.backName d) = .ok (some back) ∧
      w = .formula back (b.namesFor d.target d.category) := by
  unfold inverse? at h
  split at h
  · next v hvars =>
    split at h
    · next hinvert =>
      obtain ⟨back, rfl, rfl⟩ := Option.map_eq_some_iff.mp h
      exact ⟨v, back, hvars, hinvert, rfl⟩
    · cases h
  · cases h

theorem derives_of_derived? {b : Builder} {d : Definition} {w forth : Weight} {back : Option Weight}
    (hweights : b.weights d = .ok (forth, back)) (hw : b.derived? d = some w) : b.Derives d w := by
  unfold derived? at hw
  split at hw
  · cases hrule : d.rule with
    | factor x =>
      simp only [hrule, weights] at hw hweights
      cases hw
      split at hweights
      · cases hweights
      · next hzero => exact .reciprocal hrule (by simpa using hzero)
    | formula text =>
      simp only [hrule] at hw
      split at hw
      · obtain ⟨f, hf, hinverse⟩ := Option.bind_eq_some_iff.mp hw
        obtain ⟨v, back, hvars, hinvert, rfl⟩ := inverse?_eq_some hinverse
        exact .inverse hrule (toOption_eq_some.mp hf) hvars hinvert
      · cases hw
  · cases hw

/-- The way back of an affine formula that is not constant is its inverse function. -/
theorem weights_of_affine {b : Builder} {d : Definition} {text v : String} {f : Formula} {a : Algebra.Affine}
    (hrule : d.rule = .formula text) (hread : b.readFormula d text = .ok f) (hvars : f.vars = [v])
    (ha : Algebra.Affine.ofTree? v f.tree = some a) (hslope : a.slope ≠ 0) (hne : b.backName d ≠ v)
    (hback : b.derivesBack d = true) (hpolicy : b.policy.invert = true) :
    b.weights d = .ok (.formula f (b.namesFor d.source d.category),
      some (.formula (.ofTree (a.inverse.toTree (b.backName d))) (b.namesFor d.target d.category))) := by
  have hinvert : Algebra.invert f v (b.backName d) = .ok (some (.ofTree (a.inverse.toTree (b.backName d)))) := by
    rw [Algebra.invert, Algebra.invertWith_of_ofTree? Algebra.solvesAffine_solutions ha hvars hne, if_neg hslope]
  rw [backName] at hinvert
  simp only [weights, hrule, hread, hback, hpolicy, inverseWeight, hvars, hinvert, Bool.and_self, if_true]
  rfl

/-- Whether a definition is in order and needs no other equation to be solved than an affine one. -/
def isTame (b : Builder) (d : Definition) : Bool :=
  match d.rule with
  | .factor x => !(x == 0.0)
  | .formula text =>
    match b.readFormula d text with
    | .error _ => false
    | .ok f =>
      match f.vars with
      | [v] => (Algebra.Affine.ofTree? v f.tree).isSome && b.backName d != v
      | _ => true

theorem exists_weights_of_isTame {b : Builder} {d : Definition} (h : b.isTame d = true) : ∃ w, b.weights d = .ok w := by
  unfold isTame at h
  unfold weights
  cases hrule : d.rule with
  | factor x =>
    have hzero : (x == 0.0) = false := by simpa [hrule] using h
    simp [hzero]
  | formula text =>
    simp only [hrule] at h ⊢
    cases hread : b.readFormula d text with
    | error reason =>
      simp only [hread] at h
      cases h
    | ok f =>
      simp only [hread] at h ⊢
      have hinverse : ∃ back, b.inverseWeight d f = .ok back := by
        split at h
        · next v hvars =>
          simp only [Bool.and_eq_true, Option.isSome_iff_exists, bne_iff_ne] at h
          obtain ⟨⟨a, ha⟩, hne⟩ := h
          have hinvert := Algebra.invertWith_of_ofTree? Algebra.solvesAffine_solutions ha hvars hne
          rw [← Algebra.invert, backName] at hinvert
          simp only [inverseWeight, hvars, hinvert]
          exact ⟨_, rfl⟩
        · next hvars =>
          unfold inverseWeight
          split
          · next v hv => exact absurd hv (hvars v)
          · exact ⟨_, rfl⟩
      obtain ⟨back, hback⟩ := hinverse
      simp only [hback]
      split <;> exact ⟨_, rfl⟩

end Metrology.Builder
