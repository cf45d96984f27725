import Metrology.Proofs.Converter.Assembly

/-! # What building breaks off at

Building ends at the first definition without weights whose category has units. It is a defect of the catalog,
or a formula for whose inverse the equation has no answer at all.
-/
namespace Metrology

namespace Builder

variable {b : Builder} {d : Definition} {e : BuildError} {x : Algebra.Dilemma}

/-- The way back of a formula has to be derived, and the equation for its inverse has no answer at all. -/
inductive Stuck (b : Builder) (d : Definition) (x : Algebra.Dilemma) : Prop
  | mk {text v : String} {f : Formula} (hrule : d.rule = .formula text) (hread : b.readFormula d text = .ok f)
      (hback : b.derivesBack d = true) (hpolicy : b.policy.invert = true) (hvars : f.vars = [v])
      (hinvert : Algebra.invert f v (b.backName d) = .error x)

theorem inverseWeight_eq_error {f : Formula} (h : b.inverseWeight d f = .error e) :
    ∃ v x, f.vars = [v] ∧ Algebra.invert f v (b.backName d) = .error x ∧ e = .inversion x := by
  unfold inverseWeight at h
  split at h
  · next v hvars =>
    cases hinvert : Algebra.invert f v (b.backName d) with
    | ok found =>
      rw [backName] at hinvert
      simp only [hinvert] at h
      cases h
    | error x =>
      have hsame := hinvert
      rw [backName] at hinvert
      simp only [hinvert] at h
      cases h
      exact ⟨v, x, hvars, hsame, rfl⟩
  · cases h

/-- A definition has weights, has a defect, or is stuck. -/
theorem weights_eq_error (h : b.weights d = .error e) :
    (∃ reason, e = .refused reason) ∨ ∃ x, b.Stuck d x ∧ e = .inversion x := by
  unfold weights at h
  cases hrule : d.rule with
  | factor x =>
    simp only [hrule] at h
    split at h
    · cases h
      exact .inl ⟨_, rfl⟩
    · cases h
  | formula text =>
    simp only [hrule] at h
    cases hread : b.readFormula d text with
    | error reason =>
      simp only [hread] at h
      cases h
      exact .inl ⟨reason, rfl⟩
    | ok f =>
      simp only [hread] at h
      split at h
      · next hderives =>
        obtain ⟨hback, hpolicy⟩ := Bool.and_eq_true_iff.mp hderives
        cases hweight : b.inverseWeight d f with
        | ok back =>
          simp only [hweight] at h
          cases h
        | error e' =>
          simp only [hweight] at h
          cases h
          obtain ⟨v, x, hvars, hinvert, rfl⟩ := inverseWeight_eq_error hweight
          exact .inr ⟨x, .mk hrule hread hback hpolicy hvars hinvert, rfl⟩
      · cases h

theorem Stuck.weights_eq (h : b.Stuck d x) : b.weights d = .error (.inversion x) := by
  cases h with
  | mk hrule hread hback hpolicy hvars hinvert =>
    rw [backName] at hinvert
    simp only [weights, hrule, hread, hback, hpolicy, Bool.and_self, if_true, inverseWeight, hvars, hinvert]

def HasUnits (b : Builder) (category : String) : Prop := ∃ u ∈ b.units, u.category = category

theorem any_unitGraphs_iff (b : Builder) (category : String) :
    (b.unitGraphs.any fun g => g.id == category) = true ↔ b.HasUnits category := by
  rw [HasUnits, ← (lists_unitGraphs b).isSome category, List.find?_isSome, List.any_eq_true]

theorem linkDefinition_eq_error {graphs : List UnitGraph} : b.linkDefinition graphs d = .error e ↔
    (graphs.any fun g => g.id == d.category) = true ∧ b.weights d = .error e := by
  unfold linkDefinition
  split
  · next hplaced => cases hw : b.weights d <;> simp [hplaced]
  · next hplaced => simp [hplaced]

/-- Linking fails at the first definition that is looked at and has no weights. -/
theorem linkDefinitions_eq_error {graphs : List UnitGraph} {ds : List Definition} :
    b.linkDefinitions graphs ds = .error e ↔ ∃ before d after, ds = before ++ d :: after ∧
      (∀ d' ∈ before, (graphs.any fun g => g.id == d'.category) = true → ∃ w, b.weights d' = .ok w) ∧
      (graphs.any fun g => g.id == d.category) = true ∧ b.weights d = .error e := by
  induction ds generalizing graphs with
  | nil => simp [linkDefinitions]
  | cons d rest ih =>
    unfold linkDefinitions
    -- The first definition fails itself, or it is one of those before the failing one, since it leaves the
    -- categories as they are.
    cases hd : b.linkDefinition graphs d with
    | error e' =>
      have hfails := linkDefinition_eq_error.mp hd
      dsimp only
      constructor
      · rintro ⟨⟩
        exact ⟨[], d, rest, rfl, by simp, hfails⟩
      · rintro ⟨before, d', after, hsplit, hbefore, -, hw⟩
        cases before with
        | nil =>
          obtain ⟨rfl, -⟩ := List.cons.inj hsplit
          rw [hfails.2] at hw
          cases hw
          rfl
        | cons first more =>
          obtain ⟨rfl, -⟩ := List.cons.inj hsplit
          obtain ⟨w, hok⟩ := hbefore d List.mem_cons_self hfails.1
          rw [hfails.2] at hok
          cases hok
    | ok graphs' =>
      obtain ⟨hweights, rfl⟩ := linkDefinition_eq_ok.mp hd
      dsimp only
      rw [ih]
      simp only [any_map_addDefinition]
      constructor
      · rintro ⟨before, d', after, rfl, hbefore, hfails⟩
        exact ⟨d :: before, d', after, rfl, List.forall_mem_cons.mpr ⟨hweights, hbefore⟩, hfails⟩
      · rintro ⟨before, d', after, hsplit, hbefore, hplaced, hw⟩
        cases before with
        | nil =>
          obtain ⟨rfl, -⟩ := List.cons.inj hsplit
          obtain ⟨w, hok⟩ := hweights hplaced
          rw [hok] at hw
          cases hw
        | cons first more =>
          obtain ⟨rfl, rfl⟩ := List.cons.inj hsplit
          exact ⟨more, d', after, rfl, (List.forall_mem_cons.mp hbefore).2, hplaced, hw⟩

theorem build_eq_error : b.build = .error e ↔ ∃ before d after, b.definitions = before ++ d :: after ∧
    (∀ d' ∈ before, b.HasUnits d'.category → ∃ w, b.weights d' = .ok w) ∧ b.HasUnits d.category ∧
        b.weights d = .error e := by
  simp only [← any_unitGraphs_iff]
  rw [← linkDefinitions_eq_error]
  unfold build
  cases h : b.linkDefinitions b.unitGraphs b.definitions <;> simp

end Builder

end Metrology
