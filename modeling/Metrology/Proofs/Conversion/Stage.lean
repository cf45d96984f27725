import Metrology.Proofs.Conversion.Route

/-! # What a route means

A route is a list of stages: runs of factors, as long as they can be, and the formulas between them. A run
multiplies the value once, by the product of its factors from the left to the right, and a formula finds the
value with everything before it applied. A walk carries a product along instead and applies it late, or not at
all if it is one; it comes to the same value.
-/
namespace Metrology.Route

/-- Factors with nothing between them, or a formula. -/
inductive Stage where
  | run (factors : List Float)
  | formula (f : Formula) (names : List String)

namespace Stage

def isRun : Stage → Bool
  | .run _ => true
  | .formula _ _ => false

def weights : Stage → List Weight
  | .run factors => factors.map .multiplier
  | .formula f names => [.formula f names]

/-- A run multiplies by its product, be it one or not, and a formula reads the value under each of its
names. -/
def apply (value : Float) : Stage → Except Formula.EvalError Float
  | .run factors => .ok (value * factors.foldl (fun product factor => product * factor) 1.0)
  | .formula f names => f.value (Formula.Bindings.all names value)

def applyAll (value : Float) : List Stage → Except Formula.EvalError Float
  | [] => .ok value
  | stage :: rest =>
    match stage.apply value with
    | .error e => .error e
    | .ok output => applyAll output rest

end Stage

def stages : Route → List Stage
  | [] => []
  | ⟨_, .formula f names⟩ :: rest => .formula f names :: stages rest
  | ⟨_, .multiplier factor⟩ :: rest =>
    match stages rest with
    | .run factors :: more => .run (factor :: factors) :: more
    | more => .run [factor] :: more

/-- The stages have the weights of the route, in order and nothing besides. -/
theorem weights_stages (r : Route) : r.stages.flatMap Stage.weights = r.map Graph.Hop.weight := by
  induction r with
  | nil => rfl
  | cons hop rest ih =>
    obtain ⟨unit, weight⟩ := hop
    rw [List.map_cons, ← ih]
    cases weight with
    | formula f names => rfl
    | multiplier factor =>
      rw [stages]
      split
      · next factors more hrest =>
        rw [hrest]
        rfl
      · rfl

theorem weights_ne_nil (r : Route) : ∀ stage ∈ r.stages, stage.weights ≠ [] := by
  induction r with
  | nil => simp [stages]
  | cons hop rest ih =>
    obtain ⟨unit, weight⟩ := hop
    cases weight with
    | formula f names => exact List.forall_mem_cons.mpr ⟨by simp [Stage.weights], ih⟩
    | multiplier factor =>
      rw [stages]
      split
      · next factors more hrest =>
        rw [hrest] at ih
        exact List.forall_mem_cons.mpr ⟨by simp [Stage.weights], (List.forall_mem_cons.mp ih).2⟩
      · exact List.forall_mem_cons.mpr ⟨by simp [Stage.weights], ih⟩

/-- No run goes on in the next stage, so every run is as long as it can be. -/
theorem stages_apart (r : Route) : r.stages.IsChain fun a b => ¬ (a.isRun = true ∧ b.isRun = true) := by
  induction r with
  | nil => exact List.IsChain.nil
  | cons hop rest ih =>
    obtain ⟨unit, weight⟩ := hop
    cases weight with
    | formula f names =>
      apply List.isChain_cons.mpr
      exact ⟨by simp [Stage.isRun], ih⟩
    | multiplier factor =>
      rw [stages]
      split
      · next factors more hrest =>
        rw [hrest] at ih
        exact List.isChain_cons.mpr (List.isChain_cons.mp ih)
      · next hno =>
        apply List.isChain_cons.mpr
        refine ⟨?_, ih⟩
        intro stage hstage
        cases stage with
        | formula f names => simp [Stage.isRun]
        | run factors =>
          obtain ⟨more, hmore⟩ := List.head?_eq_some_iff.mp hstage
          exact absurd hmore (hno factors more)

/-- A product that is not applied because it is one would have changed nothing. -/
theorem flush_eq_mul (value pending : Float) : flush value pending = value * pending := by
  unfold flush
  cases h : pending == 1.0 with
  | false => simp [bne, h]
  | true =>
    obtain rfl := Decimal.beq_one_iff.mp h
    simp [bne, h, Decimal.mul_one_double]

/-- Stages that begin with a product pending, from which the factors of a first run go on. -/
def applyFrom (value pending : Float) : List Stage → Except Formula.EvalError Float
  | .run factors :: rest => Stage.applyAll (value * factors.foldl (fun product factor => product * factor) pending) rest
  | rest => Stage.applyAll (value * pending) rest

theorem applyFrom_one (value : Float) (ss : List Stage) : applyFrom value 1.0 ss = Stage.applyAll value ss := by
  unfold applyFrom
  split
  · rfl
  · rw [Decimal.mul_one_double]

theorem applyFrom_multiplier (value pending factor : Float) (unit : String) (rest : Route) :
    applyFrom value pending (stages (⟨unit, .multiplier factor⟩ :: rest)) =
        applyFrom value (pending * factor) rest.stages := by
  rw [stages]
  split
  · next factors more hrest =>
    rw [hrest]
    rfl
  · next hno =>
    rw [applyFrom.eq_def value (pending * factor)]
    split
    · next factors more hrest => exact absurd hrest (hno factors more)
    · rfl

/-- What a walk still has to apply at its end belongs to the run that the route ends with. -/
theorem map_result (value pending : Float) (r : Route) :
    (r.result value pending).map (fun stop => stop.1 * stop.2) = applyFrom value pending r.stages := by
  -- The pending product is what the run that comes next starts with, be it empty.
  induction r generalizing value pending with
  | nil => rfl
  | cons hop rest ih =>
    obtain ⟨unit, weight⟩ := hop
    cases weight with
    | multiplier factor => rw [result, ih, applyFrom_multiplier]
    | formula f names =>
      rw [result, flush_eq_mul]
      simp only [stages, applyFrom, Stage.applyAll, Stage.apply]
      cases f.value (Formula.Bindings.all names (value * pending)) with
      | error e => rfl
      | ok output =>
        dsimp only
        rw [ih, applyFrom_one]

theorem applyAll_of_walk {source : String} {value : Float} {r : Route} {w : Walk}
    (h : r.walk source value 1.0 = .ok w) :
    Stage.applyAll value r.stages = .ok (w.value * w.product) := by
  have hwalk := r.map_walk source value 1.0
  rw [h] at hwalk
  rw [← applyFrom_one, ← map_result, ← hwalk]
  rfl

end Metrology.Route
