import Metrology.Conversion.Route
import Metrology.Proofs.Decimal.Product

/-! # What a walk computes

The units that a route names only enter the account of a walk. What it computes is the value and the pending
product, and a route of factors leaves the value alone and multiplies the product from the left to the right.
-/
namespace Metrology.Route

def result (value product : Float) : Route → Except Formula.EvalError (Float × Float)
  | [] => .ok (value, product)
  | ⟨_, .multiplier factor⟩ :: rest => result value (product * factor) rest
  | ⟨_, .formula f names⟩ :: rest =>
    match f.value (Formula.Bindings.all names (flush value product)) with
    | .error e => .error e
    | .ok output => result output 1.0 rest

theorem map_walk (source : String) (value product : Float) (r : Route) :
    (walk source value product r).map (fun w => (w.value, w.product)) = r.result value product := by
  induction r generalizing source value product with
  | nil => rfl
  | cons hop rest ih =>
    obtain ⟨unit, weight⟩ := hop
    cases weight with
    | multiplier factor =>
      have h := ih unit value (product * factor)
      rw [walk, result, ← h]
      cases walk unit value (product * factor) rest <;> rfl
    | formula f names =>
      rw [walk, result]
      cases f.value (Formula.Bindings.all names (flush value product)) with
      | error e => rfl
      | ok output =>
        have h := ih unit output 1.0
        dsimp only
        rw [← h]
        cases walk unit output 1.0 rest <;> rfl

def product (pending : Float) (r : Route) : Float :=
  r.foldl (fun p hop =>
    match hop.weight with
    | .multiplier factor => p * factor
    | .formula _ _ => p) pending

theorem result_append {r : Route} (h : r.multipliersOnly = true) (value pending : Float) (rest : Route) :
    result value pending (r ++ rest) = rest.result value (r.product pending) := by
  induction r generalizing pending with
  | nil => rfl
  | cons hop r ih =>
    obtain ⟨unit, weight⟩ := hop
    obtain ⟨hweight, htail⟩ : weight.isMultiplier = true ∧ Route.multipliersOnly r = true := by
      simpa [multipliersOnly] using h
    cases weight with
    | multiplier factor => exact ih htail (pending * factor)
    | formula f names => cases hweight

theorem result_of_multipliersOnly {r : Route} (h : r.multipliersOnly = true) (value pending : Float) :
    r.result value pending = .ok (value, r.product pending) := by
  have happend := result_append h value pending []
  rwa [List.append_nil] at happend

/-- A single factor from the start on is the whole product. -/
theorem result_multiplier (value factor : Float) (unit : String) (rest : Route) :
    result value 1.0 (⟨unit, .multiplier factor⟩ :: rest) = rest.result value factor := by
  rw [result, Decimal.one_mul_double]

end Metrology.Route
