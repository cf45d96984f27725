import Metrology.Proofs.Conversion.Stage

/-! # What the account of a walk says

Without its flushes an account has one step for each edge, which names the units that the edge joins. With
them it can be replayed from the value alone: whoever multiplies by each product that is flushed and takes
each output of a formula comes to every value that the account mentions, and a product is flushed where it has
to be and is not one.
-/
namespace Metrology

namespace Account

def isFlush : Account → Bool
  | .flush _ _ => true
  | _ => false

def isFormula : Account → Bool
  | .formula _ _ _ _ _ _ => true
  | _ => false

inductive Records (source : String) : Graph.Hop Weight → Account → Prop
  | multiply {unit : String} {factor product : Float} :
      Records source ⟨unit, .multiplier factor⟩ (.multiply unit factor product)
  | formula {unit : String} {f : Formula} {names : List String} {input output : Float}
      (h : f.value (Formula.Bindings.all names input) = .ok output) :
      Records source ⟨unit, .formula f names⟩ (.formula source unit f names input output)

/-- Dropping the flushes leaves one step for each edge of a route, in order. -/
def RecordsAll (source : String) (r : Route) (steps : List Account) : Prop :=
  List.Forall₂ (fun (leg : String × Graph.Hop Weight) step => Records leg.1 leg.2 step) ((r.units source).zip r)
    (steps.filter fun step => !step.isFlush)

end Account

/-- Where a replay stands: the value, and the product of the factors that have not been applied to it. -/
structure Replay where
  value : Float
  product : Float

namespace Replay

def step (b : Replay) : Account → Replay
  | .multiply _ factor _ => ⟨b.value, b.product * factor⟩
  | .flush product _ => ⟨b.value * product, 1.0⟩
  | .formula _ _ _ _ _ output => ⟨output, 1.0⟩
  | .path _ | .cache _ _ _ => b

def after (b : Replay) (steps : List Account) : Replay := steps.foldl step b

/-- A step says what the replay has come to. A product is flushed only if it is not one and before a formula
or at the end, and a formula finds no product that has not been applied. -/
def Agrees (b : Replay) (next : Option Account) : Account → Prop
  | .multiply _ factor product => product = b.product * factor
  | .flush product value =>
    product = b.product ∧ product ≠ 1.0 ∧ value = b.value * product ∧ ∀ step ∈ next, step.isFormula = true
  | .formula _ _ _ _ input _ => input = b.value ∧ b.product = 1.0
  | .path _ | .cache _ _ _ => False

def Bears (b : Replay) : List Account → Prop
  | [] => True
  | step :: rest => b.Agrees rest.head? step ∧ (b.step step).Bears rest

/-- At the end of a run its product is flushed unless it is one; then the replay has the value with the
product applied. -/
theorem bears_flushAccount {value pending : Float} {steps : List Account}
    (hnext : ∀ step ∈ steps.head?, step.isFormula = true) (h : (⟨value * pending, 1.0⟩ : Replay).Bears steps) :
    (⟨value, pending⟩ : Replay).Bears (Route.flushAccount value pending ++ steps) := by
  unfold Route.flushAccount
  cases hone : pending == 1.0 with
  | true =>
    obtain rfl := Decimal.beq_one_iff.mp hone
    rw [Decimal.mul_one_double] at h
    simpa [bne, hone] using h
  | false =>
    have hne : pending ≠ 1.0 := fun heq => by simp [Decimal.beq_one_iff.mpr heq] at hone
    simp only [bne, hone, Bool.not_false, if_true]
    exact ⟨⟨rfl, hne, rfl, hnext⟩, h⟩

theorem after_flushAccount (value pending : Float) :
    (⟨value, pending⟩ : Replay).after (Route.flushAccount value pending) = ⟨value * pending, 1.0⟩ := by
  unfold Route.flushAccount
  cases hone : pending == 1.0 with
  | true =>
    obtain rfl := Decimal.beq_one_iff.mp hone
    simp [bne, hone, after, Decimal.mul_one_double]
  | false => simp [bne, hone, after, step]

end Replay

namespace Route

theorem filter_flushAccount (value pending : Float) :
    ((flushAccount value pending).filter fun step => !step.isFlush) = [] := by
  unfold flushAccount
  split <;> rfl

theorem walk_multiplier_eq_ok {source unit : String} {value pending factor : Float} {rest : Route} {w : Walk}
    (h : walk source value pending (⟨unit, .multiplier factor⟩ :: rest) = .ok w) :
    ∃ w', rest.walk unit value (pending * factor) = .ok w' ∧
      w = { w' with account := .multiply unit factor (pending * factor) :: w'.account } := by
  rw [walk] at h
  cases hrest : walk unit value (pending * factor) rest with
  | error e => simp [hrest] at h
  | ok w' =>
    simp only [hrest] at h
    cases h
    exact ⟨w', rfl, rfl⟩

theorem walk_formula_eq_ok {source unit : String} {value pending : Float} {f : Formula}
    {names : List String} {rest : Route}
    {w : Walk} (h : walk source value pending (⟨unit, .formula f names⟩ :: rest) = .ok w) :
    ∃ output w', f.value (Formula.Bindings.all names (value * pending)) = .ok output ∧
      rest.walk unit output 1.0 = .ok w' ∧
      w = { w' with
        account := flushAccount value pending ++ .formula source unit f names (value * pending) output ::
            w'.account } := by
  rw [walk, flush_eq_mul] at h
  cases hvalue : f.value (Formula.Bindings.all names (value * pending)) with
  | error e => simp [hvalue] at h
  | ok output =>
    cases hrest : walk unit output 1.0 rest with
    | error e => simp [hvalue, hrest] at h
    | ok w' =>
      simp only [hvalue, hrest] at h
      cases h
      exact ⟨output, w', rfl, hrest, rfl⟩

def steps (w : Walk) : List Account := w.account ++ flushAccount w.value w.product

theorem recordsAll_walk {source : String} {value pending : Float} {r : Route} {w : Walk}
    (h : r.walk source value pending = .ok w) : Account.RecordsAll source r (steps w) := by
  induction r generalizing source value pending w with
  | nil =>
    cases h
    unfold Account.RecordsAll steps
    rw [List.nil_append, filter_flushAccount]
    exact .nil
  | cons hop rest ih =>
    obtain ⟨unit, weight⟩ := hop
    cases weight with
    | multiplier factor =>
      obtain ⟨w', hrest, rfl⟩ := walk_multiplier_eq_ok h
      exact .cons .multiply (ih hrest)
    | formula f names =>
      obtain ⟨output, w', hvalue, hrest, rfl⟩ := walk_formula_eq_ok h
      unfold Account.RecordsAll steps
      rw [List.append_assoc, List.filter_append, filter_flushAccount, List.nil_append]
      exact .cons (.formula hvalue) (ih hrest)

theorem replay_walk {source : String} {value pending : Float} {r : Route} {w : Walk}
    (h : r.walk source value pending = .ok w) :
    (⟨value, pending⟩ : Replay).Bears (steps w) ∧
      (⟨value, pending⟩ : Replay).after (steps w) = ⟨w.value * w.product, 1.0⟩ := by
  induction r generalizing source value pending w with
  | nil =>
    cases h
    have hend : (⟨value * pending, 1.0⟩ : Replay).Bears [] := trivial
    have hbears := Replay.bears_flushAccount (by simp) hend
    rw [List.append_nil] at hbears
    exact ⟨hbears, Replay.after_flushAccount value pending⟩
  | cons hop rest ih =>
    obtain ⟨unit, weight⟩ := hop
    cases weight with
    | multiplier factor =>
      obtain ⟨w', hrest, rfl⟩ := walk_multiplier_eq_ok h
      obtain ⟨hbears, hafter⟩ := ih hrest
      exact ⟨⟨rfl, hbears⟩, hafter⟩
    | formula f names =>
      obtain ⟨output, w', hvalue, hrest, rfl⟩ := walk_formula_eq_ok h
      obtain ⟨hbears, hafter⟩ := ih hrest
      unfold steps
      rw [List.append_assoc]
      constructor
      · apply Replay.bears_flushAccount
        · simp [Account.isFormula]
        · exact ⟨⟨rfl, rfl⟩, hbears⟩
      · rw [Replay.after, List.foldl_append]
        change Replay.after (Replay.after _ _) _ = _
        rw [Replay.after_flushAccount]
        exact hafter

end Route

end Metrology
