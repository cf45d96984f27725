import Metrology.Formula.Arithmetic
import Metrology.Proofs.Decimal.Exact

/-! # Operations that do not fail

Each operation of a formula looks at its operands before the machine does, or at what the machine says of
them, so it has a result for all operands.
-/
namespace Metrology.Formula

variable {x y : Float}

theorem checked_power_ne_zeroDivision : Checked.power x y ≠ .error .zeroDivision := by
  unfold Checked.power
  dsimp only
  split_ifs <;> simp

theorem exists_divide (x y : Float) : ∃ z, divide x y = .ok z := by
  unfold divide
  split
  · split
    · exact ⟨_, rfl⟩
    · exact ⟨_, rfl⟩
  · next hzero =>
    -- The divisor that the machine gets is not zero.
    exact ⟨x / y, by rw [Checked.divide, if_neg hzero]⟩

theorem exists_remainder (x y : Float) : ∃ z, remainder x y = .ok z := by
  unfold remainder
  split
  · exact ⟨_, rfl⟩
  · next hguard =>
    have hdomain : ¬ (x.isInf || y == 0.0) = true := by rwa [Bool.or_comm]
    unfold Checked.remainder
    rw [if_neg hdomain]
    split
    · exact ⟨_, rfl⟩
    · exact ⟨_, rfl⟩

theorem exists_power (x y : Float) : ∃ z, power x y = .ok z := by
  unfold power
  cases hfound : Checked.power x y with
  | ok z => exact ⟨z, rfl⟩
  | error e =>
    cases e with
    | zeroDivision => exact absurd hfound checked_power_ne_zeroDivision
    | overflow => exact ⟨_, rfl⟩
    | domain =>
      dsimp only
      split
      · exact ⟨_, rfl⟩
      · exact ⟨_, rfl⟩

theorem exists_trigonometric (f : Float → Float) (x : Float) : ∃ z, trigonometric f x = .ok z := by
  unfold trigonometric
  split
  · exact ⟨_, rfl⟩
  · next hinfinite => exact ⟨f x, by rw [Checked.circular, if_neg hinfinite]⟩

theorem Operator.exists_apply {op : Operator} {f : Float → Float → Except ArithmeticError Float}
    (h : op.apply? = some f) (x y : Float) : ∃ z, f x y = .ok z := by
  cases op with
  | add | sub | mul =>
    cases h
    exact ⟨_, rfl⟩
  | div =>
    cases h
    exact exists_divide x y
  | pow =>
    cases h
    exact exists_power x y
  | mod =>
    cases h
    exact exists_remainder x y
  | negate => cases h
  | convert => cases h

theorem Function.exists_apply (f : Function) (first : Float) (rest : List Float) : ∃ z, f.apply first rest = .ok z := by
  cases f with
  | max => exact ⟨_, rfl⟩
  | min => exact ⟨_, rfl⟩
  | sin => exact exists_trigonometric Float.sin first
  | cos => exact exists_trigonometric Float.cos first
  | tan => exact exists_trigonometric Float.tan first

end Metrology.Formula
