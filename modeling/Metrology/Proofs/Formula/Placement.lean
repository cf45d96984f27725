import Mathlib.Tactic.Ring
import Metrology.Proofs.Formula.Grammar
import Metrology.Proofs.Formula.Reduction

/-! # Where operands stand

The parser never looks at the neighbours of a token, it only counts operands. Counting is enough to have every
operand where one is due, unless an operand directly follows another: each token changes the number of
operands that are left at the end by a fixed amount, and with all operands apart that number is one only if
every operand starts where one is due.
-/
namespace Metrology.Formula

def Token.startsOperand : Token → Bool
  | .number _ | .var _ | .unit _ | .function _ | .leftParen => true
  | .operator op => op = .negate
  | .rightParen | .comma => false

def Token.endsOperand : Token → Bool
  | .number _ | .var _ | .unit _ | .rightParen => true
  | .operator _ | .function _ | .leftParen | .comma => false

def Apart (ts : List Token) : Prop := ts.IsChain fun a b => ¬ (a.endsOperand = true ∧ b.startsOperand = true)

/-- Operands start where they are due and nowhere else: at the beginning and after what does not end one. -/
def Placed : Bool → List Token → Prop
  | due, [] => due = false
  | due, t :: rest => t.startsOperand = due ∧ Placed (!t.endsOperand) rest

/-- What a token adds to the number of operands that are left when everything is reduced: a binary operator
makes one operand of two, and so does a comma once its call is closed. -/
def Token.gain : Token → Int
  | .number _ | .var _ | .unit _ => 1
  | .operator op => if op = .negate then 0 else -1
  | .comma => -1
  | .function _ | .leftParen | .rightParen => 0

def gain (ts : List Token) : Int := (ts.map Token.gain).sum

theorem Token.gain_eq (t : Token) : t.gain = t.startsOperand.toInt + t.endsOperand.toInt - 1 := by
  cases t with
  | operator op => by_cases h : op = .negate <;> simp [gain, startsOperand, endsOperand, h]
  | _ => rfl

theorem gain_cons (t : Token) (ts : List Token) : gain (t :: ts) = t.gain + gain ts := by
  simp [gain]

theorem Placed.apart {due : Bool} {ts : List Token} (h : Placed due ts) : Apart ts := by
  induction ts generalizing due with
  | nil => exact List.IsChain.nil
  | cons a rest ih =>
    obtain ⟨-, hrest⟩ := h
    cases rest with
    | nil => exact List.IsChain.singleton a
    | cons b rest =>
      refine List.IsChain.cons_cons ?_ (ih hrest)
      rintro ⟨ha, hb⟩
      have hdue := hrest.1
      simp [ha, hb] at hdue

/-- Tokens with all operands apart gain no more than what is due, and as much only if every operand is
placed. -/
theorem placed_of_gain {due : Bool} {ts : List Token} (h : Apart ts)
    (hfirst : ∀ t ∈ ts.head?, t.startsOperand = true → due = true) :
    gain ts ≤ due.toInt ∧ (gain ts = due.toInt → Placed due ts) := by
  induction ts generalizing due with
  | nil => cases due <;> simp [gain, Placed]
  | cons a rest ih =>
    have hrest : Apart rest ∧ ∀ t ∈ rest.head?, t.startsOperand = true → (!a.endsOperand) = true := by
      cases rest with
      | nil => exact ⟨List.IsChain.nil, by simp⟩
      | cons b rest =>
        obtain ⟨hab, hrest⟩ := List.isChain_cons_cons.mp h
        refine ⟨hrest, fun t ht hb => ?_⟩
        obtain rfl : b = t := by simpa using ht
        cases ha : a.endsOperand with
        | false => rfl
        | true => exact absurd ⟨ha, hb⟩ hab
    obtain ⟨hle, hplaced⟩ := ih hrest.1 hrest.2
    have hends : (!a.endsOperand).toInt = 1 - a.endsOperand.toInt := by cases a.endsOperand <;> rfl
    have hstarts : a.startsOperand.toInt ≤ due.toInt := by
      have ha := hfirst a (by simp)
      cases hs : a.startsOperand with
      | false => cases due <;> decide
      | true => simp [ha hs]
    -- What a token gains and what it makes due next add up to the operand that it starts.
    rw [gain_cons, a.gain_eq]
    refine ⟨by omega, fun hgain => ⟨?_, hplaced (by omega)⟩⟩
    have heq : a.startsOperand.toInt = due.toInt := by omega
    cases hs : a.startsOperand <;> cases due <;> simp [hs] at heq ⊢

theorem placed_intercalate {args : List (List Token)} (hne : args ≠ [])
    (hargs : ∀ xs ∈ args, ∀ rest, Placed false rest → Placed true (xs ++ rest)) {rest : List Token}
    (hrest : Placed false rest) : Placed true ([Token.comma].intercalate args ++ rest) := by
  induction args with
  | nil => exact absurd rfl hne
  | cons xs more ih =>
    have hxs := hargs xs List.mem_cons_self
    cases more with
    | nil => simpa using hxs rest hrest
    | cons ys more =>
      have hmore := ih (by simp) fun zs hzs => hargs zs (List.mem_cons_of_mem _ hzs)
      rw [List.intercalate_cons_cons, List.append_assoc, List.append_assoc]
      exact hxs _ ⟨rfl, hmore⟩

theorem Derives.placed_append {p : Phrase} {ts : List Token} {t : Tree} (h : Derives p ts t) {rest : List Token}
    (hrest : Placed false rest) : Placed true (ts ++ rest) := by
  induction h generalizing rest with
  | ofProduct _ ih => exact ih hrest
  | ofPower _ ih => exact ih hrest
  | ofAtom _ ih => exact ih hrest
  | @sum op xs ys _ _ hop _ _ ihl ihr =>
    rw [List.append_assoc]
    refine ihl ⟨?_, ihr hrest⟩
    rcases hop with rfl | rfl <;> rfl
  | @product op xs ys _ _ hop _ _ ihl ihr =>
    rw [List.append_assoc]
    refine ihl ⟨?_, ihr hrest⟩
    rcases hop with rfl | rfl | rfl <;> rfl
  | power _ _ ihl ihr =>
    rw [List.append_assoc]
    exact ihl ⟨rfl, ihr hrest⟩
  | negated _ ih => exact ⟨rfl, ih hrest⟩
  | number _ => exact ⟨rfl, hrest⟩
  | var _ => exact ⟨rfl, hrest⟩
  | unit _ => exact ⟨rfl, hrest⟩
  | group _ ih =>
    rw [List.cons_append, List.append_assoc]
    exact ⟨rfl, ih ⟨rfl, hrest⟩⟩
  | @call f args hne _ _ ih =>
    refine ⟨rfl, rfl, ?_⟩
    change Placed true (_ ++ [Token.rightParen] ++ rest)
    rw [List.append_assoc]
    refine placed_intercalate (by simpa using hne) ?_ ⟨rfl, hrest⟩
    intro xs hxs rest hrest
    obtain ⟨a, ha, rfl⟩ := List.mem_map.mp hxs
    exact ih a ha hrest

theorem Derives.apart {ts : List Token} {t : Tree} (h : Derives .sum ts t) : Apart ts := by
  have hplaced : Placed true (ts ++ []) := h.placed_append rfl
  rw [List.append_nil] at hplaced
  exact hplaced.apart

def Pending.cost : Pending → Int
  | .operator op => if op = .negate then 0 else 1
  | .function _ => 0
  | .group _ places => places - 1

/-- The operands are `left` more than what waits uses up, and no parenthesis is without a place. -/
structure Balanced (left : Int) (s : Stacks) : Prop where
  count : (s.operands.length : Int) = left + (s.pending.map Pending.cost).sum
  places : ∀ mark places, .group mark places ∈ s.pending → 1 ≤ places

namespace Balanced

variable {left : Int} {out : List Tree} {pending : List Pending} {s s' : Stacks}

theorem reduce {op : Operator} {xs : List Tree} (h : Balanced left ⟨out, .operator op :: pending⟩)
    (hred : reduceOperator op out = .ok xs) : Balanced left ⟨xs, pending⟩ where
  count := by
    have hcount := h.count
    rcases reduceOperator_eq_ok hred with ⟨rfl, t, rest, rfl, rfl⟩ | ⟨hne, -, l, r, rest, rfl, rfl⟩
    · simpa [Pending.cost] using hcount
    · simp only [List.map_cons, List.sum_cons, Pending.cost, if_neg hne, List.length_cons] at hcount ⊢
      omega
  places mark places hmem := h.places mark places (List.mem_cons_of_mem _ hmem)

theorem reduceBefore {next : Operator} (h : Balanced left ⟨out, pending⟩)
    (hred : reduceBefore next out pending = .ok s) :
    Balanced left s :=
  reduceBefore_induction (P := fun out pending => Balanced left ⟨out, pending⟩)
    (fun _ _ _ _ h hop => h.reduce hop) h hred

theorem reduceGroup (h : Balanced left ⟨out, pending⟩) (hred : reduceGroup out pending = .ok s) : Balanced left s :=
  reduceGroup_induction (P := fun out pending => Balanced left ⟨out, pending⟩)
    (fun _ _ _ _ h hop => h.reduce hop) h hred

theorem close {mark places : Nat} (h : Balanced left ⟨out, .group mark places :: pending⟩)
    (hclose : closeGroup mark places out pending = .ok s) : Balanced left s := by
  have hcount := h.count
  have hplaces := h.places mark places List.mem_cons_self
  have hrest : ∀ m n, .group m n ∈ pending → 1 ≤ n := fun m n hmem => h.places m n (List.mem_cons_of_mem _ hmem)
  simp only [List.map_cons, List.sum_cons, Pending.cost] at hcount
  rcases closeGroup_eq_ok hclose with ⟨f, rest, ys, rfl, hcall, rfl⟩ | ⟨-, hle, rfl⟩
  · obtain ⟨hlength, -, -, rfl⟩ := reduceCall_eq_ok hcall
    refine ⟨?_, fun m n hmem => hrest m n (List.mem_cons_of_mem _ hmem)⟩
    simp only [List.map_cons, List.sum_cons, Pending.cost] at hcount
    simp only [List.length_cons, List.length_drop]
    omega
  · refine ⟨?_, hrest⟩
    change (out.length : Int) = left + (pending.map Pending.cost).sum
    change (out.length : Int) = _ at hcount
    omega

theorem step {t : Token} (h : Balanced left s) (hstep : s.step t = .ok s') : Balanced (left + t.gain) s' := by
  have hcount := h.count
  cases t with
  | operator op =>
    obtain ⟨r, hred, rfl⟩ := Stacks.step_operator_eq_ok hstep
    have hr := h.reduceBefore hred
    have hcount := hr.count
    refine ⟨?_, fun m n hmem => hr.places m n (by simpa using hmem)⟩
    simp only [List.map_cons, List.sum_cons, Pending.cost, Token.gain]
    split <;> omega
  | comma =>
    obtain ⟨xs, mark, places, rest, hred, rfl⟩ := Stacks.step_comma_eq_ok hstep
    have hr := h.reduceGroup hred
    have hcount := hr.count
    refine ⟨?_, fun m n hmem => ?_⟩
    · simp only [List.map_cons, List.sum_cons, Pending.cost, Token.gain] at hcount ⊢
      omega
    · rcases List.mem_cons.mp hmem with hmem | hmem
      · cases hmem
        omega
      · exact hr.places m n (List.mem_cons_of_mem _ hmem)
  | rightParen =>
    obtain ⟨xs, mark, places, rest, hred, hclose⟩ := Stacks.step_rightParen_eq_ok hstep
    rw [Token.gain, Int.add_zero]
    exact (h.reduceGroup hred).close hclose
  | leftParen =>
    cases hstep
    refine ⟨by simpa [Pending.cost, Token.gain] using hcount, fun m n hmem => ?_⟩
    rcases List.mem_cons.mp hmem with hmem | hmem
    · cases hmem
      omega
    · exact h.places m n hmem
  | function f =>
    cases hstep
    exact ⟨by simpa [Pending.cost, Token.gain] using hcount, fun m n hmem => h.places m n (by simpa using hmem)⟩
  | _ =>
    cases hstep
    refine ⟨?_, h.places⟩
    simp only [List.length_cons, Token.gain]
    omega

theorem run {ts : List Token} (h : Balanced left s) (hrun : s.run ts = .ok s') :
    Balanced (left + Formula.gain ts) s' := by
  induction ts generalizing left s with
  | nil =>
    cases hrun
    simpa [Formula.gain] using h
  | cons t rest ih =>
    obtain ⟨r, hstep, hrun⟩ := Stacks.run_cons_eq_ok hrun
    rw [gain_cons, ← Int.add_assoc]
    exact ih (h.step hstep) hrun

end Balanced

theorem gain_of_parse {ts : List Token} {t : Tree} (h : parse ts = .ok t) : gain ts = 1 := by
  obtain ⟨s, hrun, hred⟩ := parse_eq_ok h
  have hempty : Balanced 0 ⟨[], []⟩ := ⟨rfl, by simp⟩
  have hcount := ((hempty.run hrun).reduceGroup hred).count
  simpa [eq_comm] using hcount

theorem placed_of_parse {ts : List Token} {t : Tree} (h : parse ts = .ok t) (hapart : Apart ts) : Placed true ts :=
  (placed_of_gain hapart fun _ _ _ => rfl).2 (gain_of_parse h)

end Metrology.Formula
