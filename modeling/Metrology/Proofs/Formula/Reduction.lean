import Metrology.Formula.Parser

/-! # What reductions do

The operators on top are applied one after another, before another operator, up to the innermost parenthesis
or to the end. What each step of the parser does when it succeeds is read off here once, with all that it has
checked.
-/
namespace Metrology.Formula

def reduceAll : List Operator → List Tree → Except GrammarError (List Tree)
  | [], operands => .ok operands
  | op :: ops, operands =>
    match reduceOperator op operands with
    | .ok operands => reduceAll ops operands
    | .error e => .error e

theorem reduceAll_append {ops ops' : List Operator} {xs ys : List Tree} (h : reduceAll ops xs = .ok ys) :
    reduceAll (ops ++ ops') xs = reduceAll ops' ys := by
  induction ops generalizing xs with
  | nil =>
    cases h
    rfl
  | cons op ops ih =>
    simp only [List.cons_append, reduceAll] at h ⊢
    cases hop : reduceOperator op xs with
    | error e => simp [hop] at h
    | ok zs =>
      simp only [hop] at h ⊢
      exact ih h

theorem reduceAll_cons_eq_ok {op : Operator} {ops : List Operator} {xs ys : List Tree}
    (h : reduceAll (op :: ops) xs = .ok ys) : ∃ zs, reduceOperator op xs = .ok zs ∧ reduceAll ops zs = .ok ys := by
  simp only [reduceAll] at h
  cases hop : reduceOperator op xs with
  | error e => simp [hop] at h
  | ok zs =>
    simp only [hop] at h
    exact ⟨zs, rfl, h⟩

/-- A negation takes the operand on top and a binary operator the two on top; the arrow takes none. -/
theorem reduceOperator_eq_ok {op : Operator} {xs ys : List Tree} (h : reduceOperator op xs = .ok ys) :
    (op = .negate ∧ ∃ t rest, xs = t :: rest ∧ ys = .unary .negate t :: rest) ∨
      (op ≠ .negate ∧ op ≠ .convert ∧ ∃ l r rest, xs = r :: l :: rest ∧ ys = .binary op l r :: rest) := by
  cases op with
  | convert => cases h
  | negate =>
    match xs with
    | [] => cases h
    | t :: rest =>
      cases h
      exact Or.inl ⟨rfl, t, rest, rfl, rfl⟩
  | _ =>
    match xs with
    | [] => cases h
    | [_] => cases h
    | r :: l :: rest =>
      cases h
      exact Or.inr ⟨by decide, by decide, l, r, rest, rfl, rfl⟩

/-- What applying one operator to the operands on top keeps, applying all of them keeps. -/
theorem reduceAll_induction {P : List Tree → List Pending → Prop}
    (hreduce : ∀ op xs ys pending, P xs (.operator op :: pending) → reduceOperator op xs = .ok ys → P ys pending)
    {ops : List Operator} {xs ys : List Tree} (pending : List Pending) (h : P xs (ops.map .operator ++ pending))
    (hred : reduceAll ops xs = .ok ys) : P ys pending := by
  induction ops generalizing xs with
  | nil =>
    cases hred
    exact h
  | cons op ops ih =>
    obtain ⟨zs, hop, hred⟩ := reduceAll_cons_eq_ok hred
    exact ih (hreduce op xs zs _ h hop) hred

theorem reduceBefore_append {next : Operator} {ops : List Operator} {xs ys : List Tree} (pending : List Pending)
    (hops : ∀ op ∈ ops, op.yieldsTo next = true) (h : reduceAll ops xs = .ok ys) :
    reduceBefore next xs (ops.map .operator ++ pending) = reduceBefore next ys pending := by
  induction ops generalizing xs with
  | nil =>
    cases h
    rfl
  | cons op ops ih =>
    obtain ⟨zs, hop, h⟩ := reduceAll_cons_eq_ok h
    simp only [List.map_cons, List.cons_append, reduceBefore, hops op List.mem_cons_self, if_true, hop]
    exact ih (fun o ho => hops o (List.mem_cons_of_mem _ ho)) h

/-- What is reduced before an operator yields to it, and what is then on top does not. -/
theorem reduceBefore_eq_ok {next : Operator} {xs : List Tree} {pending : List Pending} {s : Stacks}
    (h : reduceBefore next xs pending = .ok s) :
    ∃ ops : List Operator, pending = ops.map .operator ++ s.pending ∧ reduceAll ops xs = .ok s.operands ∧
      (∀ op ∈ ops, op.yieldsTo next = true) ∧ ∀ op rest, s.pending = .operator op :: rest →
          op.yieldsTo next = false := by
  induction pending generalizing xs with
  | nil =>
    cases h
    exact ⟨[], rfl, rfl, by simp, by simp⟩
  | cons waiting pending ih =>
    cases waiting with
    | operator op =>
      simp only [reduceBefore] at h
      cases hyield : op.yieldsTo next with
      | false =>
        simp only [hyield, Bool.false_eq_true, if_false] at h
        cases h
        refine ⟨[], rfl, rfl, by simp, fun o rest ho => ?_⟩
        cases ho
        exact hyield
      | true =>
        simp only [hyield, if_true] at h
        cases hop : reduceOperator op xs with
        | error e => simp [hop] at h
        | ok zs =>
          simp only [hop] at h
          obtain ⟨ops, hpending, hred, hops, hstop⟩ := ih h
          refine ⟨op :: ops, by rw [hpending]; rfl, by simp only [reduceAll, hop, hred], ?_, hstop⟩
          simpa [hyield] using hops
    | function f =>
      cases h
      exact ⟨[], rfl, rfl, by simp, by simp⟩
    | group mark places =>
      cases h
      exact ⟨[], rfl, rfl, by simp, by simp⟩

theorem reduceGroup_append {ops : List Operator} {xs ys : List Tree} (pending : List Pending)
    (h : reduceAll ops xs = .ok ys) : reduceGroup xs (ops.map .operator ++ pending) = reduceGroup ys pending := by
  induction ops generalizing xs with
  | nil =>
    cases h
    rfl
  | cons op ops ih =>
    obtain ⟨zs, hop, h⟩ := reduceAll_cons_eq_ok h
    simp only [List.map_cons, List.cons_append, reduceGroup, hop]
    exact ih h

/-- Nothing but operators is reduced, and what is then on top is an open parenthesis if there is anything. -/
theorem reduceGroup_eq_ok {xs : List Tree} {pending : List Pending} {s : Stacks} (h : reduceGroup xs pending = .ok s) :
    ∃ ops : List Operator, pending = ops.map .operator ++ s.pending ∧ reduceAll ops xs = .ok s.operands ∧
      (s.pending = [] ∨ ∃ mark places rest, s.pending = .group mark places :: rest) := by
  induction pending generalizing xs with
  | nil =>
    cases h
    exact ⟨[], rfl, rfl, Or.inl rfl⟩
  | cons waiting pending ih =>
    cases waiting with
    | operator op =>
      simp only [reduceGroup] at h
      cases hop : reduceOperator op xs with
      | error e => simp [hop] at h
      | ok zs =>
        simp only [hop] at h
        obtain ⟨ops, hpending, hred, hstop⟩ := ih h
        exact ⟨op :: ops, by rw [hpending]; rfl, by simp only [reduceAll, hop, hred], hstop⟩
    | function f => cases h
    | group mark places =>
      cases h
      exact ⟨[], rfl, rfl, Or.inr ⟨mark, places, pending, rfl⟩⟩

theorem reduceBefore_induction {P : List Tree → List Pending → Prop}
    (hreduce : ∀ op xs ys pending, P xs (.operator op :: pending) → reduceOperator op xs = .ok ys → P ys pending)
    {next : Operator} {xs : List Tree} {pending : List Pending} {s : Stacks} (h : P xs pending)
    (hred : reduceBefore next xs pending = .ok s) : P s.operands s.pending := by
  obtain ⟨ops, hpending, hred, -, -⟩ := reduceBefore_eq_ok hred
  rw [hpending] at h
  exact reduceAll_induction hreduce s.pending h hred

theorem reduceGroup_induction {P : List Tree → List Pending → Prop}
    (hreduce : ∀ op xs ys pending, P xs (.operator op :: pending) → reduceOperator op xs = .ok ys → P ys pending)
    {xs : List Tree} {pending : List Pending} {s : Stacks} (h : P xs pending) (hred : reduceGroup xs pending = .ok s) :
    P s.operands s.pending := by
  obtain ⟨ops, hpending, hred, -⟩ := reduceGroup_eq_ok hred
  rw [hpending] at h
  exact reduceAll_induction hreduce s.pending h hred

/-- A call takes the operands above those that stood before its parenthesis if they are as many as its
places. -/
theorem reduceCall_of_length {f : Function} {args : List Tree} (hne : args ≠ [])
    (harity : f.variadic = true ∨ args.length = 1) (operands : List Tree) :
    reduceCall f operands.length args.length (args.reverse ++ operands) = .ok (.call f args :: operands) := by
  have hpos : args.length ≠ 0 := fun h => hne (List.eq_nil_of_length_eq_zero h)
  have hvalid : (!f.variadic && args.length != 1) = false := by
    rcases harity with h | h <;> simp [h]
  have hlength : args.reverse.length = args.length := List.length_reverse
  have htake : (args.reverse ++ operands).take args.length = args.reverse := by
    rw [← hlength, List.take_left]
  have hdrop : (args.reverse ++ operands).drop args.length = operands := by
    rw [← hlength, List.drop_left]
  simp [reduceCall, hpos, hvalid, htake, hdrop]

theorem reduceCall_eq_ok {f : Function} {mark places : Nat} {xs ys : List Tree}
    (h : reduceCall f mark places xs = .ok ys) :
    xs.length = mark + places ∧ places ≠ 0 ∧ (f.variadic = true ∨ places = 1) ∧
      ys = .call f (xs.take places).reverse :: xs.drop places := by
  by_cases hproduced : (xs.length : Int) - mark = 0
  · simp [reduceCall, hproduced] at h
  · by_cases hcount : (xs.length : Int) - mark = places
    · have hne : places ≠ 0 := by omega
      cases harity : !f.variadic && places != 1 with
      | true => simp [reduceCall, hcount, hne, harity] at h
      | false =>
        have hvariadic : f.variadic = true ∨ places = 1 := by
          cases hf : f.variadic with
          | true => exact Or.inl rfl
          | false => exact Or.inr (by simpa [hf] using harity)
        rw [hcount] at hproduced
        simp only [reduceCall, hcount, if_neg hproduced, ne_eq, not_true_eq_false, if_false, if_neg hne, harity,
          Bool.false_eq_true] at h
        exact ⟨by omega, hne, hvariadic, (Except.ok.inj h).symm⟩
    · simp [reduceCall, hproduced, hcount] at h

theorem closeGroup_eq_ok {mark places : Nat} {xs : List Tree} {pending : List Pending} {s : Stacks}
    (h : closeGroup mark places xs pending = .ok s) :
    (∃ f rest ys, pending = .function f :: rest ∧ reduceCall f mark places xs = .ok ys ∧ s = ⟨ys, rest⟩) ∨
      ((∀ f rest, pending ≠ .function f :: rest) ∧ places ≤ 1 ∧ s = ⟨xs, pending⟩) := by
  unfold closeGroup at h
  split at h
  · next f rest =>
    cases hcall : reduceCall f mark places xs with
    | error e => simp [hcall] at h
    | ok ys =>
      simp only [hcall] at h
      cases h
      exact Or.inl ⟨f, rest, ys, rfl, hcall, rfl⟩
  · next hplain =>
    split at h
    · cases h
    · next hplaces =>
      split at h
      · cases h
      · cases h
        exact Or.inr ⟨hplain, by omega, rfl⟩

namespace Stacks

variable {s s' : Stacks}

theorem step_operator_eq_ok {op : Operator} (h : s.step (.operator op) = .ok s') :
    ∃ r : Stacks, reduceBefore op s.operands s.pending = .ok r ∧ s' = ⟨r.operands, .operator op :: r.pending⟩ := by
  simp only [step] at h
  cases hred : reduceBefore op s.operands s.pending with
  | error e => simp [hred] at h
  | ok r =>
    simp only [hred] at h
    cases h
    exact ⟨r, rfl, rfl⟩

theorem step_comma_eq_ok (h : s.step .comma = .ok s') :
    ∃ xs mark places rest, reduceGroup s.operands s.pending = .ok ⟨xs, .group mark places :: rest⟩ ∧
      s' = ⟨xs, .group mark (places + 1) :: rest⟩ := by
  simp only [step] at h
  split at h
  · next xs mark places rest hred =>
    cases h
    exact ⟨xs, mark, places, rest, hred, rfl⟩
  · cases h
  · cases h

theorem step_rightParen_eq_ok (h : s.step .rightParen = .ok s') :
    ∃ xs mark places rest, reduceGroup s.operands s.pending = .ok ⟨xs, .group mark places :: rest⟩ ∧
      closeGroup mark places xs rest = .ok s' := by
  simp only [step] at h
  split at h
  · next xs mark places rest hred => exact ⟨xs, mark, places, rest, hred, h⟩
  · cases h
  · cases h

theorem run_cons_eq_ok {t : Token} {rest : List Token} (h : s.run (t :: rest) = .ok s') :
    ∃ r : Stacks, s.step t = .ok r ∧ r.run rest = .ok s' := by
  simp only [run] at h
  cases hstep : s.step t with
  | error e => simp [hstep] at h
  | ok r =>
    simp only [hstep] at h
    exact ⟨r, rfl, h⟩

end Stacks

theorem parse_eq_ok {ts : List Token} {t : Tree} (h : parse ts = .ok t) :
    ∃ s, (⟨[], []⟩ : Stacks).run ts = .ok s ∧ reduceGroup s.operands s.pending = .ok ⟨[t], []⟩ := by
  unfold parse at h
  split at h
  · cases h
  · split at h
    · cases h
    · next s hrun =>
      refine ⟨s, hrun, ?_⟩
      split at h
      · cases h
      · next x hfinish =>
        cases h
        unfold Stacks.finish at hfinish
        split at hfinish
        · next xs hred =>
          cases hfinish
          exact hred
        · cases hfinish
        · cases hfinish
      · cases h

end Metrology.Formula
