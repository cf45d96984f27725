import Metrology.Proofs.Formula.Reduction

/-! # The parser on three stacks

Operands, tokens that wait and open parentheses can also be kept on a stack each, where nothing but the way it
is used says that there is an entry for every open parenthesis. Whatever is taken off a stack may then be
missing, which is a fault. There are no such faults: the machine does what the parser does, whose two stacks
cannot come apart.
-/
namespace Metrology.Formula

/-- How a run of the machine can end badly: a token list that is refused, or a stack that is empty or has the
wrong entry. -/
inductive Fault where
  | refused (e : GrammarError)
  | noOperand
  | noGroup
  | unexpectedToken
  deriving DecidableEq, Repr

/-- An open parenthesis: the operands before it and the argument places since. -/
structure Group where
  mark : Nat
  places : Nat

structure Machine where
  output : List Tree
  stack : List Token
  groups : List Group

namespace Machine

def reduceOperator (op : Operator) (output : List Tree) : Except Fault (List Tree) :=
  if op = .convert then .error (.refused .conversion)
  else if op = .negate then
    if output.length = 0 then .error (.refused .missingNegated)
    else
      match output with
      | [] => .error .noOperand
      | operand :: rest => .ok (.unary op operand :: rest)
  else if output.length < 2 then .error (.refused (.missingOperand op))
  else
    match output with
    | [] => .error .noOperand
    | [_] => .error .noOperand
    | right :: left :: rest => .ok (.binary op left right :: rest)

def reduce (t : Token) (output : List Tree) : Except Fault (List Tree) :=
  match t with
  | .operator op => reduceOperator op output
  | .function f => .error (.refused (.functionWithoutParens f))
  | _ => .error .unexpectedToken

def reduceBefore (next : Operator) (output : List Tree) : List Token → Except Fault (List Tree × List Token)
  | .operator op :: rest =>
    if op.yieldsTo next then
      match reduceOperator op output with
      | .error e => .error e
      | .ok output => reduceBefore next output rest
    else .ok (output, .operator op :: rest)
  | stack => .ok (output, stack)

def reduceGroup (output : List Tree) : List Token → Except Fault (List Tree × List Token)
  | [] => .ok (output, [])
  | t :: rest =>
    if t = .leftParen then .ok (output, t :: rest)
    else
      match reduce t output with
      | .error e => .error e
      | .ok output => reduceGroup output rest

def close (m : Machine) (g : Group) : Except Fault Machine :=
  match m.stack with
  | .function f :: rest =>
    match reduceCall f g.mark g.places m.output with
    | .error e => .error (.refused e)
    | .ok output => .ok ⟨output, rest, m.groups⟩
  | _ =>
    if 1 < g.places then .error (.refused .strayComma)
    else if m.output.length = g.mark then .error (.refused .emptyParens)
    else .ok m

def step (m : Machine) : Token → Except Fault Machine
  | .number value => .ok { m with output := .number value :: m.output }
  | .var name => .ok { m with output := .var name :: m.output }
  | .unit name => .ok { m with output := .var name :: m.output }
  | .function f => .ok { m with stack := .function f :: m.stack }
  | .operator op =>
    match reduceBefore op m.output m.stack with
    | .error e => .error e
    | .ok (output, stack) => .ok ⟨output, .operator op :: stack, m.groups⟩
  | .comma =>
    match reduceGroup m.output m.stack with
    | .error e => .error e
    | .ok (_, []) => .error (.refused .strayComma)
    | .ok (output, stack) =>
      match m.groups with
      | [] => .error .noGroup
      | g :: groups => .ok ⟨output, stack, ⟨g.mark, g.places + 1⟩ :: groups⟩
  | .leftParen => .ok { m with stack := .leftParen :: m.stack, groups := ⟨m.output.length, 1⟩ :: m.groups }
  | .rightParen =>
    match reduceGroup m.output m.stack with
    | .error e => .error e
    | .ok (_, []) => .error (.refused .unopened)
    | .ok (output, _ :: stack) =>
      match m.groups with
      | [] => .error .noGroup
      | g :: groups => close ⟨output, stack, groups⟩ g

def run (m : Machine) : List Token → Except Fault Machine
  | [] => .ok m
  | t :: rest =>
    match m.step t with
    | .error e => .error e
    | .ok m => m.run rest

def finish (output : List Tree) : List Token → Except Fault (List Tree)
  | [] => .ok output
  | t :: rest =>
    if t = .leftParen then .error (.refused .unclosed)
    else
      match reduce t output with
      | .error e => .error e
      | .ok output => finish output rest

def parse (tokens : List Token) : Except Fault Tree :=
  if tokens.isEmpty then .error (.refused .emptyExpression)
  else
    match run ⟨[], [], []⟩ tokens with
    | .error e => .error e
    | .ok m =>
      match finish m.output m.stack with
      | .error e => .error e
      | .ok output =>
        if output.length ≠ 1 then .error (.refused (.leftover output.length))
        else
          match output with
          | [] => .error .noOperand
          | root :: _ => .ok root

end Machine

/-! ## Both sets of stacks -/

def Pending.token : Pending → Token
  | .operator op => .operator op
  | .function f => .function f
  | .group _ _ => .leftParen

def Pending.group? : Pending → Option Group
  | .group mark places => some ⟨mark, places⟩
  | _ => none

def Stacks.machine (s : Stacks) : Machine :=
  ⟨s.operands, s.pending.map Pending.token, s.pending.filterMap Pending.group?⟩

namespace Machine

theorem reduceOperator_eq (op : Operator) (xs : List Tree) :
    reduceOperator op xs = (Formula.reduceOperator op xs).mapError .refused := by
  match xs with
  | [] => cases op <;> rfl
  | [x] => cases op <;> rfl
  | r :: l :: rest => cases op <;> rfl

theorem reduceBefore_eq (next : Operator) (xs : List Tree) (pending : List Pending) :
    reduceBefore next xs (pending.map Pending.token) =
      ((Formula.reduceBefore next xs pending).map fun s =>
          (s.operands, s.pending.map Pending.token)).mapError .refused := by
  induction pending generalizing xs with
  | nil => rfl
  | cons waiting pending ih =>
    cases waiting with
    | function f => rfl
    | group mark places => rfl
    | operator op =>
      simp only [List.map_cons, Pending.token, reduceBefore, Formula.reduceBefore]
      cases op.yieldsTo next with
      | false => rfl
      | true =>
        simp only [if_true, reduceOperator_eq]
        cases Formula.reduceOperator op xs with
        | error e => rfl
        | ok ys => exact ih ys

theorem reduceGroup_eq (xs : List Tree) (pending : List Pending) :
    reduceGroup xs (pending.map Pending.token) =
      ((Formula.reduceGroup xs pending).map fun s => (s.operands, s.pending.map Pending.token)).mapError .refused := by
  induction pending generalizing xs with
  | nil => rfl
  | cons waiting pending ih =>
    cases waiting with
    | function f => rfl
    | group mark places => rfl
    | operator op =>
      simp only [List.map_cons, Pending.token, reduceGroup, Formula.reduceGroup, reduce, reduceOperator_eq,
        reduceCtorEq, if_false]
      cases Formula.reduceOperator op xs with
      | error e => rfl
      | ok ys => exact ih ys

/-- Only operators are taken off, so the open parentheses stay as they are. -/
theorem filterMap_group? (ops : List Operator) (pending : List Pending) :
    (ops.map Pending.operator ++ pending).filterMap Pending.group? = pending.filterMap Pending.group? := by
  induction ops with
  | nil => rfl
  | cons op ops ih => exact ih

theorem close_eq (mark places : Nat) (xs : List Tree) (pending : List Pending) :
    close (Stacks.machine ⟨xs, pending⟩) ⟨mark, places⟩ =
      ((closeGroup mark places xs pending).map Stacks.machine).mapError .refused := by
  have hplain : (if 1 < places then Except.error (Fault.refused .strayComma)
        else if xs.length = mark then .error (.refused .emptyParens) else .ok (Stacks.machine ⟨xs, pending⟩)) =
      ((if 1 < places then Except.error GrammarError.strayComma
        else if xs.length = mark then .error .emptyParens else .ok (⟨xs, pending⟩ : Stacks)).map
          Stacks.machine).mapError Fault.refused := by
    split
    · rfl
    · split <;> rfl
  match pending with
  | [] => exact hplain
  | .operator op :: rest => exact hplain
  | .group mark' places' :: rest => exact hplain
  | .function f :: rest =>
    simp only [close, Stacks.machine, List.map_cons, Pending.token, closeGroup]
    cases reduceCall f mark places xs with
    | error e => rfl
    | ok ys => rfl

theorem step_eq (s : Stacks) (t : Token) : s.machine.step t = ((s.step t).map Stacks.machine).mapError .refused := by
  cases t with
  | number value => rfl
  | var name => rfl
  | unit name => rfl
  | function f => rfl
  | leftParen => rfl
  | operator op =>
    simp only [step, Stacks.step, Stacks.machine, reduceBefore_eq]
    cases hred : Formula.reduceBefore op s.operands s.pending with
    | error e => rfl
    | ok r =>
      obtain ⟨ops, hpending, -⟩ := reduceBefore_eq_ok hred
      rw [hpending, filterMap_group?]
      rfl
  | comma =>
    simp only [step, Stacks.step, Stacks.machine, reduceGroup_eq]
    cases hred : Formula.reduceGroup s.operands s.pending with
    | error e => rfl
    | ok r =>
      obtain ⟨ops, hpending, -, hstop⟩ := reduceGroup_eq_ok hred
      rw [hpending, filterMap_group?]
      obtain ⟨ys, pending⟩ := r
      rcases hstop with hstop | ⟨mark, places, rest, hstop⟩
      · cases hstop
        rfl
      · cases hstop
        rfl
  | rightParen =>
    simp only [step, Stacks.step, Stacks.machine, reduceGroup_eq]
    cases hred : Formula.reduceGroup s.operands s.pending with
    | error e => rfl
    | ok r =>
      obtain ⟨ops, hpending, -, hstop⟩ := reduceGroup_eq_ok hred
      rw [hpending, filterMap_group?]
      obtain ⟨ys, pending⟩ := r
      rcases hstop with hstop | ⟨mark, places, rest, hstop⟩
      · cases hstop
        rfl
      · cases hstop
        exact close_eq mark places ys rest

theorem run_eq (s : Stacks) (ts : List Token) :
    s.machine.run ts = ((s.run ts).map Stacks.machine).mapError .refused := by
  induction ts generalizing s with
  | nil => rfl
  | cons t rest ih =>
    simp only [run, Stacks.run, step_eq]
    cases s.step t with
    | error e => rfl
    | ok r => exact ih r

theorem finish_eq (s : Stacks) : finish s.operands (s.pending.map Pending.token) = s.finish.mapError .refused := by
  obtain ⟨xs, pending⟩ := s
  unfold Stacks.finish
  induction pending generalizing xs with
  | nil => rfl
  | cons waiting pending ih =>
    cases waiting with
    | function f => rfl
    | group mark places => rfl
    | operator op =>
      simp only [List.map_cons, Pending.token, finish, Formula.reduceGroup, reduce, reduceOperator_eq,
        reduceCtorEq, if_false]
      cases Formula.reduceOperator op xs with
      | error e => rfl
      | ok ys => exact ih ys

/-- Nothing is ever taken off an empty stack: whatever the tokens are, the machine makes their tree or refuses
them. -/
theorem parse_eq (ts : List Token) : parse ts = (Formula.parse ts).mapError .refused := by
  unfold parse Formula.parse
  cases ts.isEmpty with
  | true => rfl
  | false =>
    have hrun : run ⟨[], [], []⟩ ts = (((⟨[], []⟩ : Stacks).run ts).map Stacks.machine).mapError .refused :=
      run_eq ⟨[], []⟩ ts
    simp only [Bool.false_eq_true, if_false, hrun]
    cases (⟨[], []⟩ : Stacks).run ts with
    | error e => rfl
    | ok s =>
      have hmap : (((.ok s : Except GrammarError Stacks).map Stacks.machine).mapError Fault.refused) =
        .ok s.machine := rfl
      have hfinish : finish s.machine.output s.machine.stack = s.finish.mapError .refused := finish_eq s
      rw [hmap]
      dsimp only
      rw [hfinish]
      cases s.finish with
      | error e => rfl
      | ok xs =>
        rcases xs with _ | ⟨t, _ | ⟨t', rest⟩⟩
        · rfl
        · rfl
        · rfl

end Machine

end Metrology.Formula
