import Metrology.Formula.Token
import Metrology.Formula.Tree

/-! # From tokens to trees

The parser keeps two stacks. Finished subtrees are operands; operators, functions and open parentheses wait
until what follows them settles their operands. An open parenthesis remembers how many operands stood before
it and how many arguments have been separated by commas since, which is how a call finds its arguments. A
reduction replaces operands by the tree that they are operands of, so every tree on the stack is complete.
-/
namespace Metrology.Formula

inductive GrammarError where
  | emptyExpression
  | strayComma
  | unopened
  | unclosed
  | emptyParens
  | functionWithoutParens (f : Function)
  | conversion
  | missingNegated
  | missingOperand (op : Operator)
  | unevenArguments (f : Function)
  | noArguments (f : Function)
  | tooManyArguments (f : Function) (count : Nat)
  | leftover (count : Nat)
  deriving DecidableEq, Repr

inductive Pending where
  | operator (op : Operator)
  | function (f : Function)
  /-- An open parenthesis with the number of operands before it and of argument places since. -/
  | group (mark places : Nat)
  deriving DecidableEq, Repr

/-- Both stacks, the top first. -/
structure Stacks where
  operands : List Tree
  pending : List Pending

def reduceOperator (op : Operator) (operands : List Tree) : Except GrammarError (List Tree) :=
  match op, operands with
  | .convert, _ => .error .conversion
  | .negate, [] => .error .missingNegated
  | .negate, t :: rest => .ok (.unary .negate t :: rest)
  | op, right :: left :: rest => .ok (.binary op left right :: rest)
  | op, _ => .error (.missingOperand op)

/-- Applies a function to the operands since its parenthesis, which have to be as many as its argument
places. -/
def reduceCall (f : Function) (mark places : Nat) (operands : List Tree) : Except GrammarError (List Tree) :=
  let produced : Int := (operands.length : Int) - mark
  let count := if produced = 0 then 0 else places
  if produced ≠ count then .error (.unevenArguments f)
  else if count = 0 then .error (.noArguments f)
  else if !f.variadic && count != 1 then .error (.tooManyArguments f count)
  else .ok (.call f (operands.take count).reverse :: operands.drop count)

/-- Whether a waiting operator takes its operands before the operator that follows. -/
def Operator.yieldsTo (waiting next : Operator) : Bool :=
  next.rank < waiting.rank || (waiting.rank == next.rank && next.groupsLeft)

def reduceBefore (next : Operator) : List Tree → List Pending → Except GrammarError Stacks
  | operands, .operator op :: rest =>
    if op.yieldsTo next then
      match reduceOperator op operands with
      | .ok operands => reduceBefore next operands rest
      | .error e => .error e
    else .ok ⟨operands, .operator op :: rest⟩
  | operands, pending => .ok ⟨operands, pending⟩

/-- Reduces everything above the innermost open parenthesis, which is then on top; nothing is left without
one. -/
def reduceGroup : List Tree → List Pending → Except GrammarError Stacks
  | operands, .operator op :: rest =>
    match reduceOperator op operands with
    | .ok operands => reduceGroup operands rest
    | .error e => .error e
  | _, .function f :: _ => .error (.functionWithoutParens f)
  | operands, pending => .ok ⟨operands, pending⟩

/-- Ends the group with the given bookkeeping: a call if a function waits before it, a plain parenthesis
otherwise. -/
def closeGroup (mark places : Nat) (operands : List Tree) : List Pending → Except GrammarError Stacks
  | .function f :: rest =>
    match reduceCall f mark places operands with
    | .ok operands => .ok ⟨operands, rest⟩
    | .error e => .error e
  | pending =>
    if 1 < places then .error .strayComma
    else if operands.length = mark then .error .emptyParens
    else .ok ⟨operands, pending⟩

def Stacks.step (s : Stacks) : Token → Except GrammarError Stacks
  | .number value => .ok { s with operands := .number value :: s.operands }
  | .var name => .ok { s with operands := .var name :: s.operands }
  | .unit name => .ok { s with operands := .var name :: s.operands }
  | .function f => .ok { s with pending := .function f :: s.pending }
  | .operator op =>
    match reduceBefore op s.operands s.pending with
    | .ok s => .ok { s with pending := .operator op :: s.pending }
    | .error e => .error e
  | .comma =>
    match reduceGroup s.operands s.pending with
    | .ok ⟨operands, .group mark places :: rest⟩ => .ok ⟨operands, .group mark (places + 1) :: rest⟩
    | .ok _ => .error .strayComma
    | .error e => .error e
  | .leftParen => .ok { s with pending := .group s.operands.length 1 :: s.pending }
  | .rightParen =>
    match reduceGroup s.operands s.pending with
    | .ok ⟨operands, .group mark places :: rest⟩ => closeGroup mark places operands rest
    | .ok _ => .error .unopened
    | .error e => .error e

def Stacks.run (s : Stacks) : List Token → Except GrammarError Stacks
  | [] => .ok s
  | t :: rest =>
    match s.step t with
    | .ok s => s.run rest
    | .error e => .error e

def Stacks.finish (s : Stacks) : Except GrammarError (List Tree) :=
  match reduceGroup s.operands s.pending with
  | .ok ⟨operands, []⟩ => .ok operands
  | .ok _ => .error .unclosed
  | .error e => .error e

def parse (tokens : List Token) : Except GrammarError Tree :=
  if tokens.isEmpty then .error .emptyExpression
  else
    match (Stacks.mk [] []).run tokens with
    | .error e => .error e
    | .ok s =>
      match s.finish with
      | .error e => .error e
      | .ok [t] => .ok t
      | .ok operands => .error (.leftover operands.length)

end Metrology.Formula
