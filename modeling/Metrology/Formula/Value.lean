import Metrology.Formula.Arithmetic
import Metrology.Formula.Tree

/-! # Values of trees

`Tree.eval` computes the value of a tree under bindings of its variables, from left to right, and stops at the
first variable that is not bound. `Tree.work` lists the operations that it carries out, up to that point.
-/
namespace Metrology.Formula

abbrev Bindings := String → Option Float

def Bindings.none : Bindings := fun _ => Option.none

def Bindings.ofList (pairs : List (String × Float)) : Bindings := fun name => pairs.lookup name

def Bindings.all (names : List String) (value : Float) : Bindings :=
  fun name => if names.contains name then some value else Option.none

inductive EvalError where
  | unbound (name : String)
  /-- A binary node with an operator that has no operation. -/
  | noOperation (op : Operator)
  /-- A call without arguments. -/
  | noArguments (f : Function)
  | arithmetic (e : ArithmeticError)
  deriving DecidableEq, Repr

inductive Operation where
  | binary (op : Operator) (left right result : Float)
  | call (f : Function) (args : List Float) (result : Float)

namespace Tree

mutual

def eval (bind : Bindings) : Tree → Except EvalError Float
  | .number value => .ok value
  | .var name =>
    match bind name with
    | some value => .ok value
    | none => .error (.unbound name)
  | .binary op left right =>
    match left.eval bind with
    | .error e => .error e
    | .ok x =>
      match right.eval bind with
      | .error e => .error e
      | .ok y =>
        match op.apply? with
        | some f => (f x y).mapError .arithmetic
        | none => .error (.noOperation op)
  | .unary _ operand =>
    match operand.eval bind with
    | .error e => .error e
    | .ok x => .ok (-x)
  | .call f args =>
    match evalAll bind args with
    | .error e => .error e
    | .ok [] => .error (.noArguments f)
    | .ok (x :: rest) => (f.apply x rest).mapError .arithmetic

def evalAll (bind : Bindings) : List Tree → Except EvalError (List Float)
  | [] => .ok []
  | t :: rest =>
    match t.eval bind with
    | .error e => .error e
    | .ok x =>
      match evalAll bind rest with
      | .error e => .error e
      | .ok xs => .ok (x :: xs)

end

mutual

def work (bind : Bindings) : Tree → List Operation
  | .number _ => []
  | .var _ => []
  | .binary op left right =>
    left.work bind ++
      match left.eval bind with
      | .error _ => []
      | .ok x =>
        right.work bind ++
          match right.eval bind, op.apply? with
          | .ok y, some f => (f x y).toOption.toList.map fun z => .binary op x y z
          | _, _ => []
  | .unary _ operand => operand.work bind
  | .call f args =>
    workAll bind args ++
      match evalAll bind args with
      | .ok (x :: rest) => (f.apply x rest).toOption.toList.map fun z => .call f (x :: rest) z
      | _ => []

def workAll (bind : Bindings) : List Tree → List Operation
  | [] => []
  | t :: rest =>
    t.work bind ++
      match t.eval bind with
      | .ok _ => workAll bind rest
      | .error _ => []

end

end Tree

end Metrology.Formula
