import Mathlib.Data.List.Perm.Basic
import Metrology.Proofs.Formula.Reduction

/-! # What a tree is made of

The nodes of a tree are listed after their operands, so that a reduction puts one node behind those that are
listed already. Leaves then stand in the order of their tokens, and every operator is either listed or still
waits.
-/
namespace Metrology.Formula

/-- A node without what is below it; of a call, only the number of its arguments is left. -/
inductive Node where
  | number (value : Float)
  | name (name : String)
  | unary (op : Operator)
  | binary (op : Operator)
  | call (f : Function) (count : Nat)

namespace Node

def isLeaf : Node → Bool
  | .number _ | .name _ => true
  | _ => false

def operator? : Node → Option Operator
  | .unary op | .binary op => some op
  | _ => none

def call? : Node → Option (Function × Nat)
  | .call f count => some (f, count)
  | _ => none

/-- Only negation has one operand, the arrow has no node, and only extrema have more arguments than one. -/
def Proper : Node → Prop
  | .unary op => op = .negate
  | .binary op => op ≠ .negate ∧ op ≠ .convert
  | .call f count => count ≠ 0 ∧ (f.variadic = true ∨ count = 1)
  | _ => True

end Node

namespace Tree

mutual

def nodes : Tree → List Node
  | .number value => [.number value]
  | .var name => [.name name]
  | .binary op left right => left.nodes ++ right.nodes ++ [.binary op]
  | .unary op operand => operand.nodes ++ [.unary op]
  | .call f args => nodesAll args ++ [.call f args.length]

def nodesAll : List Tree → List Node
  | [] => []
  | t :: rest => t.nodes ++ nodesAll rest

end

theorem nodesAll_append (xs ys : List Tree) : nodesAll (xs ++ ys) = nodesAll xs ++ nodesAll ys := by
  induction xs with
  | nil => rfl
  | cons t rest ih => rw [List.cons_append, nodesAll, ih, nodesAll, List.append_assoc]

end Tree

def Token.leaf? : Token → Option Node
  | .number value => some (.number value)
  | .var name | .unit name => some (.name name)
  | _ => none

def Token.operator? : Token → Option Operator
  | .operator op => some op
  | _ => none

def Token.function? : Token → Option Function
  | .function f => some f
  | _ => none

def Pending.operator? : Pending → Option Operator
  | .operator op => some op
  | _ => none

def Operator.node (op : Operator) : Node := if op = .negate then .unary op else .binary op

def listing (xs : List Tree) : List Node := Tree.nodesAll xs.reverse

theorem listing_cons (t : Tree) (xs : List Tree) : listing (t :: xs) = listing xs ++ t.nodes := by
  simp [listing, Tree.nodesAll_append, Tree.nodesAll]

theorem listing_reduceOperator {op : Operator} {xs ys : List Tree} (h : reduceOperator op xs = .ok ys) :
    op ≠ .convert ∧ listing ys = listing xs ++ [op.node] := by
  rcases reduceOperator_eq_ok h with ⟨rfl, t, rest, rfl, rfl⟩ | ⟨hnegate, hconvert, l, r, rest, rfl, rfl⟩
  · constructor
    · decide
    · simp [listing_cons, Tree.nodes, Operator.node]
  · constructor
    · exact hconvert
    · simp [listing_cons, Tree.nodes, Operator.node, hnegate]

theorem listing_reduceCall {f : Function} {mark places : Nat} {xs ys : List Tree}
    (h : reduceCall f mark places xs = .ok ys) :
    (places ≠ 0 ∧ (f.variadic = true ∨ places = 1)) ∧ listing ys = listing xs ++ [.call f places] := by
  obtain ⟨hlength, hplaces, harity, rfl⟩ := reduceCall_eq_ok h
  have hcount : (xs.take places).reverse.length = places := by
    rw [List.length_reverse, List.length_take]
    omega
  have hsplit : listing xs = listing (xs.drop places) ++ Tree.nodesAll (xs.take places).reverse := by
    have happend : (xs.take places ++ xs.drop places).reverse = (xs.drop places).reverse ++ (xs.take places).reverse :=
      List.reverse_append
    rw [List.take_append_drop] at happend
    rw [listing, happend, Tree.nodesAll_append]
    rfl
  constructor
  · exact ⟨hplaces, harity⟩
  · rw [listing_cons, Tree.nodes, hcount, hsplit, List.append_assoc]

/-- What the operands and the waiting operators of the stacks have of the tokens read so far. -/
structure Stocked (ts : List Token) (s : Stacks) : Prop where
  leaves : (listing s.operands).filter Node.isLeaf = ts.filterMap Token.leaf?
  operators : ((listing s.operands).filterMap Node.operator? ++ s.pending.filterMap Pending.operator?).Perm
    (ts.filterMap Token.operator?)
  proper : ∀ node ∈ listing s.operands, node.Proper

namespace Stocked

variable {ts : List Token} {xs ys : List Tree} {pending : List Pending} {s s' : Stacks}

theorem reduceOperator {op : Operator} (h : Stocked ts ⟨xs, .operator op :: pending⟩)
    (hred : reduceOperator op xs = .ok ys) : Stocked ts ⟨ys, pending⟩ := by
  obtain ⟨hconvert, hlisting⟩ := listing_reduceOperator hred
  have hnode : op.node.isLeaf = false ∧ op.node.operator? = some op ∧ op.node.Proper := by
    cases op <;> first | exact absurd rfl hconvert | exact ⟨rfl, rfl, by simp [Operator.node, Node.Proper]⟩
  constructor
  · have hleaves := h.leaves
    simpa [hlisting, hnode.1] using hleaves
  · have hoperators := h.operators
    simpa [hlisting, hnode.2.1, Pending.operator?] using hoperators
  · rw [hlisting]
    exact List.forall_mem_append.mpr ⟨h.proper, List.forall_mem_singleton.mpr hnode.2.2⟩

theorem reduceBefore {next : Operator} (h : Stocked ts ⟨xs, pending⟩) (hred : reduceBefore next xs pending = .ok s) :
    Stocked ts s :=
  reduceBefore_induction (P := fun xs pending => Stocked ts ⟨xs, pending⟩)
    (fun _ _ _ _ h hop => h.reduceOperator hop) h hred

theorem reduceGroup (h : Stocked ts ⟨xs, pending⟩) (hred : reduceGroup xs pending = .ok s) : Stocked ts s :=
  reduceGroup_induction (P := fun xs pending => Stocked ts ⟨xs, pending⟩)
    (fun _ _ _ _ h hop => h.reduceOperator hop) h hred

theorem closeGroup {mark places : Nat} (h : Stocked ts ⟨xs, pending⟩)
    (hclose : closeGroup mark places xs pending = .ok s) :
    Stocked ts s := by
  rcases closeGroup_eq_ok hclose with ⟨f, rest, ys, rfl, hcall, rfl⟩ | ⟨-, -, rfl⟩
  · obtain ⟨harity, hlisting⟩ := listing_reduceCall hcall
    constructor
    · have hleaves := h.leaves
      simpa [hlisting, Node.isLeaf] using hleaves
    · have hnode : (Node.call f places).operator? = none := rfl
      have hfunction : (Pending.function f).operator? = none := rfl
      have hoperators := h.operators
      simpa [hlisting, hnode, hfunction] using hoperators
    · rw [hlisting]
      exact List.forall_mem_append.mpr ⟨h.proper, List.forall_mem_singleton.mpr harity⟩
  · exact h

/-- Tokens that are neither operands nor operators are not in stock. -/
theorem skip {t : Token} (h : Stocked ts ⟨xs, pending⟩) (hleaf : t.leaf? = none) (hoperator : t.operator? = none) :
    Stocked (ts ++ [t]) ⟨xs, pending⟩ := by
  constructor
  · simpa [hleaf] using h.leaves
  · simpa [hoperator] using h.operators
  · exact h.proper

theorem operand {t : Token} {x : Tree} {node : Node} (h : Stocked ts ⟨xs, pending⟩) (hleaf : t.leaf? = some node)
    (hx : x.nodes = [node]) (hnode : node.isLeaf = true) : Stocked (ts ++ [t]) ⟨x :: xs, pending⟩ := by
  have hkind : t.operator? = none ∧ node.operator? = none ∧ node.Proper := by
    cases t <;> cases hleaf <;> exact ⟨rfl, rfl, trivial⟩
  constructor
  · have hleaves := h.leaves
    simp only [listing_cons, hx, List.filter_append, hleaves, List.filterMap_append]
    simp [hleaf, hnode]
  · simpa [listing_cons, hx, hkind.1, hkind.2.1] using h.operators
  · rw [listing_cons, hx]
    exact List.forall_mem_append.mpr ⟨h.proper, List.forall_mem_singleton.mpr hkind.2.2⟩

/-- What waits besides operators does not count. -/
theorem congr {pending' : List Pending} (h : Stocked ts ⟨xs, pending⟩)
    (heq : pending'.filterMap Pending.operator? = pending.filterMap Pending.operator?) : Stocked ts ⟨xs, pending'⟩ := by
  constructor
  · exact h.leaves
  · have hoperators := h.operators
    rw [← heq] at hoperators
    exact hoperators
  · exact h.proper

theorem step {t : Token} (h : Stocked ts s) (hstep : s.step t = .ok s') : Stocked (ts ++ [t]) s' := by
  cases t with
  | number value =>
    cases hstep
    exact h.operand rfl rfl rfl
  | var name =>
    cases hstep
    exact h.operand rfl rfl rfl
  | unit name =>
    cases hstep
    exact h.operand rfl rfl rfl
  | function f =>
    cases hstep
    exact (h.skip rfl rfl).congr rfl
  | leftParen =>
    cases hstep
    exact (h.skip rfl rfl).congr rfl
  | comma =>
    obtain ⟨xs, mark, places, rest, hred, rfl⟩ := Stacks.step_comma_eq_ok hstep
    exact ((h.reduceGroup hred).skip rfl rfl).congr rfl
  | rightParen =>
    obtain ⟨xs, mark, places, rest, hred, hclose⟩ := Stacks.step_rightParen_eq_ok hstep
    have hopen : Stocked ts ⟨xs, rest⟩ := (h.reduceGroup hred).congr rfl
    exact (hopen.closeGroup hclose).skip rfl rfl
  | operator op =>
    obtain ⟨r, hred, rfl⟩ := Stacks.step_operator_eq_ok hstep
    have hr : Stocked ts r := h.reduceBefore hred
    constructor
    · have hleaf : (Token.operator op).leaf? = none := rfl
      simpa [hleaf] using hr.leaves
    -- The operator waits in front of those that are left, but stands behind them among the tokens.
    · have hoperators := hr.operators.append_right [op]
      rw [List.append_assoc] at hoperators
      have hmove : (op :: r.pending.filterMap Pending.operator?).Perm (r.pending.filterMap Pending.operator? ++ [op]) :=
        (List.perm_append_singleton op _).symm
      simpa [Token.operator?, Pending.operator?] using (hmove.append_left _).trans hoperators
    · exact hr.proper

theorem run {rest : List Token} (h : Stocked ts s) (hrun : s.run rest = .ok s') : Stocked (ts ++ rest) s' := by
  induction rest generalizing ts s with
  | nil =>
    cases hrun
    simpa using h
  | cons t rest ih =>
    obtain ⟨r, hstep, hrun⟩ := Stacks.run_cons_eq_ok hrun
    have hall := ih (h.step hstep) hrun
    rwa [List.append_assoc] at hall

end Stocked

theorem stocked_of_parse {ts : List Token} {t : Tree} (h : parse ts = .ok t) : Stocked ts ⟨[t], []⟩ := by
  obtain ⟨s, hrun, hred⟩ := parse_eq_ok h
  have hempty : Stocked [] ⟨[], []⟩ := ⟨rfl, List.Perm.nil, by simp [listing, Tree.nodesAll]⟩
  exact (hempty.run hrun).reduceGroup hred

end Metrology.Formula
