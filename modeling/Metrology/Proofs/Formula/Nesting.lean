import Metrology.Proofs.Formula.Inventory
import Metrology.Proofs.Formula.Machine

/-! # How parentheses nest

Parentheses are either plain or those of a function, and only in the latter may commas stand. Between a
function and its parentheses there can be operands and other calls, as nothing looks at the neighbours of a
token, but no operator and no plain parentheses. What waits tells apart the parentheses and functions that are
still open.
-/
namespace Metrology.Formula

/-- Tokens whose parentheses are balanced and whose commas stand directly in the parentheses of functions,
with each function and one more than the commas directly in its parentheses, in the order in which these
close. Operators and plain parentheses may be left out of what stands outside of all parentheses. -/
inductive Nested : Bool → List Token → List (Function × Nat) → Prop where
  | nil (all : Bool) : Nested all [] []
  | leaf {all : Bool} {ts : List Token} {calls : List (Function × Nat)} {t : Token} (h : Nested all ts calls)
      (ht : t.leaf?.isSome = true) : Nested all (ts ++ [t]) calls
  | operator (op : Operator) {ts : List Token} {calls : List (Function × Nat)} (h : Nested true ts calls) :
      Nested true (ts ++ [.operator op]) calls
  | parens {ts us : List Token} {calls inner : List (Function × Nat)} (h : Nested true ts calls)
      (hus : Nested true us inner) : Nested true (ts ++ .leftParen :: us ++ [.rightParen]) (calls ++ inner)
  | call (f : Function) (places : List (List Token × List (Function × Nat))) {all : Bool} {ts us vs : List Token}
      {calls between last : List (Function × Nat)} (h : Nested all ts calls) (hus : Nested false us between)
      (hplaces : ∀ place ∈ places, Nested true place.1 place.2) (hvs : Nested true vs last) :
      Nested all
        (ts ++ .function f :: us ++ .leftParen :: (places.flatMap fun place => place.1 ++ [.comma]) ++
          vs ++ [.rightParen])
        (calls ++ between ++ places.flatMap Prod.snd ++ last ++ [(f, places.length + 1)])

namespace Nested

variable {all : Bool} {ts us : List Token} {calls inner : List (Function × Nat)}

theorem weaken (h : Nested all ts calls) : Nested true ts calls := by
  induction h with
  | nil _ => exact .nil true
  | leaf _ ht ih => exact .leaf ih ht
  | operator op _ ih => exact .operator op ih
  | parens _ _ ih ihus => exact .parens ih ihus
  | call f places _ hus hplaces hvs ih => exact .call f places ih hus hplaces hvs

theorem append (h : Nested all ts calls) (hus : Nested all us inner) : Nested all (ts ++ us) (calls ++ inner) := by
  induction hus with
  | nil _ => simpa using h
  | leaf _ ht ih =>
    rw [← List.append_assoc]
    exact .leaf (ih h) ht
  | operator op _ ih =>
    rw [← List.append_assoc]
    exact .operator op (ih h)
  | parens _ hus ih =>
    have hjoined := Nested.parens (ih h) hus
    simpa only [List.append_assoc] using hjoined
  | call f places _ hus hplaces hvs ih =>
    have hjoined := Nested.call f places (ih h) hus hplaces hvs
    simpa only [List.append_assoc] using hjoined

theorem function?_of_leaf {t : Token} (ht : t.leaf?.isSome = true) : t.function? = none := by
  cases t <;> first | rfl | cases ht

theorem count_functions (h : Nested all ts calls) (f : Function) :
    (calls.map Prod.fst).count f = (ts.filterMap Token.function?).count f := by
  induction h with
  | nil _ => rfl
  | leaf _ ht ih => simpa [function?_of_leaf ht] using ih
  | operator op _ ih => simpa [List.filterMap_cons, Token.function?] using ih
  | parens _ _ ih ihus =>
    simp only [List.map_append, List.count_append, List.filterMap_append, List.filterMap_cons,
      List.filterMap_nil, Token.function?]
    simp [ih, ihus]
  | @call g places all ts us vs calls between last _ _ _ _ ih ihus ihplaces ihvs =>
    have hinner : ((places.flatMap Prod.snd).map Prod.fst).count f =
        ((places.flatMap fun place => place.1 ++ [.comma]).filterMap Token.function?).count f := by
      clear * - ihplaces
      induction places with
      | nil => rfl
      | cons place rest ih =>
        have hplace := ihplaces place List.mem_cons_self
        have hrest := ih fun other hmem => ihplaces other (List.mem_cons_of_mem _ hmem)
        simp only [List.flatMap_cons, List.map_append, List.count_append, List.filterMap_append, hplace, hrest]
        simp [List.filterMap_cons, Token.function?]
    simp only [List.map_append, List.count_append, List.filterMap_append, List.filterMap_cons, List.filterMap_nil,
      Token.function?, List.map_cons, List.map_nil, ih, ihus, hinner, ihvs, List.count_cons, List.count_nil]
    omega

/-- No function is without parentheses, and no parentheses have two functions. -/
theorem perm_functions (h : Nested all ts calls) : (calls.map Prod.fst).Perm (ts.filterMap Token.function?) :=
  List.perm_iff_count.mpr h.count_functions

end Nested

def callsOf (xs : List Tree) : List (Function × Nat) := (listing xs).filterMap Node.call?

theorem callsOf_reduceOperator {op : Operator} {xs ys : List Tree} (h : reduceOperator op xs = .ok ys) :
    callsOf ys = callsOf xs := by
  obtain ⟨-, hlisting⟩ := listing_reduceOperator h
  have hnode : op.node.call? = none := by cases op <;> rfl
  simp [callsOf, hlisting, hnode]

theorem callsOf_reduceBefore {next : Operator} {xs : List Tree} {pending : List Pending} {s : Stacks}
    (h : reduceBefore next xs pending = .ok s) : callsOf s.operands = callsOf xs :=
  reduceBefore_induction (P := fun ys _ => callsOf ys = callsOf xs)
    (fun _ _ _ _ hys hop => (callsOf_reduceOperator hop).trans hys) rfl h

theorem callsOf_reduceGroup {xs : List Tree} {pending : List Pending} {s : Stacks}
    (h : reduceGroup xs pending = .ok s) : callsOf s.operands = callsOf xs :=
  reduceGroup_induction (P := fun ys _ => callsOf ys = callsOf xs)
    (fun _ _ _ _ hys hop => (callsOf_reduceOperator hop).trans hys) rfl h

theorem callsOf_reduceCall {f : Function} {mark places : Nat} {xs ys : List Tree}
    (h : reduceCall f mark places xs = .ok ys) :
    callsOf ys = callsOf xs ++ [(f, places)] := by
  obtain ⟨-, hlisting⟩ := listing_reduceCall h
  have hnode : (Node.call f places).call? = some (f, places) := rfl
  simp [callsOf, hlisting, hnode]

/-- What waits and the tokens that have led to it, with the calls that are closed among them. Behind a
function that still waits for its parentheses there is nothing but operands and other calls. -/
inductive Leads : List Pending → List Token → List (Function × Nat) → Prop where
  | start {ts : List Token} {calls : List (Function × Nat)} (h : Nested true ts calls) : Leads [] ts calls
  | operator (op : Operator) {pending : List Pending} {ts us : List Token} {calls inner : List (Function × Nat)}
      (h : Leads pending ts calls) (hus : Nested true us inner) :
      Leads (.operator op :: pending) (ts ++ us) (calls ++ inner)
  | function (f : Function) {pending : List Pending} {ts us : List Token} {calls inner : List (Function × Nat)}
      (h : Leads pending ts calls) (hus : Nested false us inner) :
      Leads (.function f :: pending) (ts ++ .function f :: us) (calls ++ inner)
  | group (mark : Nat) (places : List (List Token × List (Function × Nat))) {pending : List Pending}
      {ts vs : List Token} {calls last : List (Function × Nat)} (h : Leads pending ts calls)
      (hplaces : ∀ place ∈ places, Nested true place.1 place.2) (hvs : Nested true vs last) :
      Leads (.group mark (places.length + 1) :: pending)
        (ts ++ .leftParen :: (places.flatMap fun place => place.1 ++ [.comma]) ++ vs)
        (calls ++ places.flatMap Prod.snd ++ last)

namespace Leads

variable {pending : List Pending} {ts us : List Token} {calls inner : List (Function × Nat)} {s s' : Stacks}

/-- Operands and calls may stand anywhere. -/
theorem extend (h : Leads pending ts calls) (hus : Nested false us inner) :
    Leads pending (ts ++ us) (calls ++ inner) := by
  cases h with
  | start h => exact .start (h.append hus.weaken)
  | operator op h hvs =>
    have hjoined := Leads.operator op h (hvs.append hus.weaken)
    simpa only [List.append_assoc] using hjoined
  | function f h hvs =>
    have hjoined := Leads.function f h (hvs.append hus)
    simpa only [List.append_assoc, List.cons_append] using hjoined
  | group mark places h hplaces hvs =>
    have hjoined := Leads.group mark places h hplaces (hvs.append hus.weaken)
    simpa only [List.append_assoc, List.cons_append] using hjoined

/-- Operators and plain parentheses may stand anywhere but behind a function that waits for its
parentheses. -/
theorem absorb (h : Leads pending ts calls) (hplain : ∀ f rest, pending ≠ .function f :: rest)
    (hus : Nested true us inner) : Leads pending (ts ++ us) (calls ++ inner) := by
  cases h with
  | start h => exact .start (h.append hus)
  | operator op h hvs =>
    have hjoined := Leads.operator op h (hvs.append hus)
    simpa only [List.append_assoc] using hjoined
  | function f h hvs => exact absurd rfl (hplain f _)
  | group mark places h hplaces hvs =>
    have hjoined := Leads.group mark places h hplaces (hvs.append hus)
    simpa only [List.append_assoc, List.cons_append] using hjoined

/-- What stands behind the operators that are reduced is nested. -/
theorem split {ops : List Operator} (h : Leads (ops.map .operator ++ pending) ts calls) :
    ∃ us vs first second, ts = us ++ vs ∧ calls = first ++ second ∧ Leads pending us first ∧ Nested true vs second := by
  induction ops generalizing ts calls with
  | nil => exact ⟨ts, [], calls, [], by simp, by simp, h, .nil true⟩
  | cons op ops ih =>
    cases h with
    | operator _ h hus =>
      obtain ⟨us, vs, first, second, rfl, rfl, hleads, hvs⟩ := ih h
      exact ⟨us, _, first, _, List.append_assoc _ _ _, List.append_assoc _ _ _, hleads, hvs.append hus⟩

theorem reduceGroup {xs : List Tree} (h : Leads pending ts calls) (hred : reduceGroup xs pending = .ok s) :
    Leads s.pending ts calls := by
  obtain ⟨ops, hpending, -, hstop⟩ := reduceGroup_eq_ok hred
  rw [hpending] at h
  obtain ⟨us, vs, first, second, rfl, rfl, hleads, hvs⟩ := h.split
  -- The reduction stops at the bottom or at parentheses, never at a function, so that what it passes may join
  -- what is there.
  have hplain : ∀ f rest, s.pending ≠ .function f :: rest := by
    intro f rest hfunction
    rcases hstop with hstop | ⟨mark, places, others, hstop⟩
    · rw [hstop] at hfunction
      cases hfunction
    · rw [hstop] at hfunction
      cases hfunction
  exact hleads.absorb hplain hvs

theorem close {mark places : Nat} {xs : List Tree} (h : Leads (.group mark places :: pending) ts (callsOf xs))
    (hclose : closeGroup mark places xs pending = .ok s) :
    Leads s.pending (ts ++ [.rightParen]) (callsOf s.operands) := by
  generalize hcalls : callsOf xs = calls at h
  cases h with
  | @group _ parts _ ts vs calls last h hparts hvs =>
    rcases closeGroup_eq_ok hclose with ⟨f, rest, ys, rfl, hcall, rfl⟩ | ⟨hplain, hplaces, rfl⟩
    · rw [callsOf_reduceCall hcall, hcalls]
      cases h with
      | function _ h hus =>
        -- The function goes with its parentheses, so what is closed is a call, which may stand anywhere.
        have hblock := h.extend (Nested.call f parts (.nil false) hus hparts hvs)
        simpa only [List.append_assoc, List.cons_append, List.nil_append] using hblock
    -- Plain parentheses are closed only if they have one place, which has seen no comma.
    · obtain rfl : parts = [] := List.eq_nil_of_length_eq_zero (by omega)
      have hblock := h.absorb hplain (Nested.parens (.nil true) hvs)
      rw [hcalls]
      simpa only [List.append_assoc, List.cons_append, List.nil_append, List.flatMap_nil, List.append_nil] using hblock

theorem operand {t : Token} {x : Tree} {node : Node} {xs : List Tree} (h : Leads pending ts (callsOf xs))
    (hleaf : t.leaf? = some node) (hx : x.nodes = [node]) : Leads pending (ts ++ [t]) (callsOf (x :: xs)) := by
  have hnode : node.call? = none := by cases t <;> cases hleaf <;> rfl
  have hcalls : callsOf (x :: xs) = callsOf xs ++ [] := by simp [callsOf, listing_cons, hx, hnode]
  rw [hcalls]
  exact h.extend (.leaf (.nil false) (by rw [hleaf]; rfl))

theorem step {t : Token} (h : Leads s.pending ts (callsOf s.operands)) (hstep : s.step t = .ok s') :
    Leads s'.pending (ts ++ [t]) (callsOf s'.operands) := by
  cases t with
  | number value =>
    cases hstep
    exact h.operand rfl rfl
  | var name =>
    cases hstep
    exact h.operand rfl rfl
  | unit name =>
    cases hstep
    exact h.operand rfl rfl
  | function f =>
    cases hstep
    have hfunction := Leads.function f h (.nil false)
    simpa only [List.append_nil] using hfunction
  | leftParen =>
    cases hstep
    have hgroup := Leads.group s.operands.length [] h (by simp) (.nil true)
    simp only [List.flatMap_nil, List.append_nil] at hgroup
    exact hgroup
  | operator op =>
    obtain ⟨r, hred, rfl⟩ := Stacks.step_operator_eq_ok hstep
    rw [callsOf_reduceBefore hred]
    obtain ⟨ops, hpending, -⟩ := reduceBefore_eq_ok hred
    rw [hpending] at h
    obtain ⟨us, vs, first, second, hts, hcalls, hleads, hvs⟩ := h.split
    rw [hts, hcalls, List.append_assoc]
    exact .operator op hleads (.operator op hvs)
  | comma =>
    obtain ⟨xs, mark, places, rest, hred, rfl⟩ := Stacks.step_comma_eq_ok hstep
    have hgroup := h.reduceGroup hred
    rw [callsOf_reduceGroup hred]
    generalize callsOf s.operands = calls at hgroup
    cases hgroup with
    | @group _ parts _ us vs before last hbefore hparts hvs =>
      -- What stands before the comma is one more place; the next one is empty so far.
      have hall : ∀ place ∈ parts ++ [(vs, last)], Nested true place.1 place.2 :=
        List.forall_mem_append.mpr ⟨hparts, List.forall_mem_singleton.mpr hvs⟩
      have hmore := Leads.group mark (parts ++ [(vs, last)]) hbefore hall (.nil true)
      simpa only [List.length_append, List.length_singleton, List.flatMap_append, List.flatMap_singleton,
        List.append_assoc, List.cons_append, List.append_nil] using hmore
  | rightParen =>
    obtain ⟨xs, mark, places, rest, hred, hclose⟩ := Stacks.step_rightParen_eq_ok hstep
    have hgroup := h.reduceGroup hred
    rw [← callsOf_reduceGroup hred] at hgroup
    exact hgroup.close hclose

theorem run {rest : List Token} (h : Leads s.pending ts (callsOf s.operands)) (hrun : s.run rest = .ok s') :
    Leads s'.pending (ts ++ rest) (callsOf s'.operands) := by
  induction rest generalizing ts s with
  | nil =>
    cases hrun
    simpa using h
  | cons t rest ih =>
    obtain ⟨r, hstep, hrun⟩ := Stacks.run_cons_eq_ok hrun
    have hall := ih (h.step hstep) hrun
    rwa [List.append_assoc] at hall

end Leads

theorem nested_of_parse {ts : List Token} {t : Tree} (h : parse ts = .ok t) :
    Nested true ts (t.nodes.filterMap Node.call?) := by
  obtain ⟨s, hrun, hred⟩ := parse_eq_ok h
  have hleads := (Leads.run (s := ⟨[], []⟩) (.start (.nil true)) hrun).reduceGroup hred
  rw [← callsOf_reduceGroup hred] at hleads
  have hroot : callsOf [t] = t.nodes.filterMap Node.call? := by simp [callsOf, listing, Tree.nodesAll]
  rw [hroot] at hleads
  cases hleads with
  | start h => exact h

/-- Whatever the tokens are, they are refused or become a tree, and then nothing is lost, added or moved: the
leaves are the operands in their order, the operators and functions are the nodes above them, and each call
has an argument for each place in its parentheses. -/
theorem parse_accounts (ts : List Token) :
    Machine.parse ts = (parse ts).mapError .refused ∧
    ∀ t, parse ts = .ok t →
      t.nodes.filter Node.isLeaf = ts.filterMap Token.leaf? ∧
      (t.nodes.filterMap Node.operator?).Perm (ts.filterMap Token.operator?) ∧ .operator .convert ∉ ts ∧
      (∀ node ∈ t.nodes, node.Proper) ∧
      ((t.nodes.filterMap Node.call?).map Prod.fst).Perm (ts.filterMap Token.function?) ∧
      Nested true ts (t.nodes.filterMap Node.call?) := by
  refine ⟨Machine.parse_eq ts, fun t ht => ?_⟩
  have hstock := stocked_of_parse ht
  have hnested := nested_of_parse ht
  have hlisting : listing [t] = t.nodes := by simp [listing, Tree.nodesAll]
  have hoperators : (t.nodes.filterMap Node.operator?).Perm (ts.filterMap Token.operator?) := by
    simpa [hlisting] using hstock.operators
  have hproper : ∀ node ∈ t.nodes, node.Proper := by
    intro node hmem
    exact hstock.proper node (by rwa [hlisting])
  refine ⟨?_, hoperators, ?_, hproper, hnested.perm_functions, hnested⟩
  · rw [← hlisting]
    exact hstock.leaves
  · intro harrow
    have hmem : Operator.convert ∈ ts.filterMap Token.operator? := List.mem_filterMap.mpr ⟨_, harrow, rfl⟩
    obtain ⟨node, hnode, hop⟩ := List.mem_filterMap.mp (hoperators.mem_iff.mpr hmem)
    have hnode := hproper node hnode
    cases node <;> cases hop
    · cases hnode
    · exact hnode.2 rfl

/-- An operand between a function and its parentheses stays outside of them, and operators may come late. -/
theorem parse_accounts_late : ∃ t,
    Machine.parse [.function .max, .number 1, .leftParen, .var "a", .comma, .unit "b", .rightParen, .operator .negate,
      .operator .add] = .ok t ∧
    t.nodes.filter Node.isLeaf = [.number 1, .name "a", .name "b"] ∧ t.nodes.filterMap Node.call? = [(.max, 2)] := by
  have hparse : parse [.function .max, .number 1, .leftParen, .var "a", .comma, .unit "b", .rightParen,
    .operator .negate,
      .operator .add] = .ok (.binary .add (.number 1) (.unary .negate (.call .max [.var "a", .var "b"]))) := rfl
  obtain ⟨hmachine, haccounts⟩ := parse_accounts [.function .max, .number 1, .leftParen, .var "a", .comma, .unit "b",
    .rightParen, .operator .negate, .operator .add]
  obtain ⟨hleaves, -⟩ := haccounts _ hparse
  rw [hparse] at hmachine
  exact ⟨_, hmachine, hleaves, rfl⟩

end Metrology.Formula
