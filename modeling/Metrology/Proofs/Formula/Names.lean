import Metrology.Proofs.Formula.Evaluation
import Metrology.Proofs.Formula.Inventory

/-! # Names without a value

A tree that the parser makes fails for one reason only, a name that is not bound, and it has a value only if
all its names are. The names of a tree are those of its tokens in their order, and the first of them without a
value decides. So a text that has a value without any bindings has no names among its tokens.
-/
namespace Metrology.Formula

def Node.name? : Node → Option String
  | .name s => some s
  | _ => none

def Token.name? : Token → Option String
  | .unit name | .var name => some name
  | _ => none

namespace Tree

variable {P : String → Prop} {t : Tree} {bind : Bindings} {ts : List Tree}

/-- Of several trees the first one that fails decides. -/
theorem evalAll_eq_error {e : EvalError} (h : evalAll bind ts = .error e) : ∃ before t after,
    ts = before ++ t :: after ∧
    (∀ u ∈ before, ∃ x, u.eval bind = .ok x) ∧ t.eval bind = .error e := by
  induction ts with
  | nil => simp [evalAll] at h
  | cons t rest ih =>
    cases ht : t.eval bind with
    | error e' =>
      simp only [evalAll, ht] at h
      cases h
      exact ⟨[], t, rest, rfl, List.forall_mem_nil _, ht⟩
    | ok x =>
      cases hrest : evalAll bind rest with
      | error e' =>
        simp only [evalAll, ht, hrest] at h
        cases h
        obtain ⟨before, u, after, rfl, hbefore, hu⟩ := ih hrest
        exact ⟨t :: before, u, after, rfl, List.forall_mem_cons.mpr ⟨⟨x, ht⟩, hbefore⟩, hu⟩
      | ok xs =>
        simp only [evalAll, ht, hrest] at h
        cases h

theorem evalAll_eq_ok {xs : List Float} (h : evalAll bind ts = .ok xs) :
    xs.length = ts.length ∧ ∀ t ∈ ts, ∃ x, t.eval bind = .ok x := by
  induction ts generalizing xs with
  | nil =>
    simp only [evalAll] at h
    cases h
    simp
  | cons t rest ih =>
    cases ht : t.eval bind with
    | error e => simp only [evalAll, ht, reduceCtorEq] at h
    | ok x =>
      cases hrest : evalAll bind rest with
      | error e => simp only [evalAll, ht, hrest, reduceCtorEq] at h
      | ok ys =>
        simp only [evalAll, ht, hrest] at h
        cases h
        obtain ⟨hlength, hall⟩ := ih hrest
        exact ⟨by simp [hlength], List.forall_mem_cons.mpr ⟨⟨x, ht⟩, hall⟩⟩

/-- A value takes all names. -/
theorem Over.bound_of_eval (h : t.Over P) {x : Float} (hx : t.eval bind = .ok x) :
    ∀ name ∈ t.names, (bind name).isSome = true := by
  induction h generalizing x with
  | number value => simp [names]
  | @var name _ =>
    intro other hother
    obtain rfl : other = name := by simpa [names] using hother
    cases hname : bind other with
    | some y => rfl
    | none => simp only [eval, hname, reduceCtorEq] at hx
  | @binary op l r _ _ _ ihl ihr =>
    cases hl : l.eval bind with
    | error e => simp only [eval, hl, reduceCtorEq] at hx
    | ok y =>
      cases hr : r.eval bind with
      | error e => simp only [eval, hl, hr, reduceCtorEq] at hx
      | ok z =>
        intro name hname
        rcases List.mem_append.mp (by simpa [names] using hname) with hname | hname
        · exact ihl hl name hname
        · exact ihr hr name hname
  | @unary op t _ ih =>
    cases ht : t.eval bind with
    | error e => simp only [eval, ht, reduceCtorEq] at hx
    | ok y => simpa [names] using ih ht
  | @call f args _ _ ih =>
    cases hargs : evalAll bind args with
    | error e => simp only [eval, hargs, reduceCtorEq] at hx
    | ok xs =>
      intro name hname
      obtain ⟨u, hu, hname⟩ := mem_namesAll.mp (by simpa [names] using hname)
      obtain ⟨y, hy⟩ := (evalAll_eq_ok hargs).2 u hu
      exact ih u hu hy name hname

theorem namesAll_append (xs ys : List Tree) : namesAll (xs ++ ys) = namesAll xs ++ namesAll ys := by
  induction xs with
  | nil => rfl
  | cons t rest ih => rw [List.cons_append, namesAll, ih, namesAll, List.append_assoc]

def unbound? (bind : Bindings) (names : List String) : Option String := names.find? fun name => (bind name).isNone

theorem unbound?_eq_none {names : List String} :
    unbound? bind names = none ↔ ∀ name ∈ names, (bind name).isSome = true := by
  simp [unbound?, Option.ne_none_iff_isSome]

theorem unbound?_eq_some {names : List String} {name : String} : unbound? bind names = some name ↔
    ∃ before after, names = before ++ name :: after ∧ bind name = none ∧
        ∀ other ∈ before, (bind other).isSome = true := by
  simp only [unbound?, List.find?_eq_some_iff_append, Option.isNone_iff_eq_none, Bool.not_eq_true',
    Option.isNone_eq_false_iff]
  constructor
  · rintro ⟨hnone, before, after, hnames, hbefore⟩
    exact ⟨before, after, hnames, hnone, hbefore⟩
  · rintro ⟨before, after, hnames, hnone, hbefore⟩
    exact ⟨hnone, before, after, hnames, hbefore⟩

theorem unbound?_append (xs ys : List String) : unbound? bind (xs ++ ys) = (unbound? bind xs).or (unbound? bind ys) :=
  List.find?_append

/-- Evaluation stops at the first name without a value and at nothing else. -/
theorem Over.eval_eq_error_first (h : t.Over P) {e : EvalError} (he : t.eval bind = .error e) :
    ∃ name, unbound? bind t.names = some name ∧ e = .unbound name := by
  induction h generalizing e with
  | number value => simp [eval] at he
  | @var name _ =>
    cases hname : bind name with
    | some x => simp only [eval, hname, reduceCtorEq] at he
    | none =>
      simp only [eval, hname] at he
      cases he
      exact ⟨name, by simp [unbound?, names, hname], rfl⟩
  | @binary op l r hop hl' _ ihl ihr =>
    cases hl : l.eval bind with
    | error e' =>
      simp only [eval, hl] at he
      cases he
      obtain ⟨name, hname, rfl⟩ := ihl hl
      exact ⟨name, by rw [names, unbound?_append, hname, Option.some_or], rfl⟩
    | ok x =>
      cases hr : r.eval bind with
      | error e' =>
        simp only [eval, hl, hr] at he
        cases he
        obtain ⟨name, hname, rfl⟩ := ihr hr
        have hleft := unbound?_eq_none.mpr (hl'.bound_of_eval hl)
        exact ⟨name, by rw [names, unbound?_append, hleft, Option.none_or, hname], rfl⟩
      | ok y =>
        obtain ⟨f, hf⟩ := Option.isSome_iff_exists.mp hop
        obtain ⟨z, hz⟩ := Operator.exists_apply hf x y
        simp only [eval, hl, hr, hf, hz, Except.mapError, reduceCtorEq] at he
  | @unary op t _ ih =>
    cases ht : t.eval bind with
    | error e' =>
      simp only [eval, ht] at he
      cases he
      exact ih ht
    | ok x => simp only [eval, ht, reduceCtorEq] at he
  | @call f args hne hargs' ih =>
    cases hargs : evalAll bind args with
    | error e' =>
      simp only [eval, hargs] at he
      cases he
      obtain ⟨before, u, after, rfl, hbefore, hfail⟩ := evalAll_eq_error hargs
      obtain ⟨name, hname, rfl⟩ := ih u (by simp) hfail
      have hvalues : unbound? bind (namesAll before) = none := by
        apply unbound?_eq_none.mpr
        intro other hother
        obtain ⟨v, hv, hother⟩ := mem_namesAll.mp hother
        obtain ⟨x, hx⟩ := hbefore v hv
        exact (hargs' v (by simp [hv])).bound_of_eval hx other hother
      refine ⟨name, ?_, rfl⟩
      rw [names, namesAll_append, namesAll, unbound?_append, hvalues, Option.none_or, unbound?_append,
        hname, Option.some_or]
    | ok xs =>
      cases xs with
      -- Only a call without arguments could fail once they all have values.
      | nil => exact absurd (List.eq_nil_of_length_eq_zero (evalAll_eq_ok hargs).1.symm) hne
      | cons x xs =>
        obtain ⟨z, hz⟩ := f.exists_apply x xs
        simp only [eval, hargs, hz, Except.mapError, reduceCtorEq] at he

/-- Evaluation stops at names only. -/
theorem Over.eval_eq_error (h : t.Over P) {e : EvalError} (he : t.eval bind = .error e) :
    ∃ name ∈ t.names, bind name = none ∧ e = .unbound name := by
  obtain ⟨name, hname, rfl⟩ := h.eval_eq_error_first he
  obtain ⟨before, after, hnames, hnone, -⟩ := unbound?_eq_some.mp hname
  exact ⟨name, by simp [hnames], hnone, rfl⟩

theorem namesAll_eq (h : ∀ t ∈ ts, t.names = t.nodes.filterMap Node.name?) :
    namesAll ts = (nodesAll ts).filterMap Node.name? := by
  induction ts with
  | nil => rfl
  | cons t rest ih =>
    obtain ⟨ht, hrest⟩ := List.forall_mem_cons.mp h
    rw [namesAll, nodesAll, List.filterMap_append, ht, ih hrest]

theorem Over.names_eq (h : t.Over P) : t.names = t.nodes.filterMap Node.name? := by
  induction h with
  | number value => simp [names, nodes, Node.name?]
  | var _ => simp [names, nodes, Node.name?]
  | binary _ _ _ ihl ihr => simp [names, nodes, ihl, ihr, Node.name?]
  | unary _ ih => simp [names, nodes, ih, Node.name?]
  | call _ _ ih => simp [names, nodes, namesAll_eq ih, Node.name?]

end Tree

/-- A tree has the names of its tokens, in their order. -/
theorem names_of_parse {ts : List Token} {t : Tree} (h : parse ts = .ok t) : t.names = ts.filterMap Token.name? := by
  have hleaves := (stocked_of_parse h).leaves
  have hlisting : listing [t] = t.nodes := by simp [listing, Tree.nodesAll]
  rw [hlisting] at hleaves
  have hnode : ∀ node : Node, (if node.isLeaf = true then node.name? else none) = node.name? := by
    intro node
    cases node <;> rfl
  have htoken : ∀ token : Token, token.leaf?.bind Node.name? = token.name? := by
    intro token
    cases token <;> rfl
  calc t.names = t.nodes.filterMap Node.name? := (over_of_parse h).names_eq
    _ = (t.nodes.filter Node.isLeaf).filterMap Node.name? := by simp only [List.filterMap_filter, hnode]
    _ = (ts.filterMap Token.leaf?).filterMap Node.name? := by rw [hleaves]
    _ = ts.filterMap Token.name? := by simp only [List.filterMap_filterMap, htoken]

theorem mem_names_of_parse {ts : List Token} {t : Tree} (h : parse ts = .ok t) {name : String} :
    name ∈ t.names ↔ .unit name ∈ ts ∨ .var name ∈ ts := by
  rw [names_of_parse h, List.mem_filterMap]
  constructor
  · rintro ⟨token, htoken, hname⟩
    cases token <;> cases hname
    · exact Or.inl htoken
    · exact Or.inr htoken
  · rintro (htoken | htoken)
    · exact ⟨_, htoken, rfl⟩
    · exact ⟨_, htoken, rfl⟩

theorem arrow_not_mem_of_parse {ts : List Token} {t : Tree} (h : parse ts = .ok t) : .operator .convert ∉ ts := by
  intro harrow
  have hstock := stocked_of_parse h
  have hmem : Operator.convert ∈ ts.filterMap Token.operator? := List.mem_filterMap.mpr ⟨_, harrow, rfl⟩
  obtain ⟨node, hnode, hop⟩ := List.mem_filterMap.mp (by simpa using hstock.operators.mem_iff.mpr hmem)
  have hproper := hstock.proper node hnode
  cases node <;> cases hop
  · cases hproper
  · exact hproper.2 rfl

theorem parseText_eq_ok {text : String} {t : Tree} (h : parseText text = .ok t) :
    ∃ ts, tokenize text.toList = .ok ts ∧ parse ts = .ok t := by
  unfold parseText at h
  split at h
  · cases h
  · next ts hts =>
    split at h
    · cases h
    · next hparse =>
      cases h
      exact ⟨ts, hts, hparse⟩

theorem read_eq_ok {text : String} {f : Formula} (h : read text = .ok f) :
    ∃ ts, tokenize text.toList = .ok ts ∧ parse ts = .ok f.tree := by
  unfold read at h
  split at h
  · next t ht =>
    cases h
    exact parseText_eq_ok ht
  · cases h

theorem evaluate_eq_ok {text : String} {bind : Bindings} {x : Float} (h : evaluate text bind = .ok x) :
    ∃ ts t, tokenize text.toList = .ok ts ∧ parse ts = .ok t ∧ t.eval bind = .ok x := by
  unfold evaluate at h
  split at h
  · cases h
  · next f hf =>
    obtain ⟨ts, hts, hparse⟩ := read_eq_ok hf
    split at h
    · next hx =>
      cases h
      exact ⟨ts, f.tree, hts, hparse, hx⟩
    · cases h

/-- A text that can be parsed fails at a name without a value and at nothing else. -/
theorem evaluate_eq_error {text : String} {bind : Bindings} {e : EvalError}
    (h : evaluate text bind = .error (.eval e)) :
    ∃ name, bind name = none ∧ e = .unbound name := by
  unfold evaluate at h
  split at h
  · cases h
  · next f hf =>
    obtain ⟨ts, -, hparse⟩ := read_eq_ok hf
    split at h
    · cases h
    · next e' he =>
      cases h
      obtain ⟨name, -, hname⟩ := (over_of_parse hparse).eval_eq_error he
      exact ⟨name, hname⟩

structure Closed (ts : List Token) : Prop where
  nonempty : ts ≠ []
  unit : ∀ name, .unit name ∉ ts
  var : ∀ name, .var name ∉ ts
  arrow : .operator .convert ∉ ts

theorem closed_of_evaluate {text : String} {x : Float} (h : evaluate text Bindings.none = .ok x) :
    ∃ ts, tokenize text.toList = .ok ts ∧ Closed ts := by
  obtain ⟨ts, t, hts, hparse, hx⟩ := evaluate_eq_ok h
  have hbound := (over_of_parse hparse).bound_of_eval hx
  have hnone : ∀ name, name ∉ t.names := by
    intro name hname
    simpa [Bindings.none] using hbound name hname
  refine ⟨ts, hts, ?_, ?_, ?_, arrow_not_mem_of_parse hparse⟩
  · rintro rfl
    cases hparse
  · exact fun name hname => hnone name ((mem_names_of_parse hparse).mpr (Or.inl hname))
  · exact fun name hname => hnone name ((mem_names_of_parse hparse).mpr (Or.inr hname))

end Metrology.Formula
