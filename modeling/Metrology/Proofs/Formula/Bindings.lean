import Metrology.Proofs.Formula.Names

/-! # What an evaluation needs of its bindings

The variables of a formula are all that an evaluation asks for. One of them without a value is the only reason
to fail, and the leftmost is the one that is reported; nothing else can go wrong, whatever the values are.
-/
namespace Metrology.Formula

variable {P : String → Prop} {t : Tree} {bind bind' : Bindings}

namespace Tree

theorem evalAll_congr {ts : List Tree} (h : ∀ t ∈ ts, t.eval bind = t.eval bind') :
    evalAll bind ts = evalAll bind' ts := by
  induction ts with
  | nil => rfl
  | cons t rest ih =>
    obtain ⟨ht, hrest⟩ := List.forall_mem_cons.mp h
    simp only [evalAll, ht, ih hrest]

/-- Only the names of a tree are asked for. -/
theorem Over.eval_congr (h : t.Over P) (hbind : ∀ name ∈ t.names, bind name = bind' name) :
    t.eval bind = t.eval bind' := by
  induction h with
  | number value => rfl
  | @var name _ =>
    have hname := hbind name (by simp [names])
    simp only [eval, hname]
  | binary _ _ _ ihl ihr =>
    have hl := ihl fun name hname => hbind name (by simp [names, hname])
    have hr := ihr fun name hname => hbind name (by simp [names, hname])
    simp only [eval, hl, hr]
  | unary _ ih => simp only [eval, ih hbind]
  | @call f args _ _ ih =>
    have hargs : evalAll bind args = evalAll bind' args := by
      apply evalAll_congr
      intro u hu
      apply ih u hu
      intro name hname
      exact hbind name (by simpa [names] using mem_namesAll.mpr ⟨u, hu, hname⟩)
    simp only [eval, hargs]

theorem Over.eval_eq_error_iff (h : t.Over P) {e : EvalError} :
    t.eval bind = .error e ↔ ∃ name, unbound? bind t.names = some name ∧ e = .unbound name := by
  constructor
  · exact h.eval_eq_error_first
  · rintro ⟨name, hname, rfl⟩
    cases ht : t.eval bind with
    | ok x =>
      rw [unbound?_eq_none.mpr (h.bound_of_eval ht)] at hname
      cases hname
    | error e =>
      obtain ⟨other, hother, rfl⟩ := h.eval_eq_error_first ht
      rw [hname] at hother
      cases hother
      rfl

theorem Over.exists_eval_iff (h : t.Over P) :
    (∃ x, t.eval bind = .ok x) ↔ ∀ name ∈ t.names, (bind name).isSome = true := by
  constructor
  · rintro ⟨x, hx⟩
    exact h.bound_of_eval hx
  · intro hbound
    cases ht : t.eval bind with
    | ok x => exact ⟨x, rfl⟩
    | error e =>
      obtain ⟨name, hname, -⟩ := h.eval_eq_error_first ht
      rw [unbound?_eq_none.mpr hbound] at hname
      cases hname

end Tree

/-- The first token whose name has no value, all names before it having one. -/
def FirstUnbound (bind : Bindings) (ts : List Token) (name : String) : Prop :=
  ∃ before t after, ts = before ++ t :: after ∧ t.name? = some name ∧ bind name = none ∧
    ∀ u ∈ before, ∀ other, u.name? = some other → (bind other).isSome = true

theorem unbound?_filterMap {ts : List Token} {name : String} :
    Tree.unbound? bind (ts.filterMap Token.name?) = some name ↔ FirstUnbound bind ts name := by
  rw [Tree.unbound?_eq_some, FirstUnbound]
  constructor
  · rintro ⟨names, rest, hnames, hnone, hbound⟩
    obtain ⟨front, back, rfl, rfl, hback⟩ := List.filterMap_eq_append_iff.mp hnames
    obtain ⟨gap, t, after, rfl, hgap, ht, -⟩ := List.filterMap_eq_cons_iff.mp hback
    refine ⟨front ++ gap, t, after, by simp, ht, hnone, ?_⟩
    intro u hu other hother
    rcases List.mem_append.mp hu with hu | hu
    · exact hbound other (List.mem_filterMap.mpr ⟨u, hu, hother⟩)
    · rw [hgap u hu] at hother
      cases hother
  · rintro ⟨before, t, after, rfl, ht, hnone, hbound⟩
    refine ⟨before.filterMap Token.name?, after.filterMap Token.name?, by simp [ht], hnone, ?_⟩
    intro other hother
    obtain ⟨u, hu, hother⟩ := List.mem_filterMap.mp hother
    exact hbound u hu other hother

/-- The variables of a text that is a formula are the names among its tokens. An evaluation fails if one of
them has no value, and then with the name of the first token that has none; otherwise there is a value. Values
for other names make no difference. -/
theorem value_outcome {text : String} {f : Formula} (h : Formula.read text = .ok f) :
    ∃ ts, tokenize text.toList = .ok ts ∧ (∀ name, name ∈ f.vars ↔ ∃ t ∈ ts, t.name? = some name) ∧
      (∀ bind : Bindings,
        ((∃ name, f.value bind = .error (.unbound name)) ↔ ∃ name ∈ f.vars, bind name = none) ∧
        (∀ e, f.value bind = .error e ↔ ∃ name, FirstUnbound bind ts name ∧ e = .unbound name) ∧
        ((∃ x, f.value bind = .ok x) ↔ ∀ name ∈ f.vars, (bind name).isSome = true)) ∧
      ∀ bind bind' : Bindings, (∀ name ∈ f.vars, bind name = bind' name) → f.value bind = f.value bind' := by
  obtain ⟨ts, hts, hparse⟩ := read_eq_ok h
  have hover := over_of_parse hparse
  have hnames := names_of_parse hparse
  have hmem : ∀ name, name ∈ f.vars ↔ name ∈ f.tree.names := fun name => Tree.mem_vars
  have hok : ∀ bind : Bindings, (∃ x, f.value bind = .ok x) ↔ ∀ name ∈ f.vars, (bind name).isSome = true := by
    intro bind
    simp only [hmem]
    exact hover.exists_eval_iff
  have herror : ∀ (bind : Bindings) e, f.value bind = .error e ↔ ∃ name, FirstUnbound bind ts name ∧
      e = .unbound name := by
    intro bind e
    simp only [← unbound?_filterMap, ← hnames]
    exact hover.eval_eq_error_iff
  refine ⟨ts, hts, ?_, fun bind => ⟨?_, herror bind, hok bind⟩, ?_⟩
  · intro name
    rw [hmem, hnames, List.mem_filterMap]
  · constructor
    · rintro ⟨name, hname⟩
      obtain ⟨other, hother, hnone, -⟩ := hover.eval_eq_error hname
      exact ⟨other, (hmem other).mpr hother, hnone⟩
    · rintro ⟨name, hname, hnone⟩
      cases hvalue : f.value bind with
      | ok x =>
        have hsome := (hok bind).mp ⟨x, hvalue⟩ name hname
        rw [hnone] at hsome
        cases hsome
      | error e =>
        obtain ⟨other, -, rfl⟩ := (herror bind e).mp hvalue
        exact ⟨other, rfl⟩
  · intro bind bind' hbind
    exact hover.eval_congr fun name hname => hbind name ((hmem name).mpr hname)

/-- Of two names without a value the left one is reported, although the other ends the text. -/
theorem value_outcome_partly_bound : ∃ f, Formula.read "max({a}, b) - {a} ^ c" = .ok f ∧
    f.value (Bindings.all ["a"] 2) = .error (.unbound "b") ∧ (∃ x, f.value (Bindings.all ["c", "b", "a"] 0) = .ok x) ∧
    f.value (Bindings.all ["a"] 2) = f.value (Bindings.all ["a", "d"] 2) := by
  have htokens : tokenize "max({a}, b) - {a} ^ c".toList = .ok [.function .max, .leftParen, .var "a", .comma, .unit "b",
      .rightParen, .operator .sub, .var "a", .operator .pow, .unit "c"] := by decide +kernel
  let t : Tree := .binary .sub (.call .max [.var "a", .var "b"]) (.binary .pow (.var "a") (.var "c"))
  have hread : Formula.read "max({a}, b) - {a} ^ c" = .ok ⟨"max({a}, b) - {a} ^ c", t⟩ := by
    unfold Formula.read parseText
    rw [htokens]
    rfl
  have hvars : ∀ name, name ∈ t.vars ↔ name ∈ ["a", "b", "a", "c"] := fun name => Tree.mem_vars
  obtain ⟨ts, hts, -, houtcome, hagree⟩ := value_outcome hread
  obtain rfl := Except.ok.inj (htokens.symm.trans hts)
  have hfirst : FirstUnbound (Bindings.all ["a"] 2) [.function .max, .leftParen, .var "a", .comma,
    .unit "b", .rightParen,
      .operator .sub, .var "a", .operator .pow, .unit "c"] "b" :=
    ⟨[.function .max, .leftParen, .var "a", .comma], .unit "b", _, rfl, rfl, rfl, by simp [Token.name?, Bindings.all]⟩
  refine ⟨_, hread, ((houtcome _).2.1 _).mpr ⟨"b", hfirst, rfl⟩, (houtcome _).2.2.mpr ?_, hagree _ _ ?_⟩
  · simp [Formula.vars, hvars, Bindings.all]
  · simp [Formula.vars, hvars, Bindings.all]

end Metrology.Formula
