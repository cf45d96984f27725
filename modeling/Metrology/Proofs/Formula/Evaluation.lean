import Metrology.Formula.Basic
import Metrology.Proofs.Formula.Arithmetic
import Metrology.Proofs.Formula.Reduction

/-! # Trees that have a value

Evaluation stops at a name that is not bound, at an operator without an operation, at a call without arguments
and at an operation that fails. A tree over some names has no such operators and calls, its operations do not
fail, and all its names are among them; so it has a value whenever these are bound. Every tree that the parser
makes is one over its own names.
-/
namespace Metrology.Formula

/-- A tree whose operators and calls can be carried out, with names of one kind only. -/
inductive Tree.Over (P : String → Prop) : Tree → Prop
  | number (value : Float) : Over P (.number value)
  | var {name : String} (hname : P name) : Over P (.var name)
  | binary {op : Operator} {l r : Tree} (hop : op.apply?.isSome = true) (hl : Over P l) (hr : Over P r) :
      Over P (.binary op l r)
  | unary {op : Operator} {t : Tree} (ht : Over P t) : Over P (.unary op t)
  | call {f : Function} {args : List Tree} (hne : args ≠ []) (hargs : ∀ t ∈ args, Over P t) : Over P (.call f args)

namespace Tree

variable {P Q : String → Prop} {t : Tree}

theorem evalAll_ok {bind : Bindings} {ts : List Tree} (h : ∀ t ∈ ts, ∃ x, t.eval bind = .ok x) :
    ∃ xs : List Float, evalAll bind ts = .ok xs ∧ xs.length = ts.length := by
  induction ts with
  | nil => exact ⟨[], by simp [evalAll], rfl⟩
  | cons t rest ih =>
    obtain ⟨x, hx⟩ := h t List.mem_cons_self
    obtain ⟨xs, hxs, hlength⟩ := ih fun u hu => h u (List.mem_cons_of_mem _ hu)
    exact ⟨x :: xs, by simp [evalAll, hx, hxs], by simp [hlength]⟩

theorem Over.eval_ok {bind : Bindings} (h : t.Over P) (hbind : ∀ name, P name → (bind name).isSome = true) :
    ∃ x, t.eval bind = .ok x := by
  induction h with
  | number value => exact ⟨value, by simp [eval]⟩
  | @var name hname =>
    obtain ⟨x, hx⟩ := Option.isSome_iff_exists.mp (hbind name hname)
    exact ⟨x, by simp [eval, hx]⟩
  | binary hop _ _ ihl ihr =>
    obtain ⟨x, hx⟩ := ihl
    obtain ⟨y, hy⟩ := ihr
    obtain ⟨f, hf⟩ := Option.isSome_iff_exists.mp hop
    obtain ⟨z, hz⟩ := Operator.exists_apply hf x y
    exact ⟨z, by simp [eval, hx, hy, hf, hz, Except.mapError]⟩
  | unary _ ih =>
    obtain ⟨x, hx⟩ := ih
    exact ⟨-x, by simp [eval, hx]⟩
  | @call f args hne _ ih =>
    obtain ⟨xs, hxs, hlength⟩ := evalAll_ok ih
    cases xs with
    | nil => exact absurd (List.eq_nil_of_length_eq_zero hlength.symm) hne
    | cons x xs =>
      obtain ⟨z, hz⟩ := f.exists_apply x xs
      exact ⟨z, by simp [eval, hxs, hz, Except.mapError]⟩

theorem mem_namesAll {name : String} {ts : List Tree} : name ∈ namesAll ts ↔ ∃ t ∈ ts, name ∈ t.names := by
  induction ts with
  | nil => simp [namesAll]
  | cons t rest ih => simp [namesAll, ih]

theorem mem_vars {name : String} : name ∈ t.vars ↔ name ∈ t.names := by
  rw [vars, List.mem_mergeSort, List.mem_eraseDups]

theorem Over.mem_names {name : String} (h : t.Over P) (hname : name ∈ t.names) : P name := by
  induction h with
  | number value => simp [names] at hname
  | var hP =>
    obtain rfl : name = _ := by simpa [names] using hname
    exact hP
  | binary _ _ _ ihl ihr =>
    rcases List.mem_append.mp (by simpa [names] using hname) with hname | hname
    · exact ihl hname
    · exact ihr hname
  | unary _ ih => exact ih (by simpa [names] using hname)
  | call _ _ ih =>
    obtain ⟨u, hu, hname⟩ := mem_namesAll.mp (by simpa [names] using hname)
    exact ih u hu hname

theorem Over.of_names (h : t.Over P) (hnames : ∀ name ∈ t.names, Q name) : t.Over Q := by
  induction h with
  | number value => exact .number value
  | var _ => exact .var (hnames _ (by simp [names]))
  | binary hop _ _ ihl ihr =>
    refine .binary hop (ihl fun name hname => hnames name ?_) (ihr fun name hname => hnames name ?_)
    · simp [names, hname]
    · simp [names, hname]
  | unary _ ih => exact .unary (ih fun name hname => hnames name (by simpa [names] using hname))
  | call hne _ ih =>
    refine .call hne fun u hu => ih u hu fun name hname => hnames name ?_
    simpa [names] using mem_namesAll.mpr ⟨u, hu, hname⟩

theorem Over.mono (h : t.Over P) (hPQ : ∀ name, P name → Q name) : t.Over Q :=
  h.of_names fun name hname => hPQ name (h.mem_names hname)

end Tree

def Sound (xs : List Tree) : Prop := ∀ t ∈ xs, t.Over fun _ => True

namespace Sound

variable {xs ys : List Tree} {s s' : Stacks}

theorem reduceOperator {op : Operator} (h : Sound xs) (hred : reduceOperator op xs = .ok ys) : Sound ys := by
  rcases reduceOperator_eq_ok hred with ⟨rfl, t, rest, rfl, rfl⟩ | ⟨hnegate, hconvert, l, r, rest, rfl, rfl⟩
  · obtain ⟨ht, hrest⟩ := List.forall_mem_cons.mp h
    exact List.forall_mem_cons.mpr ⟨.unary ht, hrest⟩
  · obtain ⟨hr, hl⟩ := List.forall_mem_cons.mp h
    obtain ⟨hl, hrest⟩ := List.forall_mem_cons.mp hl
    have hop : op.apply?.isSome = true := by
      cases op with
      | negate => exact absurd rfl hnegate
      | convert => exact absurd rfl hconvert
      | _ => rfl
    exact List.forall_mem_cons.mpr ⟨.binary hop hl hr, hrest⟩

theorem reduceBefore {next : Operator} {pending : List Pending} (h : Sound xs)
    (hred : reduceBefore next xs pending = .ok s) : Sound s.operands :=
  reduceBefore_induction (P := fun xs _ => Sound xs) (fun _ _ _ _ h hop => h.reduceOperator hop) h hred

theorem reduceGroup {pending : List Pending} (h : Sound xs) (hred : reduceGroup xs pending = .ok s) :
    Sound s.operands :=
  reduceGroup_induction (P := fun xs _ => Sound xs) (fun _ _ _ _ h hop => h.reduceOperator hop) h hred

theorem reduceCall {f : Function} {mark places : Nat} (h : Sound xs) (hcall : reduceCall f mark places xs = .ok ys) :
    Sound ys := by
  obtain ⟨hlength, hplaces, -, rfl⟩ := reduceCall_eq_ok hcall
  have hne : (xs.take places).reverse ≠ [] := by
    intro hnil
    have hcount := congrArg List.length hnil
    simp only [List.length_reverse, List.length_take, List.length_nil] at hcount
    omega
  have hargs : ∀ t ∈ (xs.take places).reverse, t.Over fun _ => True :=
    fun t ht => h t (List.mem_of_mem_take (List.mem_reverse.mp ht))
  exact List.forall_mem_cons.mpr ⟨.call hne hargs, fun t ht => h t (List.mem_of_mem_drop ht)⟩

theorem step {token : Token} (h : Sound s.operands) (hstep : s.step token = .ok s') : Sound s'.operands := by
  cases token with
  | operator op =>
    obtain ⟨r, hred, rfl⟩ := Stacks.step_operator_eq_ok hstep
    have hr : Sound r.operands := h.reduceBefore hred
    exact hr
  | comma =>
    obtain ⟨ys, mark, places, rest, hred, rfl⟩ := Stacks.step_comma_eq_ok hstep
    have hys : Sound ys := h.reduceGroup hred
    exact hys
  | rightParen =>
    obtain ⟨ys, mark, places, rest, hred, hclose⟩ := Stacks.step_rightParen_eq_ok hstep
    have hys : Sound ys := h.reduceGroup hred
    rcases closeGroup_eq_ok hclose with ⟨f, pending, zs, rfl, hcall, rfl⟩ | ⟨-, -, rfl⟩
    · exact hys.reduceCall hcall
    · exact hys
  | leftParen =>
    cases hstep
    exact h
  | function f =>
    cases hstep
    exact h
  | number value =>
    cases hstep
    exact List.forall_mem_cons.mpr ⟨.number value, h⟩
  | var name =>
    cases hstep
    exact List.forall_mem_cons.mpr ⟨.var trivial, h⟩
  | unit name =>
    cases hstep
    exact List.forall_mem_cons.mpr ⟨.var trivial, h⟩

theorem run {ts : List Token} (h : Sound s.operands) (hrun : s.run ts = .ok s') : Sound s'.operands := by
  induction ts generalizing s with
  | nil =>
    cases hrun
    exact h
  | cons t rest ih =>
    obtain ⟨r, hstep, hrun⟩ := Stacks.run_cons_eq_ok hrun
    exact ih (h.step hstep) hrun

end Sound

theorem over_of_parse {ts : List Token} {t : Tree} (h : parse ts = .ok t) : t.Over fun _ => True := by
  obtain ⟨s, hrun, hred⟩ := parse_eq_ok h
  have hempty : Sound ([] : List Tree) := by simp [Sound]
  have hs : Sound s.operands := hempty.run (s := ⟨[], []⟩) hrun
  exact hs.reduceGroup hred t List.mem_cons_self

/-- What has been read can be carried out as soon as its own variables are bound. -/
theorem over_of_read {text : String} {f : Formula} (h : Formula.read text = .ok f) : f.tree.Over (· ∈ f.vars) := by
  have hover : f.tree.Over fun _ => True := by
    unfold Formula.read parseText at h
    split at h
    · next t ht =>
      split at ht
      · cases ht
      · split at ht
        · cases ht
        · next hparse =>
          cases ht
          cases h
          exact over_of_parse hparse
    · cases h
  exact hover.of_names fun name hname => Tree.mem_vars.mpr hname

theorem value_ok {f : Formula} {names : List String} (h : f.tree.Over (· ∈ names)) (x : Float) :
    ∃ y, f.value (Bindings.all names x) = .ok y :=
  h.eval_ok fun name hname => by simp [Bindings.all, hname]

end Metrology.Formula
