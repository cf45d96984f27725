import Mathlib.Tactic.FieldSimp
import Mathlib.Tactic.Linarith
import Mathlib.Tactic.Ring
import Metrology.Proofs.Over.Inverse

/-! # Affine formulas

A formula is affine in a variable if it denotes `slope * x + offset`. Sums, differences and negations of
affine formulas are affine; so is a product of which one factor is constant and a quotient by a constant that
is not zero. The inverse of such a function, if there is one, undoes it and is written with the one variable
that it is asked in.
-/
namespace Metrology

namespace Formula.Tree

/-- The exact value of a tree at a rational number, as far as it is built by the four operations. -/
def rational? (x : String) (q : Rat) : Tree → Option Rat
  | .number v => Algebra.literalValue? v
  | .var name => if name = x then some q else none
  | .binary op l r =>
    match rational? x q l, rational? x q r with
    | some a, some b =>
      match op with
      | .add => some (a + b)
      | .sub => some (a - b)
      | .mul => some (a * b)
      | .div => if b = 0 then none else some (a / b)
      | _ => none
    | _, _ => none
  | .unary _ t => (rational? x q t).map fun a => -a
  | .call _ _ => none

end Formula.Tree

namespace Algebra

open Formula (Tree)

structure Affine where
  slope : Rat
  offset : Rat
  deriving DecidableEq, Repr

namespace Affine

def constant (q : Rat) : Affine := ⟨0, q⟩

def identity : Affine := ⟨1, 0⟩

def apply (a : Affine) (x : Rat) : Rat := a.slope * x + a.offset

def add (a b : Affine) : Affine := ⟨a.slope + b.slope, a.offset + b.offset⟩

def scale (q : Rat) (a : Affine) : Affine := ⟨q * a.slope, q * a.offset⟩

def mul? (a b : Affine) : Option Affine :=
  if a.slope = 0 then some (b.scale a.offset)
  else if b.slope = 0 then some (a.scale b.offset)
  else none

def div? (a b : Affine) : Option Affine :=
  if b.slope = 0 ∧ b.offset ≠ 0 then some (a.scale (1 / b.offset)) else none

def inverse (a : Affine) : Affine := ⟨1 / a.slope, -a.offset / a.slope⟩

def ofTree? (x : String) : Tree → Option Affine
  | .number v => (literalValue? v).map constant
  | .var name => if name = x then some identity else none
  | .binary op l r =>
    match ofTree? x l, ofTree? x r with
    | some a, some b =>
      match op with
      | .add => some (a.add b)
      | .sub => some (a.add (b.scale (-1)))
      | .mul => a.mul? b
      | .div => a.div? b
      | _ => none
    | _, _ => none
  | .unary _ t => (ofTree? x t).map fun a => a.scale (-1)
  | .call _ _ => none

/-- A tree for the function: the offset comes first and is left out if it is zero, a slope of one is left out
as well. -/
def toTree (a : Affine) (x : String) : Tree :=
  let product := if a.slope = 1 then .var x else .binary .mul (literal a.slope) (.var x)
  if a.slope = 0 then literal a.offset
  else if a.offset = 0 then product
  else .binary .add (literal a.offset) product

variable {a b : Affine} {q : Rat}

theorem apply_add : (a.add b).apply q = a.apply q + b.apply q := by
  simp only [apply, add]
  ring

theorem apply_scale (s : Rat) : (a.scale s).apply q = s * a.apply q := by
  simp only [apply, scale]
  ring

theorem apply_of_slope (h : a.slope = 0) : a.apply q = a.offset := by
  rw [apply, h, zero_mul, zero_add]

theorem apply_mul? {c : Affine} (h : a.mul? b = some c) : c.apply q = a.apply q * b.apply q := by
  unfold mul? at h
  split at h
  · next hslope =>
    cases h
    rw [apply_scale, apply_of_slope hslope]
  · split at h
    · next hslope =>
      cases h
      rw [apply_scale, apply_of_slope (a := b) hslope, mul_comm]
    · cases h

theorem apply_div? {c : Affine} (h : a.div? b = some c) : b.apply q ≠ 0 ∧ c.apply q = a.apply q / b.apply q := by
  unfold div? at h
  split at h
  · next hconstant =>
    obtain ⟨hslope, hoffset⟩ := hconstant
    cases h
    rw [apply_scale, apply_of_slope (a := b) hslope]
    exact ⟨hoffset, by ring⟩
  · cases h

inductive Reads (x : String) : Tree → Affine → Prop
  | number {v : Float} {r : Rat} (h : literalValue? v = some r) : Reads x (.number v) (constant r)
  | var : Reads x (.var x) identity
  | add {l r : Tree} {a b : Affine} (hl : Reads x l a) (hr : Reads x r b) : Reads x (.binary .add l r) (a.add b)
  | sub {l r : Tree} {a b : Affine} (hl : Reads x l a) (hr : Reads x r b) :
      Reads x (.binary .sub l r) (a.add (b.scale (-1)))
  | mul {l r : Tree} {a b c : Affine} (hl : Reads x l a) (hr : Reads x r b) (h : a.mul? b = some c) :
      Reads x (.binary .mul l r) c
  | div {l r : Tree} {a b c : Affine} (hl : Reads x l a) (hr : Reads x r b) (h : a.div? b = some c) :
      Reads x (.binary .div l r) c
  | negate {op : Formula.Operator} {t : Tree} {a : Affine} (h : Reads x t a) : Reads x (.unary op t) (a.scale (-1))

variable {x : String}

theorem ofTree?_binary_eq_some {op : Formula.Operator} {l r : Tree} {c : Affine}
    (h : ofTree? x (.binary op l r) = some c) :
    ∃ a b, ofTree? x l = some a ∧ ofTree? x r = some b ∧ match op with
      | .add => a.add b = c
      | .sub => a.add (b.scale (-1)) = c
      | .mul => a.mul? b = some c
      | .div => a.div? b = some c
      | _ => False := by
  unfold ofTree? at h
  split at h
  · next a b ha hb =>
    refine ⟨a, b, ha, hb, ?_⟩
    cases op with
    | add | sub => exact Option.some.inj h
    | mul | div => exact h
    | pow | mod | negate | convert => cases h
  · cases h

theorem reads_of_ofTree? : ∀ {t : Tree} {a : Affine}, ofTree? x t = some a → Reads x t a
  | .number v, a, h => by
    obtain ⟨r, hr, rfl⟩ := Option.map_eq_some_iff.mp h
    exact .number hr
  | .var name, a, h => by
    unfold ofTree? at h
    split at h
    · next hname =>
      cases h
      rw [hname]
      exact .var
    · cases h
  | .binary op l r, c, h => by
    obtain ⟨a, b, ha, hb, hop⟩ := ofTree?_binary_eq_some h
    have hl := reads_of_ofTree? ha
    have hr := reads_of_ofTree? hb
    cases op with
    | add =>
      have hsum : a.add b = c := hop
      rw [← hsum]
      exact .add hl hr
    | sub =>
      have hdifference : a.add (b.scale (-1)) = c := hop
      rw [← hdifference]
      exact .sub hl hr
    | mul => exact .mul hl hr hop
    | div => exact .div hl hr hop
    | pow | mod | negate | convert => exact hop.elim
  | .unary op t, c, h => by
    obtain ⟨a, ha, rfl⟩ := Option.map_eq_some_iff.mp h
    exact .negate (reads_of_ofTree? ha)
  | .call _ _, _, h => nomatch h

/-- What is read as an affine function has its values. -/
theorem rational?_of_ofTree? {t : Tree} (h : ofTree? x t = some a) : t.rational? x q = some (a.apply q) := by
  have hreads := reads_of_ofTree? h
  clear h
  induction hreads with
  | number hr => simp [Tree.rational?, hr, apply, constant]
  | var => simp [Tree.rational?, apply, identity]
  | add _ _ ihl ihr => simp only [Tree.rational?, ihl, ihr, apply_add]
  | sub _ _ ihl ihr => simp only [Tree.rational?, ihl, ihr, apply_add, apply_scale, neg_one_mul, sub_eq_add_neg]
  | mul _ _ hmul ihl ihr => simp only [Tree.rational?, ihl, ihr, apply_mul? hmul]
  | div _ _ hdiv ihl ihr =>
    obtain ⟨hne, hquotient⟩ := apply_div? (q := q) hdiv
    simp only [Tree.rational?, ihl, ihr, if_neg hne, hquotient]
  | negate _ ih => simp only [Tree.rational?, ih, Option.map_some, apply_scale, neg_one_mul]

theorem isPiecewise_of_ofTree? {t : Tree} (h : ofTree? x t = some a) : isPiecewise t = false := by
  have hreads := reads_of_ofTree? h
  clear h
  induction hreads with
  | number _ => rfl
  | var => rfl
  | add _ _ ihl ihr => simp [isPiecewise, ihl, ihr]
  | sub _ _ ihl ihr => simp [isPiecewise, ihl, ihr]
  | mul _ _ _ ihl ihr => simp [isPiecewise, ihl, ihr]
  | div _ _ _ ihl ihr => simp [isPiecewise, ihl, ihr]
  | negate _ ih => exact ih

theorem inverse_apply (h : a.slope ≠ 0) : a.inverse.apply (a.apply q) = q := by
  simp only [apply, inverse]
  field_simp
  ring

theorem apply_inverse (h : a.slope ≠ 0) : a.apply (a.inverse.apply q) = q := by
  simp only [apply, inverse]
  field_simp
  ring

theorem eq_inverse (h : a.slope ≠ 0) (hundo : ∀ q, a.apply (b.apply q) = q) : b = a.inverse := by
  have hoffset : a.slope * b.offset + a.offset = 0 := by simpa [apply] using hundo 0
  have hslope : a.slope * (b.slope + b.offset) + a.offset = 1 := by simpa [apply] using hundo 1
  have hone : a.slope * b.slope = 1 := by linarith
  have hrest : a.slope * b.offset = -a.offset := by linarith
  obtain ⟨bs, bo⟩ := b
  simp only [inverse, mk.injEq]
  exact ⟨(eq_div_iff h).mpr (by rw [mul_comm, hone]), (eq_div_iff h).mpr (by rw [mul_comm, hrest])⟩

theorem vars_toTree (h : a.slope ≠ 0) (y : String) : (a.toTree y).vars = [y] := by
  have hnames : (a.toTree y).names = [y] := by
    unfold toTree literal
    rw [if_neg h]
    split <;> split <;> simp [Tree.names]
  rw [Tree.vars, hnames, List.eraseDups_cons]
  simp

end Affine

variable {f back : Formula} {x : String}

/-- An inverse in the variable of its formula is a constant. -/
theorem vars_invert_self (hover : f.tree.Over fun _ => True) (h : invert f x x = .ok (some back)) : back.vars = [] := by
  have hback := over_invert hover h
  apply List.eq_nil_iff_forall_not_mem.mpr
  intro name hname
  obtain ⟨hsame, hother⟩ := hback.mem_names (Tree.mem_vars.mp hname)
  exact hother hsame

end Algebra

end Metrology
