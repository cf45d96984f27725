import Mathlib.Data.List.Forall2
import Metrology.Formula.Tree
import Metrology.Proofs.Decimal.Reading
import Metrology.Proofs.Text.Characters

/-! # Trees are told apart by their drawings

A drawing has one line per node, each node before those below it. The branches before a node are four
characters for each level above it, and no label starts like a branch, so a line shows how deep its node is
and what its label says. The nodes below a node are then those that follow it until a line is as deep as its
own. A label says what a node is as soon as the number of its operands is known: a negation has the sign of a
subtraction, and a number only the six digits that it is written with.
-/
namespace Metrology

/-! ## The characters of a number -/

namespace Decimal

def isNumberChar (c : Char) : Bool := c.isDigit || ".e+-infa".toList.contains c

theorem isNumberChar_of_isDigit {c : Char} (h : c.isDigit = true) : isNumberChar c = true := by
  rw [isNumberChar, h, Bool.true_or]

theorem isNumberChar_exponentText (e : Int) : ∀ c ∈ exponentText e, isNumberChar c = true := by
  have hdigits : ∀ c ∈ Nat.toDigits 10 e.natAbs, isNumberChar c = true := by
    intro c hc
    exact isNumberChar_of_isDigit (Nat.isDigit_of_mem_toDigits (by norm_num) (by norm_num) hc)
  unfold exponentText
  refine List.forall_mem_cons.mpr ⟨by decide, List.forall_mem_cons.mpr ⟨?_, ?_⟩⟩
  · split <;> decide
  · split
    · exact List.forall_mem_cons.mpr ⟨by decide, hdigits⟩
    · exact hdigits

variable {d : Digits}

theorem isNumberChar_exponentForm (h : ∀ c ∈ d.digits, isNumberChar c = true) :
    ∀ c ∈ exponentForm d, isNumberChar c = true := by
  have htail := isNumberChar_exponentText d.point
  obtain ⟨digits, place⟩ := d
  match digits, h with
  | [], _ => exact List.forall_mem_nil _
  | [first], h => exact List.forall_mem_append.mpr ⟨h, htail⟩
  | first :: second :: rest, h =>
    obtain ⟨hfirst, hrest⟩ := List.forall_mem_cons.mp h
    refine List.forall_mem_append.mpr ⟨?_, htail⟩
    exact List.forall_mem_cons.mpr ⟨hfirst, List.forall_mem_cons.mpr ⟨by decide, hrest⟩⟩

theorem isNumberChar_pointForm (h : ∀ c ∈ d.digits, isNumberChar c = true) :
    ∀ c ∈ pointForm d [], isNumberChar c = true := by
  have hzeros (count : Nat) : ∀ c ∈ List.replicate count '0', isNumberChar c = true := by
    intro c hc
    exact isNumberChar_of_isDigit (isDigit_zeros count c hc)
  unfold pointForm
  split
  · refine List.forall_mem_append.mpr ⟨?_, h⟩
    exact List.forall_mem_cons.mpr ⟨by decide, List.forall_mem_cons.mpr ⟨by decide, hzeros _⟩⟩
  · dsimp only
    split
    · rw [List.append_nil]
      exact List.forall_mem_append.mpr ⟨h, hzeros _⟩
    · refine List.forall_mem_append.mpr ⟨?_, List.forall_mem_cons.mpr ⟨by decide, ?_⟩⟩
      · intro c hc
        exact h c (List.mem_of_mem_take hc)
      · intro c hc
        exact h c (List.mem_of_mem_drop hc)

theorem isNumberChar_withSign {nought : List Char} {body : Nat → Int → List Char}
    (hnought : ∀ c ∈ nought, isNumberChar c = true) (hbody : ∀ m e, ∀ c ∈ body m e, isNumberChar c = true) (x : Float) :
    ∀ c ∈ (withSign nought body x).toList, isNumberChar c = true := by
  unfold withSign
  cases Double.ofFloat x with
  | nan => simp [isNumberChar]
  | infinity negative => cases negative <;> simp [isNumberChar]
  | finite negative m e =>
    have htext : ∀ c ∈ if m = 0 then nought else body m e, isNumberChar c = true := by
      split
      · exact hnought
      · exact hbody m e
    simp only [String.toList_ofList]
    cases negative with
    | false => exact htext
    | true => exact List.forall_mem_cons.mpr ⟨by decide, htext⟩

theorem isNumberChar_compact (x : Float) : ∀ c ∈ (compact x).toList, isNumberChar c = true := by
  unfold compact
  refine isNumberChar_withSign (List.forall_mem_singleton.mpr (by decide)) ?_ x
  intro m e
  have hdigits : ∀ c ∈ dropTrailingZeros (rounded m e 6).digits, isNumberChar c = true := by
    intro c hc
    have hmem := (List.dropWhile_suffix _).mem (List.mem_reverse.mp hc)
    exact isNumberChar_of_isDigit ((written_rounded m e 6).isDigit c (List.mem_reverse.mp hmem))
  dsimp only
  split
  · exact isNumberChar_pointForm hdigits
  · exact isNumberChar_exponentForm hdigits

end Decimal

namespace Formula

/-! ## Nodes and the lines that show them -/

namespace Tree

def children : Tree → List Tree
  | .number _ | .var _ => []
  | .binary _ left right => [left, right]
  | .unary _ operand => [operand]
  | .call _ args => args

mutual

/-- What holds of a tree as soon as it holds of all its children holds of every tree. -/
theorem of_children {P : Tree → Prop} (node : ∀ t, (∀ c ∈ t.children, P c) → P t) : ∀ t, P t
  | .number value => node (.number value) (List.forall_mem_nil _)
  | .var name => node (.var name) (List.forall_mem_nil _)
  | .binary op left right =>
    node (.binary op left right)
      (List.forall_mem_cons.mpr ⟨of_children node left, List.forall_mem_singleton.mpr (of_children node right)⟩)
  | .unary op operand => node (.unary op operand) (List.forall_mem_singleton.mpr (of_children node operand))
  | .call f args => node (.call f args) (all_of_children node args)

theorem all_of_children {P : Tree → Prop} (node : ∀ t, (∀ c ∈ t.children, P c) → P t) : ∀ ts : List Tree, ∀ c ∈ ts, P c
  | [] => List.forall_mem_nil _
  | t :: rest => List.forall_mem_cons.mpr ⟨of_children node t, all_of_children node rest⟩

end

mutual

def outline (depth : Nat) : Tree → List (Nat × Tree)
  | .number value => [(depth, .number value)]
  | .var name => [(depth, .var name)]
  | .binary op left right => (depth, .binary op left right) :: (left.outline (depth + 1) ++ right.outline (depth + 1))
  | .unary op operand => (depth, .unary op operand) :: operand.outline (depth + 1)
  | .call f args => (depth, .call f args) :: outlineAll (depth + 1) args

def outlineAll (depth : Nat) : List Tree → List (Nat × Tree)
  | [] => []
  | t :: rest => t.outline depth ++ outlineAll depth rest

end

theorem outline_eq (depth : Nat) (t : Tree) : t.outline depth = (depth, t) :: outlineAll (depth + 1) t.children := by
  cases t <;> simp [outline, outlineAll, children]

theorem drawFrom_eq (first below : String) (t : Tree) :
    t.drawFrom first below = (first ++ t.label) :: drawArgs below t.children := by
  cases t <;> simp [drawFrom, drawArgs, children, label]

def isBranch (c : Char) : Bool := [' ', '│', '├', '└', '─'].contains c

structure Branches (depth : Nat) (cs : List Char) : Prop where
  length : cs.length = 4 * depth
  isBranch : ∀ c ∈ cs, isBranch c = true

def Shows (line : List Char) (p : Nat × Tree) : Prop :=
  ∃ branches, Branches p.1 branches ∧ line = branches ++ p.2.label.toList

theorem Branches.deeper {depth : Nat} {s corner : String} (h : Branches depth s.toList)
    (hcorner : Branches 1 corner.toList) :
    Branches (depth + 1) (s ++ corner).toList where
  length := by rw [String.toList_append, List.length_append, h.length, hcorner.length, Nat.mul_add]
  isBranch := by
    rw [String.toList_append]
    exact List.forall_mem_append.mpr ⟨h.isBranch, hcorner.isBranch⟩

/-- The lines of a tree show its nodes if it stands where the branches say. -/
def Faithful (t : Tree) : Prop :=
  ∀ ⦃depth : Nat⦄ ⦃first below : String⦄, Branches depth first.toList → Branches depth below.toList →
    List.Forall₂ Shows ((t.drawFrom first below).map String.toList) (t.outline depth)

theorem forall₂_drawArgs {ts : List Tree} (ih : ∀ t ∈ ts, t.Faithful) {depth : Nat} {below : String}
    (h : Branches depth below.toList) :
    List.Forall₂ Shows ((drawArgs below ts).map String.toList) (outlineAll (depth + 1) ts) := by
  have hfork : Branches (depth + 1) (below ++ "├── ").toList := h.deeper ⟨by simp, by simp [Tree.isBranch]⟩
  have hbar : Branches (depth + 1) (below ++ "│   ").toList := h.deeper ⟨by simp, by simp [Tree.isBranch]⟩
  have hcorner : Branches (depth + 1) (below ++ "└── ").toList := h.deeper ⟨by simp, by simp [Tree.isBranch]⟩
  have hgap : Branches (depth + 1) (below ++ "    ").toList := h.deeper ⟨by simp, by simp [Tree.isBranch]⟩
  induction ts with
  | nil => exact .nil
  | cons t rest ihrest =>
    obtain ⟨ht, hrest⟩ := List.forall_mem_cons.mp ih
    cases rest with
    | nil =>
      simp only [drawArgs, outlineAll, List.append_nil]
      exact ht hcorner hgap
    | cons u more =>
      rw [drawArgs, outlineAll, List.map_append]
      exact List.rel_append (ht hfork hbar) (ihrest hrest)

theorem faithful (t : Tree) : t.Faithful := by
  induction t using of_children with
  | node t ih =>
    intro depth first below hfirst hbelow
    rw [drawFrom_eq, outline_eq]
    refine .cons ⟨first.toList, hfirst, ?_⟩ (forall₂_drawArgs ih hbelow)
    rw [String.toList_append]

/-! ## What a label says -/

def Plain (c : Char) : Prop := isBranch c = false ∧ c ≠ '\n'

theorem plain_of_isNumberChar {c : Char} (h : Decimal.isNumberChar c = true) : Plain c := by
  have hall : ∀ b ∈ [' ', '│', '├', '└', '─', '\n'], Decimal.isNumberChar b = false := by simp [Decimal.isNumberChar]
  constructor
  · refine Bool.eq_false_iff.mpr fun hbranch => ?_
    have hmem : c ∈ [' ', '│', '├', '└', '─'] := List.contains_iff_mem.mp hbranch
    rw [hall c (List.mem_append_left ['\n'] hmem)] at h
    cases h
  · rintro rfl
    rw [hall '\n' (by decide)] at h
    cases h

end Tree

theorem Operator.plain_sign (op : Operator) : ∀ c ∈ op.sign.toList, Tree.Plain c := by
  cases op <;> simp [sign, Tree.Plain, Tree.isBranch]

theorem Function.plain_name (f : Function) : ∀ c ∈ f.name.toList, Tree.Plain c := by
  cases f <;> simp [name, Tree.Plain, Tree.isBranch]

theorem Operator.sign_injective {op op' : Operator} (h : op ≠ .negate) (h' : op' ≠ .negate)
    (hsign : op.sign = op'.sign) :
    op = op' := by
  revert h h' hsign
  cases op <;> cases op' <;> decide

theorem Operator.sign_ne_name (op : Operator) (f : Function) : op.sign ≠ f.name := by
  cases op <;> cases f <;> decide

theorem Function.name_injective {f f' : Function} (h : f.name = f'.name) : f = f' := by
  revert h
  cases f <;> cases f' <;> decide

namespace Tree

theorem label_var (name : String) : (label (.var name)).toList = '\x7b' :: (name.toList ++ ['\x7d']) := by
  simp [label]

theorem label_var_injective {name name' : String} (h : label (.var name) = label (.var name')) : name = name' := by
  have hchars := congrArg String.toList h
  rw [label_var, label_var, List.cons.injEq] at hchars
  exact String.toList_injective (List.append_cancel_right hchars.2)

theorem compact_ne_label_var (x : Float) (name : String) : Decimal.compact x ≠ label (.var name) := by
  intro h
  have hmem : '\x7b' ∈ (Decimal.compact x).toList := by
    rw [h, label_var]
    exact List.mem_cons_self
  have hnumber : Decimal.isNumberChar '\x7b' = true := Decimal.isNumberChar_compact x _ hmem
  cases hnumber

/-- The label of a node starts where its branches end. -/
theorem label_head (t : Tree) : ∀ c ∈ t.label.toList.head?, isBranch c = false := by
  intro c hc
  have hmem : c ∈ t.label.toList := List.mem_of_mem_head? hc
  cases t with
  | number x => exact (plain_of_isNumberChar (Decimal.isNumberChar_compact x c hmem)).1
  | var name =>
    rw [label_var] at hc
    cases hc
    decide
  | binary op _ _ => exact (op.plain_sign c hmem).1
  | unary op _ => exact (op.plain_sign c hmem).1
  | call f _ => exact (f.plain_name c hmem).1

def readLine (line : List Char) : Nat × List Char := ((line.takeWhile isBranch).length / 4, line.dropWhile isBranch)

theorem Shows.readLine_eq {line : List Char} {p : Nat × Tree} (h : Shows line p) :
    readLine line = (p.1, p.2.label.toList) := by
  obtain ⟨branches, hbranches, rfl⟩ := h
  rw [readLine, Text.takeWhile_append_of_stop hbranches.isBranch (label_head p.2),
    Text.dropWhile_append_of_stop hbranches.isBranch (label_head p.2), hbranches.length,
      Nat.mul_div_cancel_left _ (by decide)]

/-! ## Trees with the same lines -/

/-- A negation has one operand and every other operator two, a call has arguments, and a name stays on its
line. -/
inductive Drawable : Tree → Prop
  | number (x : Float) : Drawable (.number x)
  | var {name : String} (hname : '\n' ∉ name.toList) : Drawable (.var name)
  | binary {op : Operator} {l r : Tree} (hop : op ≠ .negate) (hl : Drawable l) (hr : Drawable r) :
      Drawable (.binary op l r)
  | unary {t : Tree} (ht : Drawable t) : Drawable (.unary .negate t)
  | call {f : Function} {args : List Tree} (hne : args ≠ []) (hargs : ∀ t ∈ args, Drawable t) : Drawable (.call f args)

/-- Trees that differ in numbers at most, and these only in what six digits do not show. -/
inductive Alike : Tree → Tree → Prop
  | number {x y : Float} (h : Decimal.compact x = Decimal.compact y) : Alike (.number x) (.number y)
  | var (name : String) : Alike (.var name) (.var name)
  | binary (op : Operator) {l r l' r' : Tree} (hl : Alike l l') (hr : Alike r r') :
      Alike (.binary op l r) (.binary op l' r')
  | unary (op : Operator) {t t' : Tree} (h : Alike t t') : Alike (.unary op t) (.unary op t')
  | call (f : Function) {args args' : List Tree} (h : List.Forall₂ Alike args args') :
      Alike (.call f args) (.call f args')

variable {t u : Tree}

theorem Drawable.children (h : t.Drawable) : ∀ c ∈ t.children, c.Drawable := by
  cases h with
  | number _ => exact List.forall_mem_nil _
  | var _ => exact List.forall_mem_nil _
  | binary _ hl hr => exact List.forall_mem_cons.mpr ⟨hl, List.forall_mem_singleton.mpr hr⟩
  | unary ht => exact List.forall_mem_singleton.mpr ht
  | call _ hargs => exact hargs

theorem Drawable.label_line (h : t.Drawable) : '\n' ∉ t.label.toList := by
  intro hmem
  cases h with
  | number x => exact (plain_of_isNumberChar (Decimal.isNumberChar_compact x _ hmem)).2 rfl
  | var hname =>
    rw [label_var] at hmem
    simp [hname] at hmem
  | @binary op _ _ _ _ _ => exact (op.plain_sign _ hmem).2 rfl
  | unary _ => exact (Operator.negate.plain_sign _ hmem).2 rfl
  | @call f _ _ _ => exact (f.plain_name _ hmem).2 rfl

/-- What is not said by the labels of two nodes is told by the number of their operands. -/
theorem Drawable.alike_of_label (ht : t.Drawable) (hu : u.Drawable) (hlabel : t.label = u.label)
    (hchildren : List.Forall₂ Alike t.children u.children) : t.Alike u := by
  cases ht with
  | number x =>
    cases hu with
    | number y => exact .number hlabel
    | @var name _ => exact absurd hlabel (compact_ne_label_var x name)
    | binary _ _ _ => cases hchildren
    | unary _ => cases hchildren
    | call hne _ => exact absurd (List.forall₂_nil_left_iff.mp hchildren) hne
  | @var name hname =>
    cases hu with
    | number y => exact absurd hlabel.symm (compact_ne_label_var y name)
    | var _ =>
      obtain rfl := label_var_injective hlabel
      exact .var name
    | binary _ _ _ => cases hchildren
    | unary _ => cases hchildren
    | call hne _ => exact absurd (List.forall₂_nil_left_iff.mp hchildren) hne
  | @binary op l r hop _ _ =>
    cases hu with
    | number _ => cases hchildren
    | var _ => cases hchildren
    | binary hop' _ _ =>
      obtain rfl := Operator.sign_injective hop hop' hlabel
      obtain ⟨hl, hr⟩ : l.Alike _ ∧ r.Alike _ := by simpa [Tree.children] using hchildren
      exact .binary op hl hr
    | unary _ => simp [Tree.children] at hchildren
    | @call f _ _ _ => exact absurd hlabel (op.sign_ne_name f)
  | @unary operand _ =>
    cases hu with
    | number _ => cases hchildren
    | var _ => cases hchildren
    | binary _ _ _ => simp [Tree.children] at hchildren
    | unary _ => exact .unary .negate (by simpa [Tree.children] using hchildren)
    | @call f _ _ _ => exact absurd hlabel (Operator.negate.sign_ne_name f)
  | @call f args hne _ =>
    cases hu with
    | number _ => exact absurd (List.forall₂_nil_right_iff.mp hchildren) hne
    | var _ => exact absurd (List.forall₂_nil_right_iff.mp hchildren) hne
    | @binary op _ _ _ _ _ => exact absurd hlabel.symm (op.sign_ne_name f)
    | unary _ => exact absurd hlabel.symm (Operator.negate.sign_ne_name f)
    | call _ _ =>
      obtain rfl := Function.name_injective hlabel
      exact .call f hchildren

/-! ## From the lines back to the tree -/

def rows (depth : Nat) (t : Tree) : List (Nat × List Char) := (t.outline depth).map fun p => (p.1, p.2.label.toList)

def rowsAll (depth : Nat) (ts : List Tree) : List (Nat × List Char) :=
  (outlineAll depth ts).map fun p => (p.1, p.2.label.toList)

theorem rows_eq (depth : Nat) (t : Tree) : t.rows depth =
    (depth, t.label.toList) :: rowsAll (depth + 1) t.children := by
  rw [rows, outline_eq, List.map_cons, rowsAll]

theorem rowsAll_cons (depth : Nat) (t : Tree) (rest : List Tree) :
    rowsAll depth (t :: rest) = t.rows depth ++ rowsAll depth rest := by
  rw [rowsAll, outlineAll, List.map_append, rows, rowsAll]

def EndsAt (depth : Nat) (after : List (Nat × List Char)) : Prop := ∀ row ∈ after.head?, row.1 < depth

variable {ts us : List Tree} {depth : Nat} {after after' : List (Nat × List Char)}

theorem EndsAt.rowsAll (h : EndsAt depth after) (ts : List Tree) : EndsAt (depth + 1) (rowsAll depth ts ++ after) := by
  intro row hrow
  cases ts with
  | nil =>
    have hlt := h row hrow
    omega
  | cons t rest =>
    rw [rowsAll_cons, rows_eq] at hrow
    cases hrow
    exact Nat.lt_succ_self depth

theorem EndsAt.ne_rowsAll (h : EndsAt depth after) : after ≠ Tree.rowsAll depth (u :: us) ++ after' := by
  rintro rfl
  have hlt := h (depth, u.label.toList) (by rw [rowsAll_cons, rows_eq]; rfl)
  exact Nat.lt_irrefl depth hlt

/-- The lines of a tree tell it from all others, and also where they end. -/
def Told (t : Tree) : Prop :=
  ∀ ⦃u : Tree⦄ ⦃depth : Nat⦄ ⦃after after' : List (Nat × List Char)⦄, t.Drawable → u.Drawable →
    EndsAt (depth + 1) after →
    EndsAt (depth + 1) after' → t.rows depth ++ after = u.rows depth ++ after' → t.Alike u ∧ after = after'

theorem told_all (ih : ∀ t ∈ ts, t.Told) (hts : ∀ t ∈ ts, t.Drawable) (hus : ∀ u ∈ us, u.Drawable)
    (h : EndsAt depth after) (h' : EndsAt depth after') (heq : rowsAll depth ts ++ after = rowsAll depth us ++ after') :
    List.Forall₂ Alike ts us ∧ after = after' := by
  induction ts generalizing us with
  | nil =>
    cases us with
    | nil => exact ⟨.nil, heq⟩
    | cons u us => exact absurd heq h.ne_rowsAll
  | cons t ts ihts =>
    cases us with
    | nil => exact absurd heq.symm h'.ne_rowsAll
    | cons u us =>
      obtain ⟨iht, ihrest⟩ := List.forall_mem_cons.mp ih
      obtain ⟨ht, hrest⟩ := List.forall_mem_cons.mp hts
      obtain ⟨hu, hrest'⟩ := List.forall_mem_cons.mp hus
      rw [rowsAll_cons, rowsAll_cons, List.append_assoc, List.append_assoc] at heq
      -- What follows the first tree starts with its next sibling or above it, so the first tree can be split
      -- off.
      obtain ⟨halike, hafter⟩ := iht ht hu (h.rowsAll ts) (h'.rowsAll us) heq
      obtain ⟨hall, hend⟩ := ihts ihrest hrest hrest' hafter
      exact ⟨.cons halike hall, hend⟩

theorem told (t : Tree) : t.Told := by
  induction t using of_children with
  | node t ih =>
    intro u depth after after' ht hu h h' heq
    rw [rows_eq, rows_eq, List.cons_append, List.cons_append, List.cons.injEq, Prod.mk.injEq] at heq
    obtain ⟨⟨-, hlabel⟩, hbelow⟩ := heq
    obtain ⟨hchildren, hafter⟩ := told_all ih ht.children hu.children h h' hbelow
    exact ⟨ht.alike_of_label hu (String.toList_injective hlabel) hchildren, hafter⟩

theorem map_readLine {lines : List (List Char)} {ps : List (Nat × Tree)} (h : List.Forall₂ Shows lines ps) :
    lines.map readLine = ps.map fun p => (p.1, p.2.label.toList) := by
  induction h with
  | nil => rfl
  | cons hshows _ ih => rw [List.map_cons, List.map_cons, hshows.readLine_eq, ih]

theorem shows_draw (t : Tree) : List.Forall₂ Shows (t.draw.map String.toList) (t.outline 0) := by
  have hroot : Branches 0 "".toList := ⟨rfl, List.forall_mem_nil _⟩
  exact t.faithful hroot hroot

theorem alike_of_draw (ht : t.Drawable) (hu : u.Drawable) (h : t.draw = u.draw) : t.Alike u := by
  have hrows : t.rows 0 = u.rows 0 := by
    calc t.rows 0 = (t.draw.map String.toList).map readLine := (map_readLine t.shows_draw).symm
      _ = (u.draw.map String.toList).map readLine := by rw [h]
      _ = u.rows 0 := map_readLine u.shows_draw
  have hend : EndsAt 1 [] := fun _ hrow => by cases hrow
  have heq : t.rows 0 ++ [] = u.rows 0 ++ [] := by rw [hrows]
  exact (t.told ht hu hend hend heq).1

theorem Alike.label_eq (h : t.Alike u) : t.label = u.label := by
  cases h with
  | number h => exact h
  | _ => rfl

theorem Alike.children (h : t.Alike u) : List.Forall₂ Alike t.children u.children := by
  cases h with
  | number _ => exact .nil
  | var _ => exact .nil
  | binary _ hl hr => exact .cons hl (.cons hr .nil)
  | unary _ h => exact .cons h .nil
  | call _ h => exact h

theorem drawArgs_congr (ih : ∀ t ∈ ts, ∀ u, t.Alike u → ∀ first below, t.drawFrom first below = u.drawFrom first below)
    (h : List.Forall₂ Alike ts us) (below : String) : drawArgs below ts = drawArgs below us := by
  induction h with
  | nil => rfl
  | @cons t u rest rest' halike hrest ihrest =>
    obtain ⟨iht, ihall⟩ := List.forall_mem_cons.mp ih
    cases hrest with
    | nil =>
      rw [drawArgs, drawArgs]
      exact iht u halike _ _
    | cons _ _ => rw [drawArgs, drawArgs, iht u halike, ihrest ihall]

theorem Alike.drawFrom_eq (h : t.Alike u) (first below : String) : t.drawFrom first below = u.drawFrom first below := by
  induction t using of_children generalizing u first below with
  | node t ih =>
    have hbelow : drawArgs below t.children = drawArgs below u.children :=
      drawArgs_congr (fun c hc v halike => ih c hc halike) h.children below
    rw [Tree.drawFrom_eq, Tree.drawFrom_eq, h.label_eq, hbelow]

/-! ## The drawing as one text -/

def linesOf (s : String) : List (List Char) := s.toList.splitOn '\n'

theorem mem_outlineAll {ts : List Tree} {p : Nat × Tree} : p ∈ outlineAll depth ts ↔ ∃ t ∈ ts, p ∈ t.outline depth := by
  induction ts with
  | nil => simp [outlineAll]
  | cons t rest ih => simp [outlineAll, ih]

theorem Drawable.outline (h : t.Drawable) (depth : Nat) : ∀ p ∈ t.outline depth, p.2.Drawable := by
  induction t using of_children generalizing depth with
  | node t ih =>
    rw [outline_eq]
    refine List.forall_mem_cons.mpr ⟨h, ?_⟩
    intro p hp
    obtain ⟨c, hc, hp⟩ := mem_outlineAll.mp hp
    exact ih c hc (h.children c hc) (depth + 1) p hp

theorem Shows.label_line {line : List Char} {p : Nat × Tree} (h : Shows line p) (hp : p.2.Drawable) : '\n' ∉ line := by
  obtain ⟨branches, hbranches, rfl⟩ := h
  intro hmem
  rcases List.mem_append.mp hmem with hmem | hmem
  · have hbranch := hbranches.isBranch _ hmem
    cases hbranch
  · exact hp.label_line hmem

theorem Drawable.linesOf_drawing (h : t.Drawable) : linesOf t.drawing = t.draw.map String.toList := by
  have hlines : ∀ line ∈ t.draw.map String.toList, '\n' ∉ line := by
    intro line hline
    obtain ⟨i, hi, rfl⟩ := List.mem_iff_getElem.mp hline
    have hshows := t.shows_draw.get hi (t.shows_draw.length_eq ▸ hi)
    exact Shows.label_line hshows (h.outline 0 _ (List.get_mem _ _))
  have hne : t.draw.map String.toList ≠ [] := by
    rw [draw, drawFrom_eq]
    exact List.cons_ne_nil _ _
  rw [linesOf, drawing, String.toList_intercalate]
  exact List.splitOn_intercalate '\n' hlines hne

/-- A drawing has one line for each node, each node before those below it, and trees that are drawn alike
differ at most in what the six digits of their numbers do not show. -/
theorem drawing_determines (ht : t.Drawable) (hu : u.Drawable) :
    List.Forall₂ Shows (linesOf t.drawing) (t.outline 0) ∧ (t.drawing = u.drawing ↔ t.Alike u) := by
  have hlines := ht.linesOf_drawing
  constructor
  · rw [hlines]
    exact t.shows_draw
  · constructor
    · intro h
      have hmap : t.draw.map String.toList = u.draw.map String.toList := by rw [← hlines, h, hu.linesOf_drawing]
      exact alike_of_draw ht hu (List.map_injective_iff.mpr (fun _ _ => String.toList_injective) hmap)
    · intro h
      rw [drawing, draw, h.drawFrom_eq, ← draw, ← drawing]

theorem drawing_determines_six_digits : ∃ t u : Tree, t.Drawable ∧ u.Drawable ∧ t ≠ u ∧ t.drawing = u.drawing ∧
    t.draw = ["-", "├── -", "│   └── \x7ba b\x7d", "└── max", "    ├── 0.1", "    └── 2e+06"] ∧
    List.Forall₂ Shows (linesOf t.drawing) (t.outline 0) := by
  let tree (x : Float) : Tree := .binary .sub (.unary .negate (.var "a b")) (.call .max [.number x, .number 2e6])
  have hdrawable (x : Float) : (tree x).Drawable := by
    refine .binary (by decide) (.unary (.var (by decide +kernel))) (.call (List.cons_ne_nil _ _) ?_)
    exact List.forall_mem_cons.mpr ⟨.number x, List.forall_mem_singleton.mpr (.number 2e6)⟩
  have halike : (tree 0.1).Alike (tree 0.10000001) := by
    refine .binary .sub (.unary .negate (.var "a b")) (.call .max (.cons (.number ?_) (.cons (.number rfl) .nil)))
    decide +kernel
  have hne : tree 0.1 ≠ tree 0.10000001 := by
    intro h
    have hx : (0.1 : Float) = 0.10000001 := by simpa [tree] using h
    have hdouble : Decimal.Double.ofFloat 0.1 ≠ Decimal.Double.ofFloat 0.10000001 := by decide +kernel
    exact hdouble (congrArg Decimal.Double.ofFloat hx)
  obtain ⟨hshows, hiff⟩ := drawing_determines (hdrawable 0.1) (hdrawable 0.10000001)
  exact ⟨tree 0.1, tree 0.10000001, hdrawable _, hdrawable _, hne, hiff.mpr halike, by decide +kernel, hshows⟩

end Tree

end Formula

end Metrology
