import Metrology.Algebra.Order

/-! # Terms over some names

A term is over the names of some kind if all its variables have such names and no call in it is without
arguments; auxiliary variables do not count. What takes a term apart, sorts it or changes its sign leaves it
over the same names.
-/
namespace Metrology.Algebra.Term

/-- A term with names of one kind only, and with arguments for every call. -/
inductive Over (P : String → Prop) : Term → Prop
  | num (q : Rat) : Over P (.num q)
  | imaginary : Over P .imaginary
  | infinite : Over P .infinite
  | undefined : Over P .undefined
  | var {name : String} (hname : P name) : Over P (.var name)
  | auxiliary (i : Nat) (positive : Bool) : Over P (.auxiliary i positive)
  | pow {b e : Term} (hb : Over P b) (he : Over P e) : Over P (.pow b e)
  | mul {ts : List Term} (hts : ∀ t ∈ ts, Over P t) : Over P (.mul ts)
  | add {ts : List Term} (hts : ∀ t ∈ ts, Over P t) : Over P (.add ts)
  | call {f : Callee} {ts : List Term} (hne : ts ≠ []) (hts : ∀ t ∈ ts, Over P t) : Over P (.call f ts)

attribute [simp] Over.num Over.imaginary Over.infinite Over.undefined Over.auxiliary

variable {P Q : String → Prop} {s t b e : Term} {ts : List Term}

@[simp] theorem over_var {name : String} : Over P (.var name) ↔ P name :=
  ⟨fun h => by cases h; assumption, .var⟩

@[simp] theorem over_pow : Over P (.pow b e) ↔ Over P b ∧ Over P e :=
  ⟨fun h => by cases h; exact ⟨‹_›, ‹_›⟩, fun h => .pow h.1 h.2⟩

@[simp] theorem over_mul : Over P (.mul ts) ↔ ∀ t ∈ ts, Over P t :=
  ⟨fun h => by cases h; assumption, .mul⟩

@[simp] theorem over_add : Over P (.add ts) ↔ ∀ t ∈ ts, Over P t :=
  ⟨fun h => by cases h; assumption, .add⟩

@[simp] theorem over_call {f : Callee} : Over P (.call f ts) ↔ ts ≠ [] ∧ ∀ t ∈ ts, Over P t :=
  ⟨fun h => by cases h; exact ⟨‹_›, ‹_›⟩, fun h => .call h.1 h.2⟩

@[simp] theorem over_zero : Over P zero := .num 0

@[simp] theorem over_one : Over P one := .num 1

@[simp] theorem over_minusOne : Over P minusOne := .num (-1)

@[simp] theorem over_half : Over P half := .num (1 / 2)

theorem Over.mono (h : Over P t) (hPQ : ∀ name, P name → Q name) : Over Q t := by
  induction h with
  | var hname => exact .var (hPQ _ hname)
  | pow _ _ ihb ihe => exact .pow ihb ihe
  | mul _ ih => exact .mul ih
  | add _ ih => exact .add ih
  | call hne _ ih => exact .call hne ih
  | _ => simp

/-! ## Parts of terms -/

theorem Over.factorsOf (h : Over P t) : ∀ u ∈ t.factorsOf, Over P u := by
  cases h with
  | mul hts => exact hts
  | _ => simp_all [Term.factorsOf]

theorem Over.termsOf (h : Over P t) : ∀ u ∈ t.termsOf, Over P u := by
  cases h with
  | add hts => exact hts
  | _ => simp_all [Term.termsOf]

@[simp] theorem Over.ofFactors (h : ∀ t ∈ ts, Over P t) : Over P (ofFactors ts) := by
  unfold Term.ofFactors
  split
  · simp
  · exact h _ (by simp)
  · exact .mul h

@[simp] theorem Over.ofTerms (h : ∀ t ∈ ts, Over P t) : Over P (ofTerms ts) := by
  unfold Term.ofTerms
  split
  · simp
  · exact h _ (by simp)
  · exact .add h

@[simp] theorem mem_sort : t ∈ sort ts ↔ t ∈ ts := List.mem_mergeSort

@[simp] theorem Over.splitCoefficient (h : Over P t) : Over P t.splitCoefficient.2 := by
  unfold Term.splitCoefficient
  split
  · simp
  · exact .ofFactors fun u hu => over_mul.mp h u (List.mem_cons_of_mem _ hu)
  · exact h

@[simp] theorem Over.splitConstant (h : Over P t) : Over P t.splitConstant.2 := by
  unfold Term.splitConstant
  split
  · simp
  · exact .ofTerms fun u hu => over_add.mp h u (List.mem_cons_of_mem _ hu)
  · exact h

@[simp] theorem Over.negated (h : Over P t) : Over P (splitPower.negated t) := by
  unfold splitPower.negated
  split
  · simp
  · have hrest := (List.forall_mem_cons.mp (over_mul.mp h)).2
    split
    · exact .ofFactors hrest
    · exact .mul (List.forall_mem_cons.mpr ⟨.num _, hrest⟩)
  · exact .mul (List.forall_mem_cons.mpr ⟨over_minusOne, over_mul.mp h⟩)
  · simpa using h

theorem Over.splitPower (h : Over P t) : Over P t.splitPower.1 ∧ Over P t.splitPower.2 := by
  unfold Term.splitPower
  split
  · have he := (over_pow.mp h).2
    split
    · exact ⟨.num _, he.negated⟩
    · exact ⟨.num _, he⟩
  · exact over_pow.mp h
  · exact ⟨h, over_one⟩

@[simp] theorem Over.negateProduct (h : Over P t) : Over P (negateProduct t) := by
  unfold Term.negateProduct
  split
  · simp
  · simp
  · simp
  · exact h
  · have hrest := (List.forall_mem_cons.mp (over_mul.mp h)).2
    split
    · exact .ofFactors hrest
    · exact .mul (List.forall_mem_cons.mpr ⟨.num _, hrest⟩)
  · exact .mul (List.forall_mem_cons.mpr ⟨over_minusOne, over_mul.mp h⟩)
  · simpa using h

@[simp] theorem Over.negate (h : Over P t) : Over P (negate t) := by
  unfold Term.negate
  split
  · refine .add fun u hu => ?_
    obtain ⟨v, hv, rfl⟩ := List.mem_map.mp (mem_sort.mp hu)
    exact (over_add.mp h v hv).negateProduct
  · exact h.negateProduct

@[simp] theorem Over.unitPower (h : Over P t) : Over P t.unitPower.1 := by
  unfold Term.unitPower
  split
  · obtain ⟨hb, he⟩ := h.splitPower
    have hrest := he.splitCoefficient
    split
    · next heq =>
      simp only [heq] at hb
      dsimp only
      split
      · exact hb
      · exact .pow hb (.num _)
    · next heq =>
      simp only [heq] at hb hrest
      dsimp only
      split
      · exact h
      · split
        · exact .pow hb hrest
        · split
          · exact .pow hb hrest
          · exact .pow hb (.mul (List.forall_mem_cons.mpr ⟨.num _, hrest.factorsOf⟩))
  · exact h

end Metrology.Algebra.Term
