import Metrology.Algebra.Substitution
import Metrology.Proofs.Over.Simplification

/-! # Names that go

A term in which a variable does not occur is over the other names, and so is a term once something over the
other names stands in the place of the variable.
-/
namespace Metrology.Algebra.Term

variable {P Q : String → Prop} {s t x : Term} {ts : List Term}

def Without (P : String → Prop) (x : Term) (name : String) : Prop := P name ∧ Term.var name ≠ x

theorem sameAll_self (h : ∀ t ∈ ts, same t t = true) : sameAll ts ts = true := by
  induction ts with
  | nil => rfl
  | cons t rest ih =>
    obtain ⟨ht, hrest⟩ := List.forall_mem_cons.mp h
    simp [sameAll, ht, ih hrest]

theorem Over.same_self (h : Over P t) : (t == t) = true := by
  change same t t = true
  induction h with
  | pow _ _ ihb ihe => simp [same, ihb, ihe]
  | mul _ ih => simpa [same] using sameAll_self ih
  | add _ ih => simpa [same] using sameAll_self ih
  | call _ _ ih => simpa [same] using sameAll_self ih
  | _ => simp [same]

theorem var_ne_of_beq {name : String} (h : (Term.var name == x) = false) : Term.var name ≠ x := by
  rintro rfl
  change same (.var name) (.var name) = false at h
  simp [same] at h

theorem anyHasPart_eq_any {p : Term → Bool} : anyHasPart p ts = ts.any (hasPart p) := by
  induction ts with
  | nil => rfl
  | cons t rest ih => simp [anyHasPart, ih]

theorem Over.without (h : Over P t) (hx : x.occursIn t = false) : Over (Without P x) t := by
  unfold occursIn at hx
  induction h with
  | var hname => exact .var ⟨hname, var_ne_of_beq (by simpa [hasPart] using hx)⟩
  | pow _ _ ihb ihe =>
    simp only [hasPart, Bool.or_eq_false_iff] at hx
    exact .pow (ihb hx.1.2) (ihe hx.2)
  | mul _ ih =>
    simp only [hasPart, Bool.or_eq_false_iff, anyHasPart_eq_any, List.any_eq_false, Bool.not_eq_true] at hx
    exact .mul fun u hu => ih u hu (hx.2 u hu)
  | add _ ih =>
    simp only [hasPart, Bool.or_eq_false_iff, anyHasPart_eq_any, List.any_eq_false, Bool.not_eq_true] at hx
    exact .add fun u hu => ih u hu (hx.2 u hu)
  | call hne _ ih =>
    simp only [hasPart, Bool.or_eq_false_iff, anyHasPart_eq_any, List.any_eq_false, Bool.not_eq_true] at hx
    exact .call hne fun u hu => ih u hu (hx.2 u hu)
  | _ => simp

theorem Over.of_without (h : Over (Without P x) t) : Over P t := h.mono fun _ hname => hname.1

theorem substituteAll_eq_map : substituteAll x s ts = ts.map (substitute x s) := by
  induction ts with
  | nil => rfl
  | cons t rest ih => simp [substituteAll, ih]

theorem Over.substitute (h : Over P t) (hs : Over Q s) (hPQ : ∀ name, Without P x name → Q name) :
    Over Q (substitute x s t) := by
  induction h with
  | @var name hname =>
    unfold Term.substitute
    split
    · exact hs
    · next hne => exact .var (hPQ name ⟨hname, var_ne_of_beq (by simpa using hne)⟩)
  | pow _ _ ihb ihe =>
    unfold Term.substitute
    split
    · exact hs
    · exact ihb.power ihe
  | mul _ ih =>
    unfold Term.substitute
    split
    · exact hs
    · rw [substituteAll_eq_map]
      exact .product (List.forall_mem_map.mpr ih)
  | add _ ih =>
    unfold Term.substitute
    split
    · exact hs
    · rw [substituteAll_eq_map]
      exact .sum (List.forall_mem_map.mpr ih)
  | call hne _ ih =>
    unfold Term.substitute
    rw [substituteAll_eq_map]
    exact .call (by simpa using hne) (List.forall_mem_map.mpr ih)
  | _ =>
    unfold Term.substitute
    split
    · exact hs
    · simp

theorem over_derivativeFactors {before : List Term} (hbefore : ∀ t ∈ before, Over P t)
    (hts : ∀ t ∈ ts, Over P t ∧ Over P (derivative x t)) : ∀ t ∈ derivativeFactors x before ts, Over P t := by
  induction ts generalizing before with
  | nil => simp [derivativeFactors]
  | cons t rest ih =>
    obtain ⟨⟨ht, hderivative⟩, hrest⟩ := List.forall_mem_cons.mp hts
    have hproduct : Over P (product (before ++ derivative x t :: rest)) := by
      refine .product (List.forall_mem_append.mpr ⟨hbefore, List.forall_mem_cons.mpr ⟨hderivative, ?_⟩⟩)
      exact fun u hu => (hrest u hu).1
    have hnext : ∀ u ∈ before ++ [t], Over P u := List.forall_mem_append.mpr ⟨hbefore, by simpa using ht⟩
    exact List.forall_mem_cons.mpr ⟨hproduct, ih hnext hrest⟩

theorem derivativeTerms_eq_map : derivativeTerms x ts = ts.map (derivative x) := by
  induction ts with
  | nil => rfl
  | cons t rest ih => simp [derivativeTerms, ih]

@[simp] theorem Over.derivative (h : Over P t) : Over P (derivative x t) := by
  induction h with
  | pow hb he ihb ihe =>
    unfold Term.derivative
    split
    · exact .pow hb he
    · split
      · have hinner : Over P (Term.product [Term.derivative x _, _, Term.power _ minusOne]) :=
          .product (by simpa using ⟨ihb, he, hb.power over_minusOne⟩)
        exact .product (List.forall_mem_cons.mpr ⟨.pow hb he, by simpa using hinner⟩)
      · simp
  | mul hts ih =>
    unfold Term.derivative
    exact .sum (over_derivativeFactors (by simp) fun u hu => ⟨hts u hu, ih u hu⟩)
  | add _ ih =>
    unfold Term.derivative
    rw [derivativeTerms_eq_map]
    exact .sum (List.forall_mem_map.mpr ih)
  | call hne hts _ =>
    unfold Term.derivative
    split
    · exact .call hne hts
    · simp
  | _ =>
    unfold Term.derivative
    split <;> simp

end Metrology.Algebra.Term
