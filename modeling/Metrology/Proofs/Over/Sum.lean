import Metrology.Algebra.Normal
import Metrology.Proofs.Over.Term

/-! # Sums over some names

Flattening, collecting like terms and multiplying by numbers bring no names in.
-/
namespace Metrology.Algebra.Term

variable {P : String → Prop} {s t b e : Term} {ts : List Term}

theorem mem_flatTermsAll : s ∈ flatTermsAll ts ↔ ∃ t ∈ ts, s ∈ flatTerms t := by
  induction ts with
  | nil => simp [flatTermsAll]
  | cons t rest ih => simp [flatTermsAll, ih]

theorem Over.flatTerms (h : Over P t) : ∀ u ∈ flatTerms t, Over P u := by
  induction h with
  | add _ ih =>
    intro u hu
    obtain ⟨v, hv, hu⟩ := mem_flatTermsAll.mp (by simpa [Term.flatTerms] using hu)
    exact ih v hv u hu
  | _ => simp_all [Term.flatTerms]

theorem over_flatTermsAll (h : ∀ t ∈ ts, Over P t) : ∀ u ∈ flatTermsAll ts, Over P u := by
  intro u hu
  obtain ⟨t, ht, hu⟩ := mem_flatTermsAll.mp hu
  exact (h t ht).flatTerms u hu

theorem over_collect {c : Rat} {found : List (Rat × Term)} (ht : Over P t) (h : ∀ m ∈ found, Over P m.2) :
    ∀ m ∈ collect c t found, Over P m.2 := by
  induction found with
  | nil => simpa [collect] using ht
  | cons m rest ih =>
    obtain ⟨hm, hrest⟩ := List.forall_mem_cons.mp h
    unfold collect
    split
    · exact List.forall_mem_cons.mpr ⟨hm, hrest⟩
    · exact List.forall_mem_cons.mpr ⟨hm, ih hrest⟩

@[simp] theorem Over.withCoefficient {c : Rat} (h : Over P t) : Over P (withCoefficient c t) := by
  unfold Term.withCoefficient
  split
  · exact h
  · split
    · simpa using h
    · split <;> simp [h]

@[simp] theorem Over.sum (h : ∀ t ∈ ts, Over P t) : Over P (sum ts) := by
  have hflat := over_flatTermsAll h
  let others := (flatTermsAll ts).filter fun t => !t.isNumber && !t.isInfinite
  let collected : List (Rat × Term) := others.foldl
    (fun found t => collect (Term.splitCoefficient t).1 (Term.splitCoefficient t).2 found) []
  have hcollected : ∀ m ∈ collected, Over P m.2 := by
    refine List.foldlRecOn (motive := fun found : List (Rat × Term) => ∀ m ∈ found, Over P m.2) others _ (by simp) ?_
    intro found hfound t ht
    exact over_collect (hflat t (List.mem_filter.mp ht).1).splitCoefficient hfound
  have hterms : ∀ t ∈ (collected.filter fun m => m.1 != 0).map fun m => Term.withCoefficient m.1 m.2, Over P t := by
    intro t ht
    obtain ⟨m, hm, rfl⟩ := List.mem_map.mp ht
    exact (hcollected m (List.mem_filter.mp hm).1).withCoefficient
  unfold Term.sum
  dsimp only
  split
  · simp
  · split
    · refine .ofTerms (List.forall_mem_cons.mpr ⟨.infinite, fun t ht => ?_⟩)
      exact hterms t (List.mem_filter.mp (mem_sort.mp ht)).1
    · split
      · exact .ofTerms fun t ht => hterms t (mem_sort.mp ht)
      · exact .ofTerms (List.forall_mem_cons.mpr ⟨.num _, fun t ht => hterms t (mem_sort.mp ht)⟩)

@[simp] theorem Over.difference (hs : Over P s) (ht : Over P t) : Over P (difference s t) := by
  unfold Term.difference
  simp [hs, ht]

theorem scaleAll_eq_map {c : Rat} : scaleAll c ts = ts.map (scale c) := by
  induction ts with
  | nil => rfl
  | cons t rest ih => simp [scaleAll, ih]

theorem over_scaleAll {c : Rat} (h : ∀ t ∈ ts, ∀ c, Over P (scale c t)) : Over P (.add (sort (scaleAll c ts))) := by
  refine .add fun u hu => ?_
  rw [mem_sort, scaleAll_eq_map] at hu
  obtain ⟨t, ht, rfl⟩ := List.mem_map.mp hu
  exact h t ht c

theorem over_scale_mul {c : Rat} (hts : ∀ t ∈ ts, Over P t)
    (hterms : ∀ t ∈ ts, ∀ u ∈ t.termsOf, ∀ c, Over P (scale c u)) :
    Over P (scale c (.mul ts)) := by
  unfold scale
  split
  · simp
  · split <;> simp
  · simp
  · next heq => cases heq
  · next d us heq =>
    cases heq
    have hus : ∀ u ∈ us, ∀ c, Over P (scale c u) := hterms (.add us) (by simp)
    split
    · simp
    · split
      · exact hts (.add us) (by simp)
      · exact over_scaleAll hus
  · next d rest _ heq =>
    cases heq
    obtain ⟨-, hrest⟩ := List.forall_mem_cons.mp hts
    split
    · simp
    · split
      · exact .ofFactors hrest
      · exact .mul (List.forall_mem_cons.mpr ⟨.num _, hrest⟩)
  · next heq =>
    cases heq
    split
    · simp
    · split
      · exact .mul hts
      · exact .mul (List.forall_mem_cons.mpr ⟨.num _, hts⟩)
  · next hmul => exact absurd rfl (hmul ts)

/-- The terms of a sum are scaled on their own where the sum stands in a product, so the induction is on
both. -/
theorem Over.scale_and_terms (h : Over P t) :
    (∀ c, Over P (scale c t)) ∧ ∀ u ∈ t.termsOf, ∀ c, Over P (scale c u) := by
  have whole {t : Term} (h : ∀ c, Over P (Term.scale c t)) (ht : t.termsOf = [t]) :
      (∀ c, Over P (Term.scale c t)) ∧ ∀ u ∈ t.termsOf, ∀ c, Over P (Term.scale c u) :=
    ⟨h, by simpa [ht] using h⟩
  induction h with
  | add hts ih =>
    refine ⟨fun c => ?_, fun u hu c => (ih u hu).1 c⟩
    unfold Term.scale
    split
    · simp
    · split
      · exact .add hts
      · exact over_scaleAll fun u hu => (ih u hu).1
  | mul hts ih => exact whole (fun c => over_scale_mul hts fun u hu => (ih u hu).2) rfl
  | _ =>
    refine whole (fun c => ?_) rfl
    unfold Term.scale
    repeat' split
    all_goals simp_all

@[simp] theorem Over.scale (c : Rat) (h : Over P t) : Over P (scale c t) := h.scale_and_terms.1 c

end Metrology.Algebra.Term
