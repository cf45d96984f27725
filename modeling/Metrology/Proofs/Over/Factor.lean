import Metrology.Algebra.Factoring
import Metrology.Proofs.Over.Expansion

/-! # Factors over some names

The generators of a polynomial, common factors and common denominators are over the names of the terms that
they come from.
-/
namespace Metrology.Algebra

variable {P : String → Prop} {b t : Term} {ts : List Term}

namespace Term

@[simp] theorem Over.generatorPower (h : Over P t) : Over P t.generatorPower.1 := by
  have hb := h.unitPower
  unfold Term.generatorPower
  split
  next c n heq =>
    rw [heq] at hb
    split
    · exact hb.power over_minusOne
    · exact hb

theorem Over.readFactors (h : Over P t) : ∀ p ∈ t.readFactors.1, Over P p.1 := by
  have hrest := h.splitCoefficient
  unfold Term.readFactors
  dsimp only
  split
  · simp
  · exact List.forall_mem_map.mpr fun u hu => (hrest.factorsOf u hu).generatorPower

theorem mem_distinct {found : List Term}
    (h : t ∈ ts.foldl (fun found t => if found.contains t then found else found ++ [t]) found) :
    t ∈ found ∨ t ∈ ts := by
  induction ts generalizing found with
  | nil => exact Or.inl h
  | cons u rest ih =>
    rcases ih (by simpa using h) with h | h
    · split at h
      · exact Or.inl h
      · rcases List.mem_append.mp h with h | h
        · exact Or.inl h
        · exact Or.inr (List.mem_cons.mpr (Or.inl (List.mem_singleton.mp h)))
    · exact Or.inr (List.mem_cons_of_mem _ h)

theorem over_generatorsOf (h : ∀ t ∈ ts, Over P t) : ∀ g ∈ generatorsOf ts, Over P g := by
  intro g hg
  rcases mem_distinct (List.mem_mergeSort.mp hg) with hg | hg
  · simp at hg
  · obtain ⟨t, ht, hg⟩ := List.mem_flatMap.mp hg
    obtain ⟨u, hu, hg⟩ := List.mem_flatMap.mp hg
    obtain ⟨p, hp, rfl⟩ := List.mem_map.mp hg
    exact ((h t ht).termsOf u hu).readFactors p hp

@[simp] theorem over_ofPolynomial {p : Polynomial} (h : ∀ g ∈ ts, Over P g) : Over P (ofPolynomial ts p) := by
  refine .sum (List.forall_mem_map.mpr fun m _ => .product (List.forall_mem_cons.mpr ⟨.num _, ?_⟩))
  exact List.forall_mem_map.mpr fun x hx => (h x.1 (List.of_mem_zip hx).1).power (.num _)

end Term

def OverBases (P : String → Prop) (fs : List (Term × Nat)) : Prop := ∀ f ∈ fs, Term.Over P f.1

namespace Factored

variable {fs gs : List (Term × Nat)} {f g : Factored}

theorem over_insert {n : Nat} (hb : Term.Over P b) (h : OverBases P fs) : OverBases P (insert b n fs) := by
  induction fs with
  | nil => simpa [insert, OverBases] using hb
  | cons f rest ih =>
    obtain ⟨hf, hrest⟩ := List.forall_mem_cons.mp h
    unfold insert
    split
    · exact List.forall_mem_cons.mpr ⟨hf, hrest⟩
    · exact List.forall_mem_cons.mpr ⟨hf, ih hrest⟩

theorem over_insertAll (hfs : OverBases P fs) (hgs : OverBases P gs) :
    OverBases P (gs.foldl (fun fs f => insert f.1 f.2 fs) fs) :=
  List.foldlRecOn (motive := fun fs : List (Term × Nat) => OverBases P fs) gs _ hfs
    fun _ hfs g hg => over_insert (hgs g hg) hfs

theorem over_common (h : OverBases P fs) : OverBases P (common fs gs) := by
  intro f hf
  obtain ⟨g, hg, rfl⟩ := List.mem_map.mp (List.mem_filter.mp hf).1
  exact h g hg

theorem over_without (h : OverBases P fs) : OverBases P (without fs gs) := by
  intro f hf
  obtain ⟨g, hg, rfl⟩ := List.mem_map.mp (List.mem_filter.mp hf).1
  exact h g hg

theorem over_joint (hfs : OverBases P fs) (hgs : OverBases P gs) : OverBases P (joint fs gs) := by
  intro f hf
  rcases List.mem_append.mp hf with hf | hf
  · obtain ⟨g, hg, rfl⟩ := List.mem_map.mp hf
    exact hfs g hg
  · exact hgs f (List.mem_filter.mp hf).1

theorem over_factorsTerm (h : OverBases P fs) : Term.Over P (factorsTerm fs) :=
  .product (List.forall_mem_map.mpr fun f hf => (h f hf).power (.num _))

structure Over (P : String → Prop) (f : Factored) : Prop where
  above : OverBases P f.above
  below : OverBases P f.below

theorem Over.insertFactor (h : f.Over P) (ht : Term.Over P t) : (f.insertFactor t).Over P := by
  have hb := ht.unitPower
  have hprimitive := hb.primitive
  unfold Factored.insertFactor
  dsimp only
  split
  · refine ⟨h.above, over_insert ?_ h.below⟩
    split
    · exact hprimitive
    · exact hb
  · refine ⟨over_insert ?_ h.above, h.below⟩
    split
    · exact hprimitive
    · exact hb

theorem over_ofTerm (h : Term.Over P t) : (ofTerm t).Over P := by
  have hrest := h.splitCoefficient
  unfold ofTerm
  dsimp only
  split
  · exact ⟨by simp [OverBases], by simp [OverBases]⟩
  · refine List.foldlRecOn (motive := fun f : Factored => f.Over P) _ _ ⟨by simp [OverBases], by simp [OverBases]⟩ ?_
    exact fun f hf t ht => hf.insertFactor (hrest.factorsOf t ht)

theorem Over.gcd (h : f.Over P) : (f.gcd g).Over P := ⟨over_common h.above, over_common h.below⟩

theorem Over.quo (hf : f.Over P) (hg : g.Over P) : (f.quo g).Over P := by
  have habove := over_insertAll hf.above hg.below
  have hbelow := over_insertAll hf.below hg.above
  exact ⟨over_without habove, over_without hbelow⟩

theorem Over.toTerm (h : f.Over P) : Term.Over P f.toTerm := by
  refine .product (List.forall_mem_cons.mpr ⟨.num _, ?_⟩)
  simpa using (over_factorsTerm h.above).quotient (over_factorsTerm h.below)

end Factored

namespace Term

structure CommonParts.Over (P : String → Prop) (p : CommonParts) : Prop where
  content : Term.Over P p.content
  numerator : Term.Over P p.numerator
  denominator : Term.Over P p.denominator

theorem over_commonParts {isPrimitive withDenominator : Bool} (h : ∀ t ∈ ts, Over P t) :
    (commonParts isPrimitive withDenominator ts).Over P := by
  have hread : ∀ f ∈ (ts.filter fun t => !(t == zero)).map Factored.ofTerm, f.Over P :=
    List.forall_mem_map.mpr fun t ht => Factored.over_ofTerm (h t (List.mem_filter.mp ht).1)
  unfold commonParts
  extract_lets raw
  have hraw : raw.Over P := by
    dsimp only [raw]
    split
    · exact ⟨over_zero, over_zero, over_one⟩
    · next f heq =>
      have hf : f.Over P := hread f (by simp [heq])
      exact ⟨.num _, Factored.over_factorsTerm hf.above, Factored.over_factorsTerm hf.below⟩
    · next f rest _ heq =>
      rw [heq] at hread
      obtain ⟨hf, hrest⟩ := List.forall_mem_cons.mp hread
      have hcommon : (rest.foldl Factored.gcd f).Over P :=
        List.foldlRecOn (motive := fun f : Factored => f.Over P) rest _ hf fun _ hf _ _ => hf.gcd
      have hleft : ∀ g ∈ (f :: rest).map fun s => s.quo (rest.foldl Factored.gcd f), g.Over P :=
        List.forall_mem_map.mpr fun g hg => (hread g hg).quo hcommon
      split
      · have hbelow : OverBases P
            (((f :: rest).map fun s => s.quo (rest.foldl Factored.gcd f)).foldl
                (fun fs s => Factored.joint fs s.below) []) :=
          List.foldlRecOn (motive := fun fs : List (Term × Nat) => OverBases P fs) _ _ (by simp [OverBases])
            fun _ hfs g hg => Factored.over_joint hfs (hleft g hg).below
        refine ⟨hcommon.toTerm, .sum (List.forall_mem_map.mpr fun g hg => .product ?_),
          Factored.over_factorsTerm hbelow⟩
        refine List.forall_mem_cons.mpr ⟨.num _, ?_⟩
        simpa using Factored.over_factorsTerm
          (Factored.over_insertAll (hleft g hg).above (Factored.over_without hbelow))
      · exact ⟨hcommon.toTerm, .sum (List.forall_mem_map.mpr fun g hg => (hleft g hg).toTerm), over_one⟩
  split
  · refine ⟨.product ?_, hraw.numerator.primitive, hraw.denominator⟩
    exact List.forall_mem_cons.mpr ⟨hraw.content, by simp⟩
  · exact hraw

@[simp] theorem over_joinTerms {isPrimitive clear withDenominator : Bool} (h : ∀ t ∈ ts, Over P t) :
    Over P (joinTerms isPrimitive clear withDenominator ts) := by
  have hparts : (commonParts isPrimitive withDenominator ts).Over P := over_commonParts h
  have hfactors := hparts.content.splitCoefficient
  unfold joinTerms
  dsimp only
  generalize commonParts isPrimitive withDenominator ts = parts at hparts hfactors ⊢
  generalize splitCoefficient parts.content = content at hfactors ⊢
  have hchosen : Over P (if clear || content.1.den = 1 then (content.1, parts.numerator)
      else uncleared (content.1, parts.numerator)).2 := by
    split
    · exact hparts.numerator
    · exact hparts.numerator.uncleared
  generalize (if clear || content.1.den = 1 then (content.1, parts.numerator)
    else uncleared (content.1, parts.numerator)) = chosen at hchosen ⊢
  have hquotient : Over P (quotient (product [content.2, chosen.2]) parts.denominator) :=
    (Over.product (by simpa using ⟨hfactors, hchosen⟩)).quotient hparts.denominator
  split
  · exact hquotient.keepCoefficient _
  · exact hquotient.keepUncleared _

/-! ## Taking out common factors -/

theorem over_finish {clear withDenominator keepSign : Bool} {inner : Term → Term}
    (hinner : ∀ {t}, Over P t → Over P (inner t)) (h : Over P t) :
    Over P (factorTermsWithin.finish clear withDenominator keepSign inner t) := by
  have hinnerAll {us : List Term} (hus : ∀ u ∈ us, Over P u) : ∀ u ∈ us.map inner, Over P u :=
    List.forall_mem_map.mpr fun u hu => hinner (hus u hu)
  have hcontent : Over P (contentWithin clear (2 * t.size + 4) t).2 := h.contentWithin _
  unfold factorTermsWithin.finish
  split
  next content p hfound =>
  rw [hfound] at hcontent
  split
  next content q hq =>
  have hchosen : Over P q := by
    split at hq
    · have hts := hinnerAll (over_add.mp hcontent)
      dsimp only at hq
      cases hq
      refine over_joinTerms ?_
      split
      · exact List.forall_mem_map.mpr fun u hu => (hts u hu).negate
      · exact hts
    · cases hq
      exact .product (hinnerAll (over_mul.mp hcontent))
    · obtain ⟨hb, he⟩ := over_pow.mp hcontent
      cases hq
      exact (hinner hb).power (hinner he)
    · obtain ⟨hne, hts⟩ := over_call.mp hcontent
      cases hq
      exact .call (by simpa using hne) (hinnerAll hts)
    · cases hq
      exact hcontent
  split
  · split
    · split
      · exact .mul (List.forall_mem_cons.mpr ⟨over_minusOne, by simpa using hchosen⟩)
      · exact hchosen.negate
    · split
      · exact hchosen.keepCoefficient _
      · exact hchosen.keepUncleared _
  · exact hchosen.keepCoefficient _

theorem Over.factorTermsWithin {clear withDenominator keepSign : Bool} (fuel : Nat) (h : Over P t) :
    Over P (factorTermsWithin clear withDenominator keepSign fuel t) := by
  induction fuel generalizing t with
  | zero => exact h
  | succ fuel ih =>
    unfold Term.factorTermsWithin
    dsimp only
    split
    · obtain ⟨hb, he⟩ := over_pow.mp h
      split
      · exact h
      · exact (ih hb).power (ih he)
    · obtain ⟨hne, hts⟩ := over_call.mp h
      exact .call (by simpa using hne) (List.forall_mem_map.mpr fun u hu => ih (hts u hu))
    · exact over_finish ih h
    · exact over_finish ih h
    · exact h

@[simp] theorem Over.factorTerms (h : Over P t) : Over P (factorTerms t) := h.factorTermsWithin _

@[simp] theorem Over.factorTermsUnsigned (h : Over P t) : Over P (factorTermsUnsigned t) := h.factorTermsWithin _

@[simp] theorem Over.factorTermsCleared (h : Over P t) : Over P (factorTermsCleared t) := h.factorTermsWithin _

theorem Over.togetherWithin (fuel : Nat) (h : Over P t) : Over P (togetherWithin fuel t) := by
  induction fuel generalizing t with
  | zero => exact h
  | succ fuel ih =>
    unfold Term.togetherWithin
    split
    · exact over_joinTerms (List.forall_mem_map.mpr fun u hu => ih (over_add.mp h u hu))
    · exact .product (List.forall_mem_map.mpr fun u hu => ih (over_mul.mp h u hu))
    · obtain ⟨hb, he⟩ := over_pow.mp h
      exact (ih hb).power (ih he)
    · obtain ⟨hne, hts⟩ := over_call.mp h
      exact .call (by simpa using hne) (List.forall_mem_map.mpr fun u hu => ih (hts u hu))
    · exact h

@[simp] theorem Over.together (h : Over P t) : Over P (together t) := h.togetherWithin _

theorem spreadAll_eq_map : spreadAll ts = ts.map spread := by
  induction ts with
  | nil => rfl
  | cons t rest ih => simp [spreadAll, ih]

@[simp] theorem Over.spread (h : Over P t) : Over P (spread t) := by
  induction h with
  | pow _ _ ihb ihe =>
    unfold Term.spread
    exact ihb.power ihe
  | mul _ ih =>
    unfold Term.spread
    rw [spreadAll_eq_map]
    exact .product (List.forall_mem_map.mpr ih)
  | add _ ih =>
    unfold Term.spread
    rw [spreadAll_eq_map]
    exact .sum (List.forall_mem_map.mpr ih)
  | call hne _ ih =>
    unfold Term.spread
    rw [spreadAll_eq_map]
    exact .call (by simpa using hne) (List.forall_mem_map.mpr ih)
  | _ => simp_all [Term.spread]

theorem turnAll_eq_map : turnAll ts = ts.map turnSums := by
  induction ts with
  | nil => rfl
  | cons t rest ih => simp [turnAll, ih]

@[simp] theorem Over.turnSums (h : Over P t) : Over P (turnSums t) := by
  induction h with
  | pow _ _ ihb ihe =>
    unfold Term.turnSums
    exact ihb.power ihe
  | mul _ ih =>
    unfold Term.turnSums
    rw [turnAll_eq_map]
    exact .product (List.forall_mem_map.mpr ih)
  | @add ts _ ih =>
    have hturned : ∀ u ∈ turnAll ts, Over P u := by
      rw [turnAll_eq_map]
      exact List.forall_mem_map.mpr ih
    unfold Term.turnSums
    split
    · refine .ofFactors (List.forall_mem_cons.mpr ⟨over_minusOne, ?_⟩)
      simpa using Over.sum (List.forall_mem_map.mpr fun u hu => (hturned u hu).negate)
    · exact .sum hturned
  | call hne _ ih =>
    unfold Term.turnSums
    rw [turnAll_eq_map]
    exact .call (by simpa using hne) (List.forall_mem_map.mpr ih)
  | _ => simp_all [Term.turnSums]

@[simp] theorem Over.settleSigns (h : Over P t) : Over P (settleSigns t) := by
  have hturned := h.spread.turnSums
  unfold Term.settleSigns
  split
  · next us heq =>
    rw [heq] at hturned
    exact .sum (List.forall_mem_map.mpr fun u hu => (over_add.mp hturned u hu).turnSums.spread)
  · exact hturned.spread

@[simp] theorem Over.reduceFraction {s : Term} (hs : Over P s) (ht : Over P t) : Over P (reduceFraction s t) := by
  have hgenerators : ∀ g ∈ generatorsOf [s, t], Over P g := over_generatorsOf (by simp [hs, ht])
  exact (over_ofPolynomial hgenerators).quotient (over_ofPolynomial hgenerators)

@[simp] theorem Over.cancel (h : Over P t) : Over P (cancel t) := by
  have hsettled := h.settleSigns
  unfold Term.cancel
  dsimp only
  split
  · exact hsettled
  · obtain ⟨hn, hd⟩ := hsettled.factorTerms.numerDenom
    split
    · exact hsettled.factorTerms.expand
    · exact hn.expand.reduceFraction hd.expand

end Term

end Metrology.Algebra
