import Metrology.Algebra.Simplification
import Metrology.Proofs.Over.Factor

/-! # Simplification over some names

All forms of a term that simplification tries are over its names, so the one that it keeps is.
-/
namespace Metrology.Algebra.Term

variable {P : String → Prop} {s t b e : Term} {ts : List Term}

theorem over_cheapest (ht : Over P t) (hts : ∀ u ∈ ts, Over P u) : Over P (cheapest t ts) := by
  refine List.foldlRecOn (motive := fun best : Term => Over P best) ts _ ht ?_
  intro best hbest u hu
  split
  · exact hts u hu
  · exact hbest

theorem Over.joinableBase (h : Over P t) : Over P t.joinableBase.1 ∧ Over P t.joinableBase.2 := by
  obtain ⟨hb, he⟩ := h.splitPower
  unfold Term.joinableBase
  dsimp only
  split
  · exact ⟨hb.power he, over_one⟩
  · exact ⟨hb, he⟩

theorem over_addExponent {ps : List (Term × Term)} (hb : Over P b) (he : Over P e) (h : OverPairs P ps) :
    OverPairs P (addExponent b e ps) := by
  induction ps with
  | nil => simpa [addExponent, OverPairs] using ⟨hb, he⟩
  | cons p rest ih =>
    obtain ⟨⟨hc, hf⟩, hrest⟩ := List.forall_mem_cons.mp h
    unfold addExponent
    split
    · exact List.forall_mem_cons.mpr ⟨⟨hc, .sum (by simpa using ⟨hf, he⟩)⟩, hrest⟩
    · exact List.forall_mem_cons.mpr ⟨⟨hc, hf⟩, ih hrest⟩

theorem over_absorbCoefficient {c : Rat} {ps : List (Term × Term)} (h : OverPairs P ps) :
    OverPairs P (absorbCoefficient c ps).2 := by
  refine List.foldlRecOn (motive := fun found : Rat × List (Term × Term) => OverPairs P found.2) ps _
    (by simp [OverPairs]) ?_
  intro found hfound p hp
  obtain ⟨hb, he⟩ := h p hp
  have hkept : OverPairs P (found.2 ++ [p]) := List.forall_mem_append.mpr ⟨hfound, by simpa using ⟨hb, he⟩⟩
  dsimp only
  split
  · generalize multiplicity _ _ = m
    split
    · exact hkept
    · refine List.forall_mem_append.mpr ⟨hfound, ?_⟩
      simpa using Over.sum (by simpa using he)
  · exact hkept

theorem over_joinNegated {ps : List (Term × Term)} (h : OverPairs P ps) : OverPairs P (joinNegated ps) := by
  refine List.foldlRecOn (motive := fun found : List (Term × Term) => OverPairs P found) ps _ h ?_
  intro found hfound p hp
  obtain ⟨hb, he⟩ := h p hp
  dsimp only
  split
  · refine over_addExponent over_minusOne he (over_addExponent hb.negate he fun q hq => ?_)
    exact hfound q (List.mem_filter.mp hq).1
  · exact hfound

@[simp] theorem Over.joinExponents (h : Over P t) : Over P (joinExponents t) := by
  unfold Term.joinExponents
  split
  · next us =>
    have hus := over_mul.mp h
    have hpowers : OverPairs P ((us.filter fun t => !t.isNumber).foldl
        (fun found t => addExponent (Term.joinableBase t).1 (Term.joinableBase t).2 found) []) := by
      refine List.foldlRecOn (motive := fun found : List (Term × Term) => OverPairs P found) _ _
        (by simp [OverPairs]) ?_
      intro found hfound u hu
      obtain ⟨hb, he⟩ := (hus u (List.mem_filter.mp hu).1).joinableBase
      exact over_addExponent hb he hfound
    have habsorbed := over_absorbCoefficient (c := numbersAmong us) hpowers
    dsimp only
    refine .product (List.forall_mem_map.mpr fun p hp => ?_)
    have hp := (List.mem_filter.mp hp).1
    have hall : Over P p.1 ∧ Over P p.2 := by
      refine over_joinNegated ?_ p hp
      split
      · exact habsorbed
      · exact over_addExponent (.num _) over_one habsorbed
    exact hall.1.power hall.2
  · exact h

theorem over_moveCoefficient (hb : Over P b) (he : Over P e) :
    Over P (moveCoefficient b e).1 ∧ Over P (moveCoefficient b e).2 := by
  unfold moveCoefficient
  dsimp only
  split
  · exact ⟨hb, he⟩
  · split
    · exact ⟨hb, he⟩
    · exact ⟨hb.power (.num _), he.splitCoefficient⟩

theorem over_joinBasesWith (he : Over P e) (h : ∀ t ∈ ts, Over P t) : ∀ t ∈ joinBasesWith e ts, Over P t := by
  have hfilter (p : Term → Bool) : ∀ t ∈ ts.filter p, Over P t := fun t ht => h t (List.mem_filter.mp ht).1
  unfold joinBasesWith
  split
  · next b =>
    have hb : Over P b := h b (by simp)
    simpa using hb.power he
  · split
    · simpa using (Over.product h).power he
    · extract_lets negative nonnegative unknown
      have hnegative : ∀ t ∈ negative, Over P t := hfilter _
      have hnonnegative : ∀ t ∈ nonnegative, Over P t := hfilter _
      have hunknown : ∀ t ∈ unknown, Over P t := hfilter _
      split
      next apart joined heq =>
      have hsplit : (∀ t ∈ apart, Over P t) ∧ ∀ t ∈ joined, Over P t := by
        split at heq
        · cases heq
          exact ⟨by simp, List.forall_mem_append.mpr ⟨List.forall_mem_append.mpr ⟨hnonnegative, hunknown⟩, hnegative⟩⟩
        · split at heq
          · cases heq
            exact ⟨hunknown, hnonnegative⟩
          · split at heq
            · cases heq
              refine ⟨List.forall_mem_append.mpr ⟨hunknown, by simp⟩, List.forall_mem_append.mpr ⟨hnonnegative, ?_⟩⟩
              exact List.forall_mem_map.mpr fun u hu => (hnegative u hu).negate
            · cases heq
              exact ⟨List.forall_mem_append.mpr ⟨hunknown, hnegative⟩, hnonnegative⟩
      have hbase : Over P (product joined) := .product hsplit.2
      refine List.forall_mem_map.mpr fun u hu => Over.power ?_ he
      rcases List.mem_append.mp hu with hu | hu
      · exact hsplit.1 u hu
      · obtain rfl := List.mem_singleton.mp hu
        split
        · exact hbase.expandProducts.factorTerms
        · exact hbase

@[simp] theorem Over.joinBases (h : Over P t) : Over P (joinBases t) := by
  unfold Term.joinBases
  split
  · have hus := over_mul.mp h
    refine .product fun u hu => ?_
    obtain ⟨p, hp, hu⟩ := List.mem_flatMap.mp hu
    obtain ⟨he, hbases⟩ : Over P p.1 ∧ ∀ t ∈ p.2, Over P t := by
      refine forall_mem_group (List.forall_mem_map.mpr fun q hq => ?_) p hp
      obtain ⟨r, hr, rfl⟩ := List.mem_map.mp hq
      obtain ⟨v, hv, rfl⟩ := List.mem_map.mp hr
      obtain ⟨hb, he⟩ := (hus v hv).splitPower
      obtain ⟨hb, he⟩ := over_moveCoefficient hb he
      dsimp only
      split
      · split
        · exact ⟨he.factorTerms.negate, hb.power over_minusOne⟩
        · exact ⟨he.factorTerms, hb⟩
      · exact ⟨he, hb⟩
    exact over_joinBasesWith he hbases u hu
  · exact h

theorem Over.joinPowersWithin {deep bases : Bool} (fuel : Nat) (h : Over P t) :
    Over P (joinPowersWithin deep bases fuel t) := by
  induction fuel generalizing t with
  | zero => exact h
  | succ fuel ih =>
    unfold Term.joinPowersWithin
    dsimp only
    split
    · exact .sum (List.forall_mem_map.mpr fun u hu => ih (over_add.mp h u hu))
    · have hproduct : Over P (Term.product _) := .product (List.forall_mem_map.mpr fun u hu => ih (over_mul.mp h u hu))
      split
      · next heq =>
        rw [heq] at hproduct
        split
        · exact hproduct.joinExponents.joinBases
        · exact hproduct.joinExponents
      · split
        · exact hproduct
        · exact ih hproduct
    · obtain ⟨hb, he⟩ := over_pow.mp h
      split
      · exact (ih hb).power (ih he)
      · exact h
    · obtain ⟨hne, hts⟩ := over_call.mp h
      split
      · exact .call (by simpa using hne) (List.forall_mem_map.mpr fun u hu => ih (hts u hu))
      · exact h
    · exact h

@[simp] theorem Over.joinPowers (h : Over P t) : Over P (joinPowers t) := h.joinPowersWithin _

@[simp] theorem Over.joinPowersDeep (h : Over P t) : Over P (joinPowersDeep t) := h.joinPowersWithin _

@[simp] theorem Over.asFraction (h : Over P t) : Over P (asFraction t) := by
  obtain ⟨hn, hd⟩ := h.numerDenom
  unfold Term.asFraction
  dsimp only
  split
  · split
    · exact hn
    · exact hn.keepCoefficient _
  · exact hn.quotient hd

theorem Over.fractionsWithin (fuel : Nat) (h : Over P t) : Over P (fractionsWithin fuel t) := by
  induction fuel generalizing t with
  | zero => exact h
  | succ fuel ih =>
    unfold Term.fractionsWithin
    dsimp only
    split
    · exact (Over.sum (List.forall_mem_map.mpr fun u hu => ih (over_add.mp h u hu))).asFraction
    · exact (Over.product (List.forall_mem_map.mpr fun u hu => ih (over_mul.mp h u hu))).asFraction
    · obtain ⟨hb, he⟩ := over_pow.mp h
      exact ((ih hb).power (ih he)).asFraction
    · obtain ⟨hne, hts⟩ := over_call.mp h
      exact .call (by simpa using hne) (List.forall_mem_map.mpr fun u hu => ih (hts u hu))
    · exact h

theorem over_rationalize {above below : Term} (h : Over P t) (heq : rationalize? t = some (above, below)) :
    Over P above ∧ Over P below := by
  unfold rationalize? at heq
  split at heq
  · next a u =>
    have hroot : Over P u.splitCoefficient.2 := (over_add.mp h u (by simp)).splitCoefficient
    dsimp only at heq
    split at heq
    · next r k hr =>
      split at heq
      · cases heq
        exact ⟨.sum (by simp [hroot]), .num _⟩
      · cases heq
    · cases heq
      exact ⟨.sum (by simp), .num _⟩
    · cases heq
  · cases heq

theorem Over.unfoldHollow (fuel : Nat) (h : Over P t) : Over P (unfoldHollow fuel t) := by
  induction fuel generalizing t with
  | zero => exact h
  | succ fuel ih =>
    unfold Term.unfoldHollow
    dsimp only
    split
    · next c us => exact (over_mul.mp h (.add us) (by simp)).scale c
    · split
      · exact h
      · exact .product (List.forall_mem_map.mpr fun u hu => ih (over_mul.mp h u hu))
    · split
      · exact h
      · exact .sum (List.forall_mem_map.mpr fun u hu => ih (over_add.mp h u hu))
    · obtain ⟨hb, he⟩ := over_pow.mp h
      split
      · exact h
      · exact (ih hb).power (ih he)
    · exact h

@[simp] theorem Over.reducedForm (h : Over P t) : Over P (reducedForm t) := by
  have hprimitive := (h.fractionsWithin (2 * t.size + 4)).joinPowers.contentPrimitive
  unfold Term.reducedForm
  split
  next content p heq =>
  have hp : Over P p := by simpa [heq] using hprimitive
  have hstart : Over P (Term.product [.num content, p]) := .product (by simpa using hp)
  have hreduced : Over P (cheapest _ [Term.cancel (Term.multiplied _)]) :=
    over_cheapest hstart.cancel (by simpa using hstart.cancel.multiplied.cancel)
  have hjoined : Over P (cheapest _ [Term.together _]) :=
    over_cheapest hstart.together (by simpa using hreduced.together)
  exact (over_cheapest hjoined (by simpa using ⟨hreduced, hstart⟩)).factorTermsUnsigned

@[simp] theorem Over.shortestForm (h : Over P t) : Over P (shortestForm t) := by
  have hjoined : Over P (cheapest (Term.joinPowersDeep t) [Term.joinPowers t, t]) :=
    over_cheapest h.joinPowersDeep (by simp [h])
  have hreduced : Over P (cheapest _ [Term.cancel _]) := over_cheapest hjoined (by simpa using hjoined.cancel)
  exact over_cheapest hreduced (by simpa using ⟨hreduced.factorTerms, hreduced.expandProducts.expandExponents⟩)

@[simp] theorem Over.settleFraction (h : Over P t) : Over P (settleFraction t) := by
  obtain ⟨hn, hd⟩ := h.numerDenom
  unfold Term.settleFraction
  generalize Term.numerDenom t = p at hn hd ⊢
  obtain ⟨n, d⟩ := p
  dsimp -zeta only at hn hd ⊢
  extract_lets cleared
  have hcleared : Over P cleared := by
    dsimp only [cleared]
    split
    · next above below heq =>
      split at heq
      · obtain ⟨habove, hbelow⟩ := over_rationalize hd heq
        exact (Over.product (by simpa using ⟨hn, habove⟩)).expand.quotient hbelow
      · cases heq
    · exact h
  obtain ⟨habove, hbelow⟩ := hcleared.fraction
  split
  · split
    · exact hcleared
    · exact (habove.negate.quotient hbelow.negate).settleSigns
  · exact hcleared

theorem over_simplifyFinish (h : Over P t) : Over P (simplify.finish t) := by
  unfold simplify.finish
  split
  · exact h
  · have hshort :=
      (h.reducedForm.shortestForm.unfoldHollow (2 * (shortestForm (reducedForm t)).size + 4)).settleFraction
    dsimp only
    split
    · exact h.spread
    · exact hshort.spread

@[simp] theorem Over.simplify (h : Over P t) : Over P (simplify t) := by
  have hsettled := h.settleSigns
  unfold Term.simplify
  dsimp only
  split
  · exact h
  · split
    · exact over_simplifyFinish hsettled
    · exact over_simplifyFinish hsettled
    · exact over_simplifyFinish hsettled
    · exact hsettled

end Metrology.Algebra.Term
