import Metrology.Algebra.Ratio
import Metrology.Proofs.Over.Product

/-! # Fractions over some names

Contents, numerators and denominators of a term are over its names.
-/
namespace Metrology.Algebra.Term

variable {P : String → Prop} {s t b e : Term} {ts : List Term}

@[simp] theorem Over.keepCoefficient (c : Rat) (h : Over P t) : Over P (keepCoefficient c t) := by
  unfold Term.keepCoefficient
  split
  · simp
  · split
    · exact h
    · split
      · exact h.negate
      · split
        · simpa using h
        · have hrest := (List.forall_mem_cons.mp (over_mul.mp h)).2
          split
          · exact .ofFactors hrest
          · exact .mul (List.forall_mem_cons.mpr ⟨.num _, hrest⟩)
        · exact .mul (List.forall_mem_cons.mpr ⟨.num _, over_mul.mp h⟩)
        · simp [h]

theorem mem_sortTerms : t ∈ sortTerms ts ↔ t ∈ ts := by
  cases h : t.isNumber <;> simp [sortTerms, h]

@[simp] theorem Over.primitive (h : Over P t) : Over P t.primitive.2 := by
  unfold Term.primitive
  split
  · extract_lets parts g l
    split
    · exact h
    · split
      · exact h
      · refine .add fun u hu => ?_
        obtain ⟨p, hp, rfl⟩ := List.mem_map.mp (mem_sortTerms.mp hu)
        obtain ⟨v, hv, rfl⟩ := List.mem_map.mp hp
        exact (over_add.mp h v hv).splitCoefficient.keepCoefficient _
  · exact h

@[simp] theorem Over.keepUncleared (c : Rat) (h : Over P t) : Over P (keepUncleared c t) := by
  unfold Term.keepUncleared
  split
  · split
    · refine .add (List.forall_mem_map.mpr fun u hu => ?_)
      exact (over_add.mp h u hu).splitCoefficient.keepCoefficient _
    · exact h.keepCoefficient c
  · exact h.keepCoefficient c

@[simp] theorem Over.uncleared {p : Rat × Term} (h : Over P p.2) : Over P (uncleared p).2 := by
  unfold Term.uncleared
  dsimp only
  split
  · split
    · exact .product (by simpa using h)
    · exact h
  · exact h

theorem Over.contentWithin {clear : Bool} (fuel : Nat) (h : Over P t) : Over P (contentWithin clear fuel t).2 := by
  induction fuel generalizing t with
  | zero => exact h
  | succ fuel ih =>
    have hkept {u : Term} (hu : Over P u) :
        Over P (Term.keepCoefficient (Term.contentWithin clear fuel u).1 (Term.contentWithin clear fuel u).2) :=
      (ih hu).keepCoefficient _
    unfold Term.contentWithin
    split
    · split
      · simp
      · split <;> simp
    · refine .product fun u hu => ?_
      obtain ⟨p, hp, rfl⟩ := List.mem_map.mp (List.mem_filter.mp hu).1
      obtain ⟨v, hv, rfl⟩ := List.mem_map.mp hp
      exact ih (over_mul.mp h v hv)
    · have hsum : Over P (Term.primitive (Term.sum _)).2 :=
        (Over.sum (List.forall_mem_map.mpr fun u hu => hkept (over_add.mp h u hu))).primitive
      dsimp only
      split
      · exact hsum
      · exact hsum.uncleared
    · obtain ⟨hb, he⟩ := h.splitPower
      generalize Term.splitPower _ = p at hb he ⊢
      obtain ⟨b, e⟩ := p
      dsimp only at hb he ⊢
      have hbase := hkept hb
      generalize Term.keepCoefficient (Term.contentWithin clear fuel b).1
        (Term.contentWithin clear fuel b).2 = c at hbase ⊢
      split
      · have hrest := (ih he).splitConstant
        split
        · exact .pow hbase he
        · split
          · exact hbase.power (hrest.keepCoefficient _)
          · split
            · exact hbase.power (.keepCoefficient _ (.sum (by simpa using hrest)))
            · exact .pow hbase he
      · split
        · exact (ih hbase).power he
        · exact hbase.power he
      · exact hbase.power (hkept he)
    · exact h

@[simp] theorem Over.contentPrimitive (h : Over P t) : Over P t.contentPrimitive.2 := h.contentWithin _

theorem over_addToGroup {found : List (Term × List Term)} (hs : Over P s) (ht : Over P t)
    (h : ∀ p ∈ found, Over P p.1 ∧ ∀ u ∈ p.2, Over P u) : ∀ p ∈ addToGroup s t found, Over P p.1 ∧
    ∀ u ∈ p.2, Over P u := by
  induction found with
  | nil => simpa [addToGroup] using ⟨hs, ht⟩
  | cons p rest ih =>
    obtain ⟨hp, hrest⟩ := List.forall_mem_cons.mp h
    unfold addToGroup
    split
    · refine List.forall_mem_cons.mpr ⟨⟨hp.1, List.forall_mem_append.mpr ⟨hp.2, by simpa using ht⟩⟩, hrest⟩
    · exact List.forall_mem_cons.mpr ⟨hp, ih hrest⟩

theorem over_crossProducts {ps : List (Term × Term)} (hts : ∀ t ∈ ts, Over P t) (hps : OverPairs P ps) :
    ∀ t ∈ crossProducts ts ps, Over P t := by
  induction ps generalizing ts with
  | nil => simp [crossProducts]
  | cons p rest ih =>
    obtain ⟨hp, hrest⟩ := List.forall_mem_cons.mp hps
    have hfirst : ∀ t ∈ rest.map Prod.fst, Over P t := List.forall_mem_map.mpr fun q hq => (hrest q hq).1
    have hproduct : Over P (product (ts ++ p.2 :: rest.map Prod.fst)) :=
      .product (List.forall_mem_append.mpr ⟨hts, List.forall_mem_cons.mpr ⟨hp.2, hfirst⟩⟩)
    have hbefore : ∀ t ∈ ts ++ [p.1], Over P t := List.forall_mem_append.mpr ⟨hts, by simpa using hp.1⟩
    exact List.forall_mem_cons.mpr ⟨hproduct, ih hbefore hrest⟩

theorem Over.numerDenomWithin (fuel : Nat) (h : Over P t) :
    Over P (numerDenomWithin fuel t).1 ∧ Over P (numerDenomWithin fuel t).2 := by
  induction fuel generalizing t with
  | zero => exact ⟨h, over_one⟩
  | succ fuel ih =>
    unfold Term.numerDenomWithin
    split
    · exact ⟨.num _, .num _⟩
    · have hts := over_mul.mp h
      refine ⟨.product ?_, .product ?_⟩
      · simp only [List.forall_mem_map]
        exact fun u hu => (ih (hts u hu)).1
      · simp only [List.forall_mem_map]
        exact fun u hu => (ih (hts u hu)).2
    · obtain ⟨hb, he⟩ := h.splitPower
      obtain ⟨hn, hd⟩ := ih hb
      dsimp only
      -- Whichever numerator and denominator are taken, and on whichever side of the line, all of them are
      -- over the names.
      repeat' split
      all_goals simp [hb, he, hn, hd]
    · have hprimitive := h.primitive
      dsimp only
      split
      · next us hus =>
        rw [hus] at hprimitive
        have hgroups : ∀ p ∈ (us.map (Term.numerDenomWithin fuel)).foldl (fun found p => addToGroup p.2 p.1 found) [],
            Over P p.1 ∧ ∀ u ∈ p.2, Over P u := by
          refine List.foldlRecOn (motive := fun found : List (Term × List Term) =>
            ∀ p ∈ found, Over P p.1 ∧ ∀ u ∈ p.2, Over P u) (us.map (Term.numerDenomWithin fuel)) _ (by simp) ?_
          intro found hfound p hp
          obtain ⟨u, hu, rfl⟩ := List.mem_map.mp hp
          obtain ⟨hn, hd⟩ := ih (over_add.mp hprimitive u hu)
          exact over_addToGroup hd hn hfound
        generalize List.foldl _ _ _ = groups at hgroups ⊢
        split
        · next d ns =>
          obtain ⟨hd, hns⟩ := hgroups (d, ns) (by simp)
          exact ⟨.sum (List.forall_mem_map.mpr fun u hu => (hns u hu).keepCoefficient _), hd.keepCoefficient _⟩
        · generalize hpairs : groups.map _ = pairs
          have hjoined : OverPairs P pairs := by
            rw [← hpairs]
            refine List.forall_mem_map.mpr fun p hp => ?_
            obtain ⟨hd, hns⟩ := hgroups p hp
            refine ⟨hd, ?_⟩
            split
            · next n hn => exact hns n (by simp [hn])
            · exact .sum hns
          refine ⟨.keepCoefficient _ (.sum (over_crossProducts (by simp) hjoined)), .keepCoefficient _ (.product ?_)⟩
          exact List.forall_mem_map.mpr fun p hp => (hjoined p hp).1
      · exact ih (.mul (by simpa using hprimitive))
    · exact ⟨h, over_one⟩

theorem Over.numerDenom (h : Over P t) : Over P t.numerDenom.1 ∧ Over P t.numerDenom.2 := h.numerDenomWithin _

theorem over_fractionFactors (h : ∀ t ∈ ts, Over P t) :
    (∀ t ∈ (fractionFactors ts).1, Over P t) ∧ ∀ t ∈ (fractionFactors ts).2, Over P t := by
  induction ts with
  | nil => simp [fractionFactors]
  | cons t rest ih =>
    obtain ⟨ht, hrest⟩ := List.forall_mem_cons.mp h
    obtain ⟨habove, hbelow⟩ := ih hrest
    have hkept : (∀ u ∈ t :: (fractionFactors rest).1, Over P u) ∧ ∀ u ∈ (fractionFactors rest).2, Over P u :=
      ⟨List.forall_mem_cons.mpr ⟨ht, habove⟩, hbelow⟩
    unfold fractionFactors
    dsimp only
    split
    · obtain ⟨hb, he⟩ := ht.splitPower
      obtain ⟨hn, hd⟩ := ht.numerDenom
      split
      · exact ⟨habove, List.forall_mem_cons.mpr ⟨hb.power he.negate, hbelow⟩⟩
      · split
        · exact hkept
        · split
          · refine ⟨?_, List.forall_mem_cons.mpr ⟨hd, hbelow⟩⟩
            dsimp only
            split
            · exact habove
            · exact List.forall_mem_cons.mpr ⟨hn, habove⟩
          · exact hkept
    · split
      · exact hkept
      · refine ⟨?_, List.forall_mem_cons.mpr ⟨.num _, hbelow⟩⟩
        dsimp only
        split
        · exact habove
        · exact List.forall_mem_cons.mpr ⟨.num _, habove⟩
    · exact hkept

theorem Over.fraction (h : Over P t) : Over P t.fraction.1 ∧ Over P t.fraction.2 := by
  obtain ⟨habove, hbelow⟩ := over_fractionFactors h.factorsOf
  exact ⟨.product habove, .product hbelow⟩

end Metrology.Algebra.Term
