import Metrology.Algebra.Expansion
import Metrology.Proofs.Over.Fraction

/-! # Expansion over some names

Every step of expansion stays within the names of a term, and so do steps that are taken in all of its parts
or repeated.
-/
namespace Metrology.Algebra.Term

variable {P : String → Prop} {s t b e : Term} {ts : List Term}

theorem over_crossMultiply {us : List Term} (hts : ∀ t ∈ ts, Over P t) (hus : ∀ u ∈ us, Over P u) :
    ∀ t ∈ crossMultiply ts us, Over P t := by
  intro t ht
  obtain ⟨a, ha, ht⟩ := List.mem_flatMap.mp ht
  obtain ⟨b, hb, rfl⟩ := List.mem_map.mp ht
  exact .product (by simp [hts a ha, hus b hb])

theorem over_multiplySums {bound : Nat} {sums : List (List Term)} (h : ∀ ts ∈ sums, ∀ t ∈ ts, Over P t) :
    ∀ t ∈ multiplySums bound sums, Over P t := by
  induction bound generalizing sums with
  | zero => simp [multiplySums]
  | succ bound ih =>
    match sums, h with
    | [], _ => simp [multiplySums]
    | [ts], h => simpa [multiplySums] using h
    | ts :: us :: rest, h =>
      refine Over.termsOf (.sum (over_crossMultiply (ih fun ts hts => ?_) (ih fun ts hts => ?_)))
      · exact h ts (List.mem_of_mem_take hts)
      · exact h ts (List.mem_of_mem_drop hts)

@[simp] theorem Over.distribute (h : Over P t) : Over P (distribute t) := by
  have hfactors := h.factorsOf
  unfold Term.distribute
  extract_lets factors sums
  split
  · exact h
  · have hplain : Over P (Term.product (factors.filter fun t => !t.isSum)) :=
      .product fun u hu => hfactors u (List.mem_filter.mp hu).1
    have hsums : ∀ ts ∈ sums.map Term.termsOf, ∀ t ∈ ts, Over P t :=
      List.forall_mem_map.mpr fun u hu => (hfactors u (List.mem_filter.mp hu).1).termsOf
    refine .sum (List.forall_mem_map.mpr fun u hu => .product ?_)
    exact List.forall_mem_cons.mpr ⟨hplain, by simpa using over_multiplySums hsums u hu⟩

@[simp] theorem Over.multiplyOut (h : Over P t) : Over P (multiplyOut t) := by
  unfold Term.multiplyOut
  split
  · obtain ⟨hn, hd⟩ := h.fraction
    generalize Term.fraction _ = p at hn hd ⊢
    obtain ⟨n, d⟩ := p
    dsimp -zeta only
    extract_lets whole
    have hwhole : Over P whole := by
      dsimp only [whole]
      split
      · refine Over.quotient ?_ hd.distribute
        split
        · exact hn.distribute
        · exact hn
      · exact hn.quotient hd
    split
    · exact hwhole.distribute
    · exact hwhole
  · exact h

theorem over_multinomials {n : Nat} (h : ∀ t ∈ ts, Over P t) : ∀ m ∈ multinomials n ts, ∀ t ∈ m.2, Over P t := by
  induction ts generalizing n with
  | nil =>
    unfold multinomials
    split <;> simp
  | cons t rest ih =>
    obtain ⟨ht, hrest⟩ := List.forall_mem_cons.mp h
    intro m hm
    obtain ⟨k, -, hm⟩ := List.mem_flatMap.mp hm
    obtain ⟨l, hl, rfl⟩ := List.mem_map.mp hm
    exact List.forall_mem_cons.mpr ⟨ht.power (.num _), ih hrest l hl⟩

@[simp] theorem over_sumPower {n : Nat} (h : ∀ t ∈ ts, Over P t) : Over P (sumPower ts n) := by
  unfold sumPower
  split
  · simpa using h
  · refine .sum (List.forall_mem_map.mpr fun m hm => .product ?_)
    exact List.forall_mem_cons.mpr ⟨.num _, over_multinomials h m hm⟩

@[simp] theorem over_expandSumPower {r : Rat} (h : ∀ t ∈ ts, Over P t) : Over P (expandSumPower ts r) := by
  unfold expandSumPower
  extract_lets whole
  split
  · exact over_sumPower h
  · split
    · simpa using h
    · have hradical : Over P (power (.add ts) (.num (r - whole))) := .power (.add h) (.num _)
      refine .sum (List.forall_mem_map.mpr fun u hu => .product ?_)
      exact List.forall_mem_cons.mpr ⟨(over_sumPower h).termsOf u hu, by simpa using hradical⟩

@[simp] theorem Over.expandPower (h : Over P t) : Over P (expandPower t) := by
  unfold Term.expandPower
  split
  · have hts := over_add.mp (over_pow.mp h).1
    split
    · exact over_expandSumPower hts
    · split
      · exact (over_expandSumPower hts).power over_minusOne
      · exact h
  · exact h

@[simp] theorem Over.splitPowerBase (h : Over P t) : Over P (splitPowerBase t) := by
  unfold Term.splitPowerBase
  split
  · obtain ⟨hb, he⟩ := over_pow.mp h
    have hts := over_mul.mp hb
    split
    · exact .product (List.forall_mem_map.mpr fun u hu => (hts u hu).power he)
    · split
      · exact hb.power (.num _)
      · obtain ⟨hnonnegative, hnegative, hother⟩ := over_baseParts hts
        obtain ⟨hout, hinside⟩ := over_settle hnonnegative hnegative hother
        dsimp only
        split
        · exact h
        · refine .product (List.forall_mem_append.mpr ⟨List.forall_mem_map.mpr fun u hu => (hout u hu).power he, ?_⟩)
          split
          · simp
          · simpa using ⟨Over.product hinside, he⟩
  · exact h

@[simp] theorem Over.splitPowerExponent (h : Over P t) : Over P (splitPowerExponent t) := by
  unfold Term.splitPowerExponent
  split
  · obtain ⟨hb, he⟩ := over_pow.mp h
    split
    · exact .product (List.forall_mem_map.mpr fun u hu => hb.power (over_add.mp he u hu))
    · exact h
  · exact h

theorem rebuildAll_eq_map {step : Term → Term} : rebuildAll step ts = ts.map (rebuild step) := by
  induction ts with
  | nil => rfl
  | cons t rest ih => simp [rebuildAll, ih]

theorem Over.rebuild {step : Term → Term} (hstep : ∀ {t}, Over P t → Over P (step t)) (h : Over P t) :
    Over P (rebuild step t) := by
  induction h with
  | pow hb he ihb ihe =>
    unfold Term.rebuild
    dsimp only
    split
    · exact hstep (.pow hb he)
    · exact hstep (ihb.power ihe)
  | mul hts ih =>
    unfold Term.rebuild
    dsimp only
    split
    · exact hstep (.mul hts)
    · rw [rebuildAll_eq_map]
      exact hstep (.product (List.forall_mem_map.mpr ih))
  | add hts ih =>
    unfold Term.rebuild
    dsimp only
    split
    · exact hstep (.add hts)
    · rw [rebuildAll_eq_map]
      exact hstep (.sum (List.forall_mem_map.mpr ih))
  | call hne _ ih =>
    unfold Term.rebuild
    rw [rebuildAll_eq_map]
    exact hstep (.call (by simpa using hne) (List.forall_mem_map.mpr ih))
  | var hname => exact hstep (.var hname)
  | num q => exact hstep (.num q)
  | imaginary => exact hstep .imaginary
  | infinite => exact hstep .infinite
  | undefined => exact hstep .undefined
  | auxiliary i positive => exact hstep (.auxiliary i positive)

theorem Over.untilStable {step : Term → Term} (hstep : ∀ {t}, Over P t → Over P (step t)) (h : Over P t) (bound : Nat) :
    Over P (untilStable step t bound) := by
  induction bound generalizing t with
  | zero => exact h
  | succ bound ih =>
    unfold Term.untilStable
    dsimp only
    split
    · exact h
    · exact ih (hstep h)

@[simp] theorem Over.expandProducts (h : Over P t) : Over P (expandProducts t) :=
  h.untilStable (fun h => h.rebuild Over.multiplyOut) _

@[simp] theorem Over.expandPowers (h : Over P t) : Over P (expandPowers t) :=
  h.untilStable (fun h => h.rebuild Over.expandPower) _

@[simp] theorem Over.multiplied (h : Over P t) : Over P (multiplied t) := h.expandPowers.expandProducts

@[simp] theorem Over.multipliedFully (h : Over P t) : Over P (multipliedFully t) := h.untilStable Over.multiplied _

@[simp] theorem Over.expandExponents (h : Over P t) : Over P (expandExponents t) := h.rebuild Over.splitPowerExponent

@[simp] theorem Over.expand (h : Over P t) : Over P (expand t) := by
  have hround {t : Term} (h : Over P t) : Over P (Term.rebuild Term.multiplyOut (Term.rebuild Term.expandPower t)) :=
    (h.rebuild Over.expandPower).rebuild Over.multiplyOut
  have hsplit := ((hround h).rebuild Over.splitPowerBase).rebuild Over.splitPowerExponent
  exact hsplit.untilStable hround _

end Metrology.Algebra.Term
