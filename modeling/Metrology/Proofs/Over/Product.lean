import Mathlib.Data.Rat.Defs
import Metrology.Proofs.Over.Sum

/-! # Products and powers over some names

Products and powers call each other up to a depth. What one of them makes of terms over some names is over
these names if that is so for all of them one level below; so it is so at every depth.
-/
namespace Metrology.Algebra.Term

variable {P : String → Prop} {s t b e : Term} {ts : List Term}

def OverPairs (P : String → Prop) (ps : List (Term × Term)) : Prop := ∀ p ∈ ps, Over P p.1 ∧ Over P p.2

@[simp] theorem over_integerPower {q : Rat} {n : Int} : Over P (integerPower q n) := by
  unfold integerPower
  repeat' split
  all_goals simp

@[simp] theorem over_imaginaryPower {n : Int} : Over P (imaginaryPower n) := by
  unfold imaginaryPower
  split <;> simp

@[simp] theorem over_ofComplexParts {r i : Rat} : Over P (ofComplexParts r i) := by
  unfold ofComplexParts
  simp

theorem over_insertExponent {xs : Exponents} (hb : Over P b) (he : Over P e)
    (h : ∀ p ∈ xs, Over P p.1 ∧ ∀ m ∈ p.2, Over P m.2) :
    ∀ p ∈ insertExponent b e xs, Over P p.1 ∧ ∀ m ∈ p.2, Over P m.2 := by
  induction xs with
  | nil =>
    have hsplit := he.splitCoefficient
    simp only [insertExponent, List.mem_singleton, forall_eq]
    exact ⟨hb, hsplit⟩
  | cons p rest ih =>
    obtain ⟨hp, hrest⟩ := List.forall_mem_cons.mp h
    unfold insertExponent
    split
    · exact List.forall_mem_cons.mpr ⟨⟨hp.1, over_collect he.splitCoefficient hp.2⟩, hrest⟩
    · exact List.forall_mem_cons.mpr ⟨hp, ih hrest⟩

theorem over_gatherPowers {ps : List (Term × Term)} (h : OverPairs P ps) : OverPairs P (gatherPowers ps) := by
  have hgathered : ∀ p ∈ ps.foldl (fun found p => insertExponent p.1 p.2 found) ([] : Exponents),
      Over P p.1 ∧ ∀ m ∈ p.2, Over P m.2 := by
    refine List.foldlRecOn (motive := fun found : Exponents => ∀ p ∈ found, Over P p.1 ∧ ∀ m ∈ p.2, Over P m.2)
      ps _ (by simp) ?_
    intro found hfound p hp
    exact over_insertExponent (h p hp).1 (h p hp).2 hfound
  intro p hp
  obtain ⟨q, hq, hp⟩ := List.mem_flatMap.mp hp
  obtain ⟨m, hm, rfl⟩ := List.mem_map.mp hp
  exact ⟨(hgathered q hq).1, ((hgathered q hq).2 m hm).scale m.1⟩

theorem forall_mem_group {α β : Type} [BEq α] {A : α → Prop} {B : β → Prop} {ps : List (α × β)}
    (h : ∀ p ∈ ps, A p.1 ∧ B p.2) : ∀ p ∈ group ps, A p.1 ∧ ∀ b ∈ p.2, B b := by
  have hinsert {found : List (α × List β)} {p : α × β} (hp : A p.1 ∧ B p.2)
      (hfound : ∀ q ∈ found, A q.1 ∧ ∀ b ∈ q.2, B b) : ∀ q ∈ group.insert found p, A q.1 ∧ ∀ b ∈ q.2, B b := by
    induction found with
    | nil => simpa [group.insert] using hp
    | cons q rest ih =>
      obtain ⟨hq, hrest⟩ := List.forall_mem_cons.mp hfound
      unfold group.insert
      split
      · refine List.forall_mem_cons.mpr ⟨⟨hq.1, fun b hb => ?_⟩, hrest⟩
        rcases List.mem_append.mp hb with hb | hb
        · exact hq.2 b hb
        · obtain rfl := List.mem_singleton.mp hb
          exact hp.2
      · exact List.forall_mem_cons.mpr ⟨hq, ih hrest⟩
  refine List.foldlRecOn (motive := fun found : List (α × List β) => ∀ p ∈ found, A p.1 ∧
    ∀ b ∈ p.2, B b) ps _ (by simp) ?_
  intro found hfound p hp
  exact hinsert (h p hp) hfound

theorem over_exponentialGroups {ps : List (Term × Term)} (h : OverPairs P ps) :
    ∀ p ∈ exponentialGroups ps, Over P p.1 ∧ ∀ t ∈ p.2, Over P t := by
  intro p hp
  refine forall_mem_group (fun q hq => ?_) p (List.mem_filter.mp hp).1
  obtain ⟨r, hr, rfl⟩ := List.mem_map.mp hq
  exact (over_gatherPowers h r hr).symm

theorem over_placeTurn {turn : Rat} {roots : List (Rat × Rat)} : ∀ t ∈ (placeTurn turn roots).turned, Over P t := by
  unfold placeTurn
  dsimp only
  repeat' split
  all_goals simp

theorem over_baseParts (h : ∀ t ∈ ts, Over P t) :
    (∀ t ∈ (baseParts ts).nonnegative, Over P t) ∧ (∀ t ∈ (baseParts ts).negative, Over P t) ∧
      ∀ t ∈ (baseParts ts).other, Over P t := by
  let judged := (ts.filter fun t => !(t == .imaginary)).map fun t => (t.standing, t)
  have hall (s : Standing) : ∀ t ∈ (judged.filter fun p => p.1 = s).map Prod.snd, Over P t := by
    intro t ht
    obtain ⟨p, hp, rfl⟩ := List.mem_map.mp ht
    obtain ⟨u, hu, rfl⟩ := List.mem_map.mp (List.mem_filter.mp hp).1
    exact h u (List.mem_filter.mp hu).1
  unfold baseParts
  refine and_assoc.mp ⟨?_, ?_⟩
  · dsimp only
    split
    · exact ⟨hall .nonnegative, hall .negative⟩
    · split
      · next t ht =>
        have ht := (hall .negative t (List.mem_of_getLast? ht)).negate
        refine ⟨?_, fun u hu => hall .negative u (List.dropLast_subset _ hu)⟩
        dsimp only
        split
        · exact hall .nonnegative
        · exact List.forall_mem_append.mpr ⟨hall .nonnegative, by simpa using ht⟩
      · exact ⟨hall .nonnegative, by simp⟩
  · dsimp only
    split
    · exact List.forall_mem_append.mpr ⟨hall .unknown, by simp⟩
    · exact hall .unknown

theorem over_settle {p : BaseParts} (hnonnegative : ∀ t ∈ p.nonnegative, Over P t)
    (hnegative : ∀ t ∈ p.negative, Over P t)
    (hother : ∀ t ∈ p.other, Over P t) : (∀ t ∈ p.settle.1, Over P t) ∧ ∀ t ∈ p.settle.2, Over P t := by
  have hnegated {us : List Term} (h : ∀ t ∈ us, Over P t) : ∀ t ∈ us.map negate, Over P t := by
    intro t ht
    obtain ⟨u, hu, rfl⟩ := List.mem_map.mp ht
    exact (h u hu).negate
  unfold BaseParts.settle
  split
  · exact ⟨hnonnegative, hother⟩
  · next t ht =>
    rw [ht] at hnegative
    have ht : Over P t := by simpa using hnegative
    split
    · split <;> simp_all [or_imp]
    · simp_all [or_imp]
  · next t rest _ ht =>
    rw [ht] at hnegative
    obtain ⟨ht, hrest⟩ := List.forall_mem_cons.mp hnegative
    have hleft (c : Rat) (us : List Term) (hus : ∀ t ∈ us, Over P t) :
        (∀ t ∈ p.nonnegative ++ us.map negate, Over P t) ∧
          ∀ t ∈ (if c = 1 then p.other else p.other ++ [.num c]), Over P t := by
      refine ⟨List.forall_mem_append.mpr ⟨hnonnegative, hnegated hus⟩, ?_⟩
      split
      · exact hother
      · exact List.forall_mem_append.mpr ⟨hother, by simp⟩
    dsimp only
    split
    · split
      · exact hleft _ _ hrest
      · exact hleft _ _ hnegative
    · exact hleft _ _ hnegative

namespace Gathering

structure Over (P : String → Prop) (g : Gathering) : Prop where
  powers : OverPairs P g.powers
  exponentials : OverPairs P g.exponentials

variable {g : Gathering}

theorem Over.addNumber (h : g.Over P) (q : Rat) : (g.addNumber q).Over P := by
  unfold Gathering.addNumber
  split
  · exact ⟨h.powers, h.exponentials⟩
  · exact ⟨h.powers, h.exponentials⟩

theorem Over.addInfinite (h : g.Over P) : g.addInfinite.Over P := ⟨h.powers, h.exponentials⟩

theorem Over.addPower (h : g.Over P) (ht : Term.Over P t) : (g.addPower t).Over P where
  powers p hp := by
    rcases List.mem_append.mp hp with hp | hp
    · exact h.powers p hp
    · obtain rfl := List.mem_singleton.mp hp
      exact ht.splitPower
  exponentials := h.exponentials

theorem Over.addRoot (h : g.Over P) (q e : Rat) : (g.addRoot q e).Over P := by
  unfold Gathering.addRoot
  dsimp only
  repeat' split
  all_goals exact ⟨h.powers, h.exponentials⟩

theorem over_assemble {number : Rat} (h : ∀ t ∈ ts, Term.Over P t) : Term.Over P (g.assemble number ts) := by
  have hfactors : ∀ t ∈ ts.filter fun t => !t.isNumber, Term.Over P t := fun t ht => h t (List.mem_filter.mp ht).1
  have hsorted : ∀ t ∈ sort (ts.filter fun t => !t.isNumber), Term.Over P t := fun t ht => hfactors t (mem_sort.mp ht)
  unfold assemble
  dsimp only
  split
  · simp
  · split
    · split
      · simp
      · refine .ofFactors (List.forall_mem_cons.mpr ⟨.infinite, fun t ht => ?_⟩)
        exact hfactors t (List.mem_filter.mp (mem_sort.mp ht)).1
    · split
      · simp
      · split
        · exact .ofFactors hsorted
        · split
          · simp
          · next us hus =>
            have hus : ∀ u ∈ us, Term.Over P u := over_add.mp (hsorted _ (by simp [hus]))
            refine .sum fun t ht => ?_
            obtain ⟨u, hu, rfl⟩ := List.mem_map.mp ht
            exact (hus u hu).scale _
          · exact .mul (List.forall_mem_cons.mpr ⟨.num _, hsorted⟩)

end Gathering

/-- At this depth all functions of products and powers stay within the names of what they are given. -/
structure Stay (P : String → Prop) (fuel : Nat) : Prop where
  gather : ∀ {g t}, g.Over P → Over P t → (gatherWithin fuel g t).Over P
  settle : ∀ {rounds ps}, OverPairs P ps → ∀ t ∈ settleWithin fuel rounds ps, Over P t
  finish : ∀ {g}, g.Over P → Over P (finishWithin fuel g)
  product : ∀ {ts}, (∀ t ∈ ts, Over P t) → Over P (productWithin fuel ts)
  root : ∀ {q e}, Over P (rootWithin fuel q e)
  nested : ∀ {b e f t}, Over P b → Over P e → Over P f → nestedPowerWithin fuel b e f = some t → Over P t
  splitBase : ∀ {ts e}, (∀ t ∈ ts, Over P t) → Over P (splitBaseWithin fuel ts e)
  sumPower : ∀ {t e s}, sumPowerWithin fuel t e = some s → Over P s
  power : ∀ {b e}, Over P b → Over P e → Over P (powerWithin fuel b e)

namespace Stay

variable {fuel : Nat}

theorem foldl_gather {g : Gathering} (h : Stay P fuel) (hg : g.Over P) (hts : ∀ t ∈ ts, Over P t) :
    (ts.foldl (gatherWithin fuel) g).Over P :=
  List.foldlRecOn (motive := fun g : Gathering => g.Over P) ts _ hg fun _ hg t ht => h.gather hg (hts t ht)

theorem gather_succ {g : Gathering} (h : Stay P fuel) (hg : g.Over P) (ht : Over P t) :
    (gatherWithin (fuel + 1) g t).Over P := by
  unfold gatherWithin
  split
  · exact hg.addNumber _
  · exact hg.addInfinite
  · exact ⟨hg.powers, hg.exponentials⟩
  · exact ⟨hg.powers, hg.exponentials⟩
  · exact h.foldl_gather hg (over_mul.mp ht)
  · next q e =>
    split
    · split
      · exact hg.addNumber _
      · exact hg.addInfinite
      · exact hg.addPower (by simp)
    · split
      · have hpower : Over P (powerWithin fuel (.num q) (.num e)) := h.power (by simp) (by simp)
        split
        · next heq =>
          rw [heq] at hpower
          split
          · exact hg.addPower hpower
          · exact h.gather hg hpower
        · exact h.gather hg hpower
      · exact hg.addRoot q e
  · next q e _ =>
    dsimp only
    split
    · refine ⟨hg.powers, fun p hp => ?_⟩
      rcases List.mem_append.mp hp with hp | hp
      · exact hg.exponentials p hp
      · obtain rfl := List.mem_singleton.mp hp
        exact ht.splitPower
    · exact hg.addPower ht
  · exact hg.addPower ht

theorem settle_succ {rounds : Nat} {ps : List (Term × Term)} (h : Stay P fuel) (hps : OverPairs P ps) :
    ∀ t ∈ settleWithin (fuel + 1) rounds ps, Over P t := by
  unfold settleWithin
  extract_lets settled changed bases
  have hsettled : ∀ p ∈ settled, Over P p.1 ∧ Over P p.2.1 ∧ Over P p.2.2.1 := by
    intro p hp
    obtain ⟨⟨b, e⟩, hbe, hp⟩ := List.mem_filterMap.mp hp
    obtain ⟨hb, he⟩ := hps _ hbe
    have hpower : Over P (powerWithin fuel b e) := h.power hb he
    dsimp only at hb he hp
    split at hp
    · split at hp
      · cases hp
        exact ⟨by simp, hb, he⟩
      · cases hp
    · split at hp
      · cases hp
        exact ⟨hb, hb, he⟩
      · split at hp
        · cases hp
          exact ⟨hpower, hpower.splitPower⟩
        · cases hp
          exact ⟨hpower, hb, he⟩
  have hfirst : ∀ t ∈ settled.map Prod.fst, Over P t := by
    intro t ht
    obtain ⟨p, hp, rfl⟩ := List.mem_map.mp ht
    exact (hsettled p hp).1
  split
  · exact hfirst
  · split
    · refine h.settle (over_gatherPowers fun q hq => ?_)
      obtain ⟨p, hp, rfl⟩ := List.mem_map.mp hq
      exact (hsettled p hp).2
    · exact hfirst

theorem finish_succ {g : Gathering} (h : Stay P fuel) (hg : g.Over P) : Over P (finishWithin (fuel + 1) g) := by
  unfold finishWithin
  refine Gathering.over_assemble fun t ht => ?_
  simp only [List.mem_append] at ht
  rcases ht with ((ht | ht) | ht) | ht
  · exact h.settle (over_gatherPowers hg.powers) t ht
  · obtain ⟨p, hp, rfl⟩ := List.mem_map.mp ht
    obtain ⟨he, hbases⟩ := over_exponentialGroups hg.exponentials p hp
    exact h.power (h.product hbases) he
  · exact over_placeTurn t ht
  · obtain ⟨p, -, rfl⟩ := List.mem_map.mp ht
    exact h.power (.num _) (.num _)

theorem product_succ (h : Stay P fuel) (hts : ∀ t ∈ ts, Over P t) : Over P (productWithin (fuel + 1) ts) := by
  have hstart : Gathering.start.Over P := ⟨by simp [OverPairs, Gathering.start], by simp [OverPairs, Gathering.start]⟩
  have hgathered {us : List Term} (hus : ∀ t ∈ us, Over P t) :
      Over P (finishWithin fuel (us.foldl (gatherWithin fuel) .start)) := h.finish (h.foldl_gather hstart hus)
  have hfactors : ∀ t ∈ ts.filter fun t => !(t == one), Over P t := fun t ht => hts t (List.mem_filter.mp ht).1
  unfold productWithin
  split
  · simp
  · next t heq => exact hfactors t (by simp [heq])
  · next q t heq =>
    have ht : Over P t := hfactors t (by simp [heq])
    split
    · exact ht.scale q
    · exact ht.scale q
    · exact hgathered (by simpa using ht)
  · next t q _ heq =>
    have ht : Over P t := hfactors t (by simp [heq])
    split
    · exact ht.scale q
    · exact ht.scale q
    · exact hgathered (by simpa using ht)
  · exact hgathered hfactors

theorem root_succ {q e : Rat} (h : Stay P fuel) : Over P (rootWithin (fuel + 1) q e) := by
  have hpower {p f : Rat} : Over P (powerWithin fuel (.num p) (.num f)) := h.power (.num p) (.num f)
  have hminus {f : Rat} : Over P (powerWithin fuel minusOne (.num f)) := h.power over_minusOne (.num f)
  have hpair {s t : Term} (hs : Over P s) (ht : Over P t) : Over P (productWithin fuel [s, t]) :=
    h.product (by simp [hs, ht])
  unfold rootWithin
  dsimp only
  split
  · split
    · simp
    · split
      · simp
      · exact hpair (.num _) (by simp)
  · split
    · exact hpair .imaginary hpower
    · split
      · split
        · exact hpair hminus hpower
        · exact hpower
      · split
        · split
          · exact hpair hpower (.num _)
          · exact hpair (hpair hpower hpower) (.num _)
        · split
          · simp
          · have hsize (s : Surd) : Over P (productWithin fuel
                (.num s.whole :: s.roots.map fun p => .pow (.num p.1) (.num p.2))) := by
              refine h.product (List.forall_mem_cons.mpr ⟨.num _, fun t ht => ?_⟩)
              obtain ⟨p, -, rfl⟩ := List.mem_map.mp ht
              simp
            split
            · exact hpair (hsize _) hminus
            · exact hsize _

theorem nested_succ {f : Term} (h : Stay P fuel) (hb : Over P b) (he : Over P e) (hf : Over P f)
    (heq : nestedPowerWithin (fuel + 1) b e f = some t) : Over P t := by
  have hmultiplied {c : Term} (hc : Over P c) : Over P (powerWithin fuel c (productWithin fuel [e, f])) :=
    h.power hc (h.product (by simp [he, hf]))
  unfold nestedPowerWithin at heq
  dsimp only at heq
  split at heq
  · cases heq
    exact hmultiplied hb
  · split at heq
    · next r k =>
      split at heq
      · cases heq
        exact h.product (by simp [h.power over_minusOne hf, h.power hb.negate (.num _)])
      · split at heq
        · cases heq
          exact h.power hb (.num _)
        · simp only [Option.ite_none_right_eq_some, Option.some.injEq] at heq
          obtain ⟨-, rfl⟩ := heq
          refine hmultiplied ?_
          repeat' split
          all_goals simp [hb]
    · split at heq
      · split at heq
        · cases heq
          exact hmultiplied hb
        · cases heq
      · split at heq
        · cases heq
          exact hmultiplied hb
        · cases heq

theorem splitBase_succ {r : Rat} (h : Stay P fuel) (hts : ∀ t ∈ ts, Over P t) :
    Over P (splitBaseWithin (fuel + 1) ts r) := by
  obtain ⟨hnonnegative, hnegative, hother⟩ := over_baseParts hts
  obtain ⟨hout, hinside⟩ := over_settle hnonnegative hnegative hother
  unfold splitBaseWithin
  generalize (baseParts ts).settle = settled at hout hinside ⊢
  obtain ⟨out, inside⟩ := settled
  extract_lets isNumberPower
  dsimp -zeta only
  extract_lets numberPowers others front
  have hnumbers : ∀ t ∈ numberPowers, Over P t := by
    intro t ht
    obtain ⟨u, hu, rfl⟩ := List.mem_map.mp ht
    exact h.power (hout u (List.mem_filter.mp hu).1) (.num _)
  have hothers : ∀ t ∈ others, Over P t := by
    intro t ht
    obtain ⟨u, hu, rfl⟩ := List.mem_map.mp ht
    exact .pow (hout u (List.mem_filter.mp hu).1) (.num _)
  have hfront : Over P front := h.product (by simp [h.product hnumbers, h.product hothers])
  split
  · exact hfront
  · have hrest : Over P (Term.pow (productWithin fuel inside) (.num r)) := .pow (h.product hinside) (.num r)
    split
    · exact hrest
    · exact h.product (List.forall_mem_cons.mpr ⟨hfront, List.forall_mem_cons.mpr ⟨hrest, by simp⟩⟩)

theorem sumPower_succ {r : Rat} (h : Stay P fuel) (heq : sumPowerWithin (fuel + 1) t r = some s) : Over P s := by
  unfold sumPowerWithin at heq
  split at heq
  · cases heq
  · split at heq
    · obtain ⟨d, -, rfl⟩ := Option.map_eq_some_iff.mp heq
      refine h.product (List.forall_mem_cons.mpr ⟨h.power (h.power (.num _) over_half) (.num _), ?_⟩)
      simp only [List.mem_singleton, forall_eq]
      split
      · exact h.power over_ofComplexParts over_minusOne
      · exact over_ofComplexParts
    · split at heq
      · cases heq
        simp
      · cases heq

theorem power_succ (h : Stay P fuel) (hb : Over P b) (he : Over P e) : Over P (powerWithin (fuel + 1) b e) := by
  unfold powerWithin
  split
  · simp
  · simp
  · exact hb
  · simp
  · simp
  · simp
  · split
    · simp
    · split
      · split <;> simp
      · exact h.root
  · split
    · simp
    · split
      · simp
      · have hrest := he.splitCoefficient
        dsimp only
        split
        · exact .pow .infinite hrest
        · exact .pow over_zero hrest
  · split
    · simp
    · dsimp only
      split <;> simp
  · split <;> simp
  · next c f _ _ _ _ =>
    obtain ⟨hc, hf⟩ := over_pow.mp hb
    cases hnested : nestedPowerWithin fuel c f e with
    | none => exact .pow hb he
    | some t => exact h.nested hc hf he hnested
  · next us r _ _ =>
    have hus := over_mul.mp hb
    split
    · split
      · have hturned : Over P (powerWithin fuel (Term.negate (.mul us)) (.num r)) := h.power hb.negate he
        dsimp only
        split
        · exact hturned
        · exact hturned.negate
      · refine h.product fun t ht => ?_
        obtain ⟨u, hu, rfl⟩ := List.mem_map.mp ht
        exact .pow (hus u hu) he
    · split
      · split
        · refine .ofFactors fun t ht => ?_
          have ht := (List.mem_filter.mp ht).1
          simp only [List.mem_cons, List.not_mem_nil, or_false] at ht
          rcases ht with rfl | rfl
          · exact h.power (.num _) (.num _)
          · exact h.power over_ofComplexParts (.num _)
        · exact h.splitBase hus
      · exact h.splitBase hus
  · next us r _ _ =>
    cases hsum : sumPowerWithin fuel (.add us) r with
    | none => exact .pow hb he
    | some t => exact h.sumPower hsum
  · exact .pow hb he

end Stay

theorem stay_zero : Stay P 0 where
  gather hg ht := hg.addPower ht
  settle hps t ht := by
    obtain ⟨p, hp, rfl⟩ := List.mem_map.mp ht
    obtain ⟨hb, he⟩ := hps p hp
    exact .pow hb he
  finish _ := .undefined
  product hts := .ofFactors hts
  root := by simp [rootWithin]
  nested _ _ _ heq := by simp [nestedPowerWithin] at heq
  splitBase hts := by simpa [splitBaseWithin] using hts
  sumPower heq := by simp [sumPowerWithin] at heq
  power hb he := .pow hb he

theorem stay (fuel : Nat) : Stay P fuel := by
  induction fuel with
  | zero => exact stay_zero
  | succ fuel ih =>
    exact {
      gather := ih.gather_succ
      settle := ih.settle_succ
      finish := ih.finish_succ
      product := ih.product_succ
      root := ih.root_succ
      nested := ih.nested_succ
      splitBase := ih.splitBase_succ
      sumPower := ih.sumPower_succ
      power := ih.power_succ }

@[simp] theorem Over.product (h : ∀ t ∈ ts, Over P t) : Over P (product ts) := (stay callDepth).product h

@[simp] theorem Over.power (hb : Over P b) (he : Over P e) : Over P (power b e) := (stay callDepth).power hb he

@[simp] theorem Over.quotient (hs : Over P s) (ht : Over P t) : Over P (quotient s t) := by
  unfold Term.quotient
  simp [hs, ht]

end Metrology.Algebra.Term
