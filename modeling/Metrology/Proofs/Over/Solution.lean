import Metrology.Algebra.Equation
import Metrology.Proofs.Over.Roots

/-! # Solutions over the other names

What the solver finds for a variable is over the names of the equation without that variable. A root of a
generator is put in the place of a new variable, and so is the base of all roots; each of them is gone again
from what is found.
-/
namespace Metrology.Algebra

variable {P : String → Prop} {s t x f n g : Term} {ts found : List Term}

namespace Term

theorem mem_sortWritten (h : t ∈ sortWritten ts) : t ∈ ts := by
  obtain ⟨p, hp, rfl⟩ := List.mem_map.mp h
  obtain ⟨u, hu, rfl⟩ := List.mem_map.mp (List.mem_mergeSort.mp hp)
  exact hu

theorem over_sortArguments (h : ∀ t ∈ ts, Over P t) : ∀ t ∈ sortArguments ts, Over P t := by
  intro t ht
  rcases mem_distinct (mem_sortWritten (List.mem_mergeSort.mp ht)) with ht | ht
  · simp at ht
  · exact h t ht

end Term

namespace Equation

open Term

theorem over_distinct (h : ∀ t ∈ ts, Over P t) : ∀ t ∈ distinct ts, Over P t := by
  intro t ht
  rcases mem_distinct ht with ht | ht
  · simp at ht
  · exact h t ht

theorem over_accepted {checked simplified : Bool} (h : ∀ s ∈ found, Over P s) :
    ∀ s ∈ accepted x f n checked simplified found, Over P s := by
  unfold accepted
  extract_lets first second below third
  have hsecond : ∀ s ∈ second, Over P s := by
    dsimp only [second]
    split
    · exact over_distinct (List.forall_mem_map.mpr fun s hs => (over_distinct h s hs).simplify)
    · exact over_distinct h
  have hthird : ∀ s ∈ third, Over P s := fun s hs => hsecond s (List.mem_filter.mp hs).1
  split
  · exact fun s hs => hthird s (List.mem_filter.mp hs).1
  · exact hthird

/-- The solution of a linear equation lacks the variable, since the coefficient of the variable does. -/
theorem over_firstLook (h : Over P f) :
    (∀ s, firstLook x f = .linear s → Over (Without P x) s) ∧ ∀ n, firstLook x f = .general n → Over P n := by
  have hn := h.numerDenom.1
  unfold firstLook
  generalize numerDenom f = fraction at hn
  obtain ⟨n, below⟩ := fraction
  dsimp only at hn ⊢
  split
  · simp
  · split
    · simp
    · cases hx : x.occursIn (derivative x n) with
      | true => simpa using hn
      | false =>
        have hd : Over (Without P x) (derivative x n) := hn.derivative.without hx
        have hconstant : Over (Without P x) (substitute x zero n) := hn.substitute over_zero fun _ hname => hname
        have hsolution : Over (Without P x)
            (expandProducts (product [negate (power (derivative x n) minusOne), substitute x zero n])) :=
          (Over.product (by simpa using ⟨(hd.power over_minusOne).negate, hconstant⟩)).expandProducts
        simp only [Bool.false_eq_true, if_false]
        split
        · simp
        · split
          · simpa using hn
          · simpa using hsolution

theorem Over.baseOf (h : Over P t) : Over P (baseOf t) := h.splitPower.1

theorem over_insertByRoots {key : List Nat} {groups : List (List Nat × List Term)} (ht : Over P t)
    (h : ∀ p ∈ groups, ∀ u ∈ p.2, Over P u) : ∀ p ∈ insertByRoots key t groups, ∀ u ∈ p.2, Over P u := by
  induction groups with
  | nil => simpa [insertByRoots] using ht
  | cons p rest ih =>
    obtain ⟨hp, hrest⟩ := List.forall_mem_cons.mp h
    unfold insertByRoots
    split
    · refine List.forall_mem_cons.mpr ⟨List.forall_mem_append.mpr ⟨hp, by simpa using ht⟩, hrest⟩
    · exact List.forall_mem_cons.mpr ⟨hp, ih hrest⟩

theorem over_rootTerms {roots : List Term} (hroots : ∀ g ∈ roots, Over P g) (h : Over P t) :
    (∀ u ∈ (rootTerms roots t).terms, Over P u) ∧ Over P (rootTerms roots t).others := by
  unfold rootTerms
  extract_lets exponents coefficient grouped monomials free bySet
  have hcoefficient {u : Term} (hu : Over P u) : Over P (coefficient u) := by
    have hrest := hu.splitCoefficient
    refine .product (List.forall_mem_cons.mpr ⟨.num _, fun v hv => ?_⟩)
    exact hrest.factorsOf v (List.mem_filter.mp hv).1
  have hgrouped : ∀ p ∈ grouped, ∀ u ∈ p.2, Over P u := by
    refine List.foldlRecOn (motive := fun found : List (List Nat × List Term) => ∀ p ∈ found, ∀ u ∈ p.2, Over P u)
      t.termsOf _ (by simp) ?_
    intro found hfound u hu
    exact over_insertByRoots (hcoefficient (h.termsOf u hu)) hfound
  have hmonomials : ∀ p ∈ monomials, Over P p.2 := by
    refine List.forall_mem_map.mpr fun p hp => .product (List.forall_mem_cons.mpr ⟨.sum (hgrouped p hp), ?_⟩)
    exact List.forall_mem_map.mpr fun r hr => (hroots r.1 (List.of_mem_zip hr).1).power (.num _)
  have hbySet : ∀ p ∈ bySet, ∀ u ∈ p.2, Over P u := by
    refine List.foldlRecOn (motive := fun found : List (List Nat × List Term) => ∀ p ∈ found, ∀ u ∈ p.2, Over P u)
      _ _ (by simp) ?_
    intro found hfound p hp
    exact over_insertByRoots (hmonomials p (List.mem_filter.mp hp).1) hfound
  refine ⟨List.forall_mem_map.mpr fun p hp => .sum (hbySet p hp), .sum (List.forall_mem_map.mpr fun p hp => ?_)⟩
  exact hmonomials p (List.mem_filter.mp hp).1

theorem over_squareOfSum (hs : Over P s) (ht : Over P t) : Over P (squareOfSum s t) := by
  have hcross : Over P (product [.num 2, s, t]) := .product (by simp [hs, ht])
  exact .sum (by simp [hs, ht])

theorem over_canonical (h : Over P t) : Over P (canonical t) := by
  unfold canonical
  extract_lets u factors
  have hcleared : Over P u := h.numerDenom.1.multipliedFully.factorTermsCleared
  clear_value u
  have hfactors : ∀ v ∈ factors, Over P v := by
    dsimp only [factors]
    split
    · exact List.forall_mem_map.mpr fun v hv => Over.baseOf (over_mul.mp hcleared v (List.mem_filter.mp hv).1)
    · exact List.forall_mem_singleton.mpr hcleared
  refine .ofFactors (List.forall_mem_map.mpr fun v hv => ?_)
  split
  · exact (hfactors v hv).negate
  · exact hfactors v hv

/-- An equation without roots, over the names of the one that it comes from; without the variable if something
has replaced it. -/
structure Cleared.Over (P : String → Prop) (x : Term) (c : Cleared) : Prop where
  equation : Term.Over P c.equation
  replaced : ∀ p relation, c.replaced = some (p, relation) → Term.Over (Without P x) c.equation ∧ Term.Over P relation

/-- At this depth whatever the solver finds is over the names of the equation, without the variable that it is
found for. -/
structure Eliminates (fuel : Nat) : Prop where
  solve : ∀ {P effort x f found}, Over P f → solveWithin fuel effort x f = .ok (some found) →
    ∀ s ∈ found, Over (Without P x) s
  solveAll : ∀ {P effort x ts found}, (∀ t ∈ ts, Over P t) → solveAllWithin fuel effort x ts = .ok (some found) →
    ∀ s ∈ found, Over (Without P x) s
  general : ∀ {P effort x f n found}, Over P n → solveGeneralWithin fuel effort x f n = .ok (some found) →
    ∀ s ∈ found, Over (Without P x) s
  byRoots : ∀ {P effort x f n found}, Over P n → solveByRootsWithin fuel effort x f n = .ok (some found) →
    ∀ s ∈ found, Over (Without P x) s
  clear : ∀ {P x f c}, Over P f → clearWithin fuel x f = some c → c.Over P x
  replace : ∀ {P x b degree f c}, Over P b → Over P f → replaceWithin fuel x b degree f = some c → c.Over P x

namespace Eliminates

variable {fuel : Nat} {effort : Effort}

theorem solve_succ (h : Eliminates fuel) (hf : Over P f) (heq : solveWithin (fuel + 1) effort x f = .ok (some found)) :
    ∀ s ∈ found, Over (Without P x) s := by
  unfold solveWithin at heq
  split at heq
  · next us =>
    have hus : ∀ u ∈ us.filter (occursIn x), Over P u := fun u hu => over_mul.mp hf u (List.mem_filter.mp hu).1
    split at heq
    · next others hothers =>
      cases heq
      exact fun s hs => over_distinct (h.solveAll hus hothers) s (List.mem_filter.mp hs).1
    · next hanswer => exact absurd heq (hanswer found)
  · obtain ⟨hlinear, hgeneral⟩ := over_firstLook (x := x) hf
    split at heq
    · cases heq
      simp
    · next s hs =>
      have hs : Over (Without P x) s := hlinear s hs
      cases heq
      refine List.forall_mem_singleton.mpr ?_
      split
      · exact hs.simplify
      · exact hs
    · next n hn => exact h.general (hgeneral n hn) heq

theorem solveAll_succ (h : Eliminates fuel) (hts : ∀ t ∈ ts, Over P t)
    (heq : solveAllWithin (fuel + 1) effort x ts = .ok (some found)) : ∀ s ∈ found, Over (Without P x) s := by
  cases ts with
  | nil =>
    have hnone : found = [] := by simpa [solveAllWithin, eq_comm] using heq
    simp [hnone]
  | cons t rest =>
    obtain ⟨ht, hrest⟩ := List.forall_mem_cons.mp hts
    unfold solveAllWithin at heq
    split at heq
    · next first others hfirst hothers =>
      cases heq
      exact List.forall_mem_append.mpr ⟨h.solve ht hfirst, h.solveAll hrest hothers⟩
    · cases heq
    · cases heq
    · cases heq

/-- Only one generator has the variable in it; the roots of that one have it not. -/
theorem general_succ (h : Eliminates fuel) (hn : Over P n)
    (heq : solveGeneralWithin (fuel + 1) effort x f n = .ok (some found)) : ∀ s ∈ found, Over (Without P x) s := by
  have hgenerators : ∀ g ∈ generatorsOf [expand n], Over P g := over_generatorsOf (by simpa using hn.expand)
  -- The matches of this function are too much for its unfolding lemma; one step of evaluation does the same.
  conv at heq =>
    lhs
    whnf
  split at heq
  · cases heq
  · next g hg =>
    have hmem : g ∈ (generatorsOf [expand n]).filter (occursIn x) := by simp [hg]
    have hother : ∀ k ∈ generatorsOf [expand n], (k == g) = false → Over (Without P x) k := by
      intro k hk hne
      refine (hgenerators k hk).without ?_
      cases hx : x.occursIn k with
      | false => rfl
      | true =>
        have hkg : k ∈ (generatorsOf [expand n]).filter (occursIn x) := List.mem_filter.mpr ⟨hk, hx⟩
        rw [hg, List.mem_singleton] at hkg
        rw [hkg, (hgenerators g (List.mem_filter.mp hmem).1).same_self] at hne
        cases hne
    have hg := hgenerators g (List.mem_filter.mp hmem).1
    split at heq
    · cases heq
    · split at heq
      · cases heq
      · split at heq
        · exact h.byRoots hn heq
        · split at heq
          · cases heq
          · next roots hroots =>
            have hroots : ∀ r ∈ roots, Over (Without P x) r := over_rootsIn hother hroots
            split at heq
            · cases heq
              exact over_accepted hroots
            · dsimp only at heq
              split at heq
              · cases heq
              · exact h.byRoots hn heq
              · next inverses hinverses =>
                have hinverses := h.solve (hg.difference (.auxiliary _ _)) hinverses
                cases heq
                refine over_accepted fun s hs => ?_
                obtain ⟨u, hu, hs⟩ := List.mem_flatMap.mp hs
                obtain ⟨r, hr, rfl⟩ := List.mem_map.mp hs
                exact (hinverses u hu).substitute (hroots r hr) fun _ hname => hname.1
  · split at heq
    · cases heq
    · exact h.byRoots hn heq

theorem byRoots_succ (h : Eliminates fuel) (hn : Over P n)
    (heq : solveByRootsWithin (fuel + 1) effort x f n = .ok (some found)) : ∀ s ∈ found, Over (Without P x) s := by
  unfold solveByRootsWithin at heq
  split at heq
  · cases heq
  · next c hc =>
    have hcleared := h.clear hn hc
    dsimp only at heq
    split at heq
    · split at heq
      · next others hothers =>
        cases heq
        exact over_accepted (h.solve hcleared.equation hothers)
      · next hanswer => exact absurd heq (hanswer found)
    · next p relation hreplaced =>
      obtain ⟨hequation, hrelation⟩ := hcleared.replaced p relation hreplaced
      split at heq
      · cases heq
      · cases heq
      · next s _ others hs hothers =>
        have hs : Over (Without P x) s := h.solve hrelation hs s (by simp)
        cases heq
        refine over_accepted (List.forall_mem_map.mpr fun r hr => ?_)
        exact hs.substitute (h.solve hequation hothers r hr).of_without fun _ hname => hname.1
      · cases heq

theorem clear_succ {c : Cleared} (h : Eliminates fuel) (hf : Over P f) (heq : clearWithin (fuel + 1) x f = some c) :
    c.Over P x := by
  unfold clearWithin at heq
  extract_lets u generators parts roots degree bases ofPowerOfTwo again raised at heq
  have hu : Over P u := hf.factorTermsCleared.numerDenom.1.multipliedFully
  have hgenerators : ∀ g ∈ generators, Over P g :=
    fun g hg => over_generatorsOf (by simpa using hu.expand) g (List.mem_filter.mp hg).1
  split at heq
  · cases heq
  · obtain ⟨hterms, hothers⟩ : (∀ t ∈ parts.terms, Over P t) ∧ Over P parts.others :=
      over_rootTerms hgenerators hu.expand
    have hbases : ∀ b ∈ bases, Over P b :=
      over_distinct (List.forall_mem_map.mpr fun g hg => Over.baseOf (hgenerators g (List.mem_filter.mp hg).1))
    have hsorted : ∀ t ∈ (sortArguments parts.terms).reverse, Over P t :=
      fun t ht => over_sortArguments hterms t (List.mem_reverse.mp ht)
    have hagain {t : Term} (ht : Over P t) (heq : again t = some c) : c.Over P x := by
      dsimp only [again] at heq
      split at heq
      · next d hd =>
        have hd := h.clear ht hd
        cases heq
        exact ⟨over_canonical hd.equation, fun p relation hp =>
          ⟨over_canonical (hd.replaced p relation hp).1, (hd.replaced p relation hp).2⟩⟩
      · split at heq
        · cases heq
        · cases heq
          exact ⟨over_canonical ht, by simp⟩
    have hraised {s t : Term} (hs : Over P s) (ht : Over P t) (heq : raised s t = some c) : c.Over P x :=
      hagain ((hs.power (.num _)).difference (ht.power (.num _))) heq
    clear_value raised again bases
    split at heq
    · next a hterm =>
      have ha : Over P a := hterms a (by simp [hterm])
      split at heq
      · exact hraised ha hothers.negate heq
      · split at heq
        · next b => exact h.replace (hbases b (by simp)) hu heq
        · cases heq
    · split at heq
      · next b => exact h.replace (hbases b (by simp)) hu heq
      · split at heq
        · next a b hab =>
          rw [hab] at hsorted
          have ha : Over P a := hsorted a (by simp)
          have hb : Over P b := hsorted b (by simp)
          split at heq
          · exact hraised ha hb.negate heq
          · split at heq
            · exact hagain ((ha.power (.num 2)).difference (over_squareOfSum hb hothers)) heq
            · cases heq
        · next a b d habd =>
          rw [habd] at hsorted
          have ha : Over P a := hsorted a (by simp)
          have hb : Over P b := hsorted b (by simp)
          have hd : Over P d := hsorted d (by simp)
          split at heq
          · exact hagain ((over_squareOfSum hb hd).difference (over_squareOfSum ha hothers)) heq
          · cases heq
        · next a b d e habde =>
          rw [habde] at hsorted
          have ha : Over P a := hsorted a (by simp)
          have hb : Over P b := hsorted b (by simp)
          have hd : Over P d := hsorted d (by simp)
          have he : Over P e := hsorted e (by simp)
          split at heq
          · exact hagain ((over_squareOfSum ha hb).difference (over_squareOfSum hd he)) heq
          · cases heq
        · cases heq

theorem replace_succ {b : Term} {degree : Nat} {c : Cleared} (h : Eliminates fuel) (hb : Over P b) (hf : Over P f)
    (heq : replaceWithin (fuel + 1) x b degree f = some c) : c.Over P x := by
  unfold replaceWithin at heq
  extract_lets p relation at heq
  have hpower : Over P (power p (.num degree)) := .power (.auxiliary _ _) (.num _)
  have hrelation : Over P relation := hpower.difference hb
  split at heq
  · next s rest hs =>
    have hs : Over (Without P x) s := h.solve hrelation hs s (by simp)
    have ht : Over (Without P x) (substitute x s (substitute b (power p (.num degree)) f)) :=
      (hf.substitute hpower fun _ hname => hname.1).substitute hs fun _ hname => hname
    have hequation := (over_canonical ht).substitute (x := p) (.auxiliary (200 + fuel) false) fun _ hname => hname.1
    cases heq
    refine ⟨hequation.of_without, fun q other hq => ?_⟩
    cases hq
    exact ⟨hequation, hrelation.substitute (.auxiliary _ _) fun _ hname => hname.1⟩
  · cases heq

end Eliminates

theorem eliminates (fuel : Nat) : Eliminates fuel := by
  induction fuel with
  | zero =>
    exact {
      solve := fun _ heq => by simp [solveWithin] at heq
      solveAll := fun _ heq => by simp [solveAllWithin] at heq
      general := fun _ heq => by cases heq
      byRoots := fun _ heq => by simp [solveByRootsWithin] at heq
      clear := fun _ heq => by simp [clearWithin] at heq
      replace := fun _ _ heq => by simp [replaceWithin] at heq }
  | succ fuel ih =>
    exact {
      solve := ih.solve_succ
      solveAll := ih.solveAll_succ
      general := ih.general_succ
      byRoots := ih.byRoots_succ
      clear := ih.clear_succ
      replace := ih.replace_succ }

theorem over_solve (h : Over P f) (heq : solve x f = .ok (some found)) : ∀ s ∈ found, Over (Without P x) s :=
  (eliminates depth).solve h heq

end Equation

end Metrology.Algebra
