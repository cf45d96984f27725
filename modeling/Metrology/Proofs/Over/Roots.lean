import Metrology.Algebra.Roots
import Metrology.Proofs.Over.Substitution

/-! # Roots over some names

The roots of a polynomial in a generator are over the names of its other generators.
-/
namespace Metrology.Algebra.Term

variable {P : String → Prop} {s t g : Term} {ts : List Term}

theorem over_cubeRootsOfOne : ∀ t ∈ cubeRootsOfOne, Over P t := by
  have hturn (c : Rat) : Over P (sum [.num (-1 / 2), product [.num c, power (.num 3) half, .imaginary]]) := by
    exact .sum (by simp)
  simp only [cubeRootsOfOne, List.mem_cons, List.not_mem_nil, or_false, forall_eq_or_imp, forall_eq]
  exact ⟨hturn _, hturn _⟩

@[simp] theorem Over.factoredQuotient (hs : Over P s) (ht : Over P t) : Over P (factoredQuotient s t) := by
  have hquotient := hs.primitive.quotient ht.primitive
  exact .product (List.forall_mem_cons.mpr ⟨.num _, List.forall_mem_singleton.mpr hquotient⟩)

theorem over_rootsOfRest {p : Polynomial} {roots : List Term} (hts : ∀ t ∈ ts, Over P t)
    (h : rootsOfRest ts p = some roots) : ∀ r ∈ roots, Over P r := by
  unfold rootsOfRest at h
  generalize hpart : (fun n : Nat => ofPolynomial ts (Polynomial.coefficient n p)) = part at h
  have hpart (n : Nat) : Over P (part n) := by
    rw [← hpart]
    exact over_ofPolynomial hts
  dsimp only at h
  split at h
  · cases h
    simp
  · cases h
    simpa using (hpart 0).negate.factoredQuotient (hpart 1)
  · have hinner : Over P (product [.num 4, part 2, part 0]) := .product (by simp [hpart])
    have hroot := (((hpart 1).power (.num 2)).difference hinner).expand.power over_half
    have hend {s : Term} (hs : Over P s) : Over P (product [half, quotient (sum [negate (part 1), s]) (part 2)]) := by
      have hsum : Over P (sum [negate (part 1), s]) := .sum (by simp [(hpart 1).negate, hs])
      have hquotient := hsum.quotient (hpart 2)
      exact .product (by simpa using hquotient)
    cases h
    simp only [List.map_cons, List.map_nil, List.mem_cons, List.not_mem_nil, or_false, forall_eq_or_imp, forall_eq]
    exact ⟨hend hroot, hend hroot.negate⟩
  · split at h
    · have hfirst := ((hpart 0).negate.quotient (hpart 3)).cancel.power (.num (1 / 3))
      cases h
      refine List.forall_mem_cons.mpr ⟨hfirst, List.forall_mem_map.mpr fun z hz => ?_⟩
      have hroots := List.forall_mem_cons.mpr ⟨hfirst, List.forall_mem_singleton.mpr (over_cubeRootsOfOne z hz)⟩
      exact (Over.product hroots).expandProducts
    · cases h
  · cases h

theorem over_numericRoots {p : Polynomial} : ∀ r ∈ numericRoots p, Over P r := by
  unfold numericRoots
  refine List.forall_mem_map.mpr fun z _ => ?_
  extract_lets im
  split
  · simp
  · exact .sum (by simp)

/-- All generators but the one that the roots are for are parameters. -/
theorem over_rootsIn {roots : List Term} (hg : ∀ h ∈ generatorsOf [t], (h == g) = false → Over P h)
    (hroots : rootsIn g t = some roots) : ∀ r ∈ roots, Over P r := by
  have hparameters : ∀ h ∈ (generatorsOf [t]).filter fun h => !(h == g), Over P h := by
    intro h hh
    obtain ⟨hmem, hne⟩ := List.mem_filter.mp hh
    exact hg h hmem (by simpa using hne)
  have hnums (qs : List Rat) : ∀ r ∈ qs.map Term.num, Over P r := List.forall_mem_map.mpr fun q _ => .num q
  unfold rootsIn at hroots
  extract_lets generators parameters count p lowest lower fixed rest start rational at hroots
  have hstart : ∀ r ∈ start, Over P r := by
    refine List.forall_mem_append.mpr ⟨?_, hnums _⟩
    split <;> simp
  split at hroots
  next known left heq =>
  have hknown : ∀ r ∈ known, Over P r := by
    split at heq
    · cases heq
      exact List.forall_mem_append.mpr ⟨hstart, hnums _⟩
    · cases heq
      exact hstart
  split at hroots
  · cases hroots
    exact List.forall_mem_append.mpr ⟨hknown, over_numericRoots⟩
  · obtain ⟨others, hothers, rfl⟩ := Option.map_eq_some_iff.mp hroots
    exact List.forall_mem_append.mpr ⟨hknown, over_rootsOfRest hparameters hothers⟩

end Metrology.Algebra.Term
