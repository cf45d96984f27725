import Mathlib.Data.Finset.Prod
import Mathlib.Data.Finset.Card
import Metrology.Proofs.Converter.Transparency

/-! # What conversions leave behind

A conversion that takes a route of several factors leaves an edge behind, a shortcut. Between two conversions
the graph of a category is the one that was built, with shortcuts added one after another: each joins two
nodes that no edge joined, with the product of a route that was there. So a pair of nodes has one shortcut at
most, and no shortcut hides an edge.
-/
namespace Metrology

structure Shortcut where
  source : Nat
  target : Nat
  factor : Float

namespace Shortcut

def edge (x : Shortcut) : Edge Weight := ⟨x.target, .multiplier x.factor⟩

def ends (x : Shortcut) : Nat × Nat := (x.source, x.target)

def addTo (x : Shortcut) (g : UnitGraph) : UnitGraph := g.link x.source x.target (.multiplier x.factor)

/-- A shortcut fits a graph if no edge joins its ends but a route of two factors or more does, whose product
it has. -/
structure Fits (x : Shortcut) (g : UnitGraph) : Prop where
  source_lt : x.source < g.size
  target_lt : x.target < g.size
  ne : x.source ≠ x.target
  unjoined : g.weight? x.source x.target = none
  route : ∃ es, g.Walk x.source es x.target ∧ 2 ≤ es.length ∧ Route.multipliersOnly (g.hops es) = true ∧
    x.factor = Route.product 1.0 (g.hops es)

end Shortcut

namespace Graph

/-- The second graph is the first one with shortcuts, each of which fitted when it was added. -/
inductive Shortened (g : UnitGraph) : List Shortcut → UnitGraph → Prop where
  | built : Shortened g [] g
  | snoc {xs : List Shortcut} {g' : UnitGraph} {x : Shortcut} (h : Shortened g xs g') (hx : x.Fits g') :
      Shortened g (xs ++ [x]) (x.addTo g')

namespace Shortened

variable {g g' : UnitGraph} {xs : List Shortcut}

theorem extends_graph (h : g.Shortened xs g') : g.Extends g' := by
  induction h with
  | built => exact .refl g
  | snoc _ _ ih => exact ih.trans (.link _ _ _ _)

theorem coherent (h : g.Shortened xs g') (hg : g.Coherent) : g'.Coherent := by
  induction h with
  | built => exact hg
  | snoc _ _ ih => exact ih.link _ _ _

theorem size_eq (h : g.Shortened xs g') : g'.size = g.size := by
  have hvalues := congrArg List.length h.extends_graph.values
  rwa [List.length_map, List.length_map] at hvalues

theorem edges_eq (h : g.Shortened xs g') : g'.edges = g.edges ++ xs.map Shortcut.edge := by
  induction h with
  | built => simp
  | snoc _ hx ih =>
    rw [Shortcut.addTo, link_of_lt hx.source_lt hx.target_lt]
    simp only [ih, List.map_append, List.map_singleton, List.append_assoc, Shortcut.edge]

/-- A shortcut is the first edge between its ends from then on. -/
theorem weight?_of_mem (h : g.Shortened xs g') (hg : g.Coherent) {x : Shortcut} (hx : x ∈ xs) :
    g'.weight? x.source x.target = some (.multiplier x.factor) := by
  induction h with
  | built => cases hx
  | @snoc xs g' y h hy ih =>
    have hg' := h.coherent hg
    have hlink : (y.addTo g').Coherent := hg'.link _ _ _
    rcases List.mem_append.mp hx with hx | hx
    · exact (Extends.link g' _ _ _).weight? hg' hlink (ih hx)
    · obtain rfl := List.mem_singleton.mp hx
      exact hg'.weight?_link hy.source_lt hy.target_lt hy.unjoined _

theorem nodup_ends (h : g.Shortened xs g') (hg : g.Coherent) : (xs.map Shortcut.ends).Nodup := by
  induction h with
  | built => exact List.nodup_nil
  | @snoc xs g' y h hy ih =>
    rw [List.map_append, List.map_singleton, List.nodup_append]
    refine ⟨ih, List.nodup_singleton _, ?_⟩
    intro a ha b hb
    obtain ⟨x, hx, rfl⟩ := List.mem_map.mp ha
    obtain rfl := List.mem_singleton.mp hb
    intro hsame
    obtain ⟨hsource, htarget⟩ := Prod.mk.inj hsame
    have hjoined := h.weight?_of_mem hg hx
    rw [hsource, htarget, hy.unjoined] at hjoined
    cases hjoined

theorem ends_mem (h : g.Shortened xs g') {x : Shortcut} (hx : x ∈ xs) : x.ends ∈ (Finset.range g.size).offDiag := by
  induction h with
  | built => cases hx
  | @snoc xs g' y h hy ih =>
    rcases List.mem_append.mp hx with hx | hx
    · exact ih hx
    · obtain rfl := List.mem_singleton.mp hx
      have hsource := hy.source_lt
      have htarget := hy.target_lt
      rw [h.size_eq] at hsource htarget
      exact Finset.mem_offDiag.mpr ⟨Finset.mem_range.mpr hsource, Finset.mem_range.mpr htarget, hy.ne⟩

theorem length_le (h : g.Shortened xs g') (hg : g.Coherent) : xs.length ≤ g.size * (g.size - 1) := by
  have hcard := List.toFinset_card_of_nodup (h.nodup_ends hg)
  have hsub : (xs.map Shortcut.ends).toFinset ⊆ (Finset.range g.size).offDiag := by
    intro p hp
    obtain ⟨x, hx, rfl⟩ := List.mem_map.mp (List.mem_toFinset.mp hp)
    exact h.ends_mem hx
  have hle := Finset.card_le_card hsub
  rw [hcard, List.length_map, Finset.offDiag_card, Finset.card_range] at hle
  rwa [Nat.mul_sub_one]

end Shortened

end Graph

namespace Converter

variable {c : Converter} {k : Call} {r : Route}

theorem caches_eq_true : c.caches r = true ↔ c.caching = true ∧ r.multipliersOnly = true ∧ 2 ≤ r.length := by
  simp only [caches, Bool.and_eq_true, decide_eq_true_eq, and_assoc]
  exact Iff.rfl

/-- A call that caches adds a shortcut that fits to the graph of its category and leaves the other graphs
alone. -/
theorem Coherent.graph?_next (hc : c.Coherent) (h : c.routeFor k = .ok r) (hcaches : c.caches r = true) :
    ∃ g x, c.graph? k.category = some g ∧ Shortcut.Fits x g ∧ (c.next k).graph? k.category = some (x.addTo g) ∧
      ∀ category, category ≠ k.category → (c.next k).graph? category = c.graph? category := by
  obtain ⟨ends, hends, hnext⟩ := next_of_caches h hcaches
  obtain ⟨ends', hends', hpath, -⟩ := routeFor_eq_ok.mp h
  cases hends.symm.trans hends'
  obtain ⟨hg, hs, ht⟩ := endpoints_eq_ok.mp hends
  obtain ⟨-, hfactors, hlength⟩ := caches_eq_true.mp hcaches
  rw [← hpath] at hlength hfactors
  have hcoherent := hc _ _ hg
  have hfull : ends.graph.shortestPath ends.source ends.target ≠ [] := List.ne_nil_of_length_pos (by omega)
  obtain ⟨hne, es, hes, hhops⟩ := hcoherent.exists_least hfull
  have hsource := Graph.lt_size_of_indexOf? hs
  have htarget := Graph.lt_size_of_indexOf? ht
  obtain ⟨⟨g, hadded, hlink, -⟩, hothers⟩ := graph?_remember_of_endpoints hends (r.product 1.0)
  rw [← hnext] at hadded hothers
  refine ⟨ends.graph, ⟨ends.source, ends.target, r.product 1.0⟩, hg, ⟨hsource, htarget, hne, ?_, es, hes.1, ?_, ?_, ?_⟩,
    ?_, hothers⟩
  · exact hcoherent.weight?_eq_none ht hlength
  · rwa [← hcoherent.length_hops hes.1, ← hhops]
  · rwa [← hhops]
  · rw [← hhops, hpath]
  · rw [hadded, hlink]
    rfl

/-- The graphs of a converter that conversions may have gone through are those of the first one with
shortcuts. -/
def Shortened (c c' : Converter) : Prop :=
  ∀ category, Option.Rel (fun g g' : UnitGraph => ∃ xs, g.Shortened xs g') (c.graph? category) (c'.graph? category)

theorem Shortened.refl (c : Converter) : c.Shortened c := by
  intro category
  cases c.graph? category with
  | none => exact .none
  | some g => exact .some ⟨[], .built⟩

theorem Shortened.next {c' : Converter} (h : c.Shortened c') (hc' : c'.Coherent) (k : Call) :
    c.Shortened (c'.next k) := by
  cases hr : c'.routeFor k with
  | error e => rwa [(answer?_of_error hr).2]
  | ok r =>
    cases hcaches : c'.caches r with
    | false => rwa [next_of_not_caches hr hcaches]
    | true =>
      obtain ⟨g', x, hg', hx, hnext, hothers⟩ := hc'.graph?_next hr hcaches
      intro category
      by_cases hcategory : category = k.category
      · subst hcategory
        have hgraph := h k.category
        rw [hg'] at hgraph
        rw [hnext]
        generalize c.graph? k.category = found at hgraph ⊢
        cases hgraph with
        | some hgraph =>
          obtain ⟨xs, hxs⟩ := hgraph
          exact .some ⟨xs ++ [x], hxs.snoc hx⟩
      · rw [hothers category hcategory]
        exact h category

theorem Coherent.shortened_after (hc : c.Coherent) (calls : List Call) : c.Shortened (c.after calls) := by
  have hrun : ∀ (calls : List Call) {c' : Converter}, c'.Coherent → c.Shortened c' → c.Shortened (c'.after calls) := by
    intro calls
    induction calls with
    | nil => exact fun _ h => h
    | cons k rest ih => exact fun hc' h => ih (hc'.next k).1 (h.next hc' k)
  exact hrun calls hc (.refl c)

/-- Nothing changes unless a route of two factors or more is cached. -/
theorem next_eq_self (h : c.caching = false ∨ (∃ e, c.convert k.category k.source k.target k.value = .error e) ∨
    ∃ r, c.routeFor k = .ok r ∧ (r.length < 2 ∨ r.multipliersOnly = false)) : c.next k = c := by
  rcases h with h | ⟨e, h⟩ | ⟨r, hr, h⟩
  · exact after_of_not_caching h [k]
  · rw [next, h]
  · refine next_of_not_caches hr (Bool.eq_false_iff.mpr fun hcaches => ?_)
    obtain ⟨-, hfactors, hlength⟩ := caches_eq_true.mp hcaches
    rcases h with h | h
    · omega
    · rw [hfactors] at h
      cases h

theorem Coherent.graph?_next_of_ne (hc : c.Coherent) {category : String} (hcategory : category ≠ k.category) :
    (c.next k).graph? category = c.graph? category := by
  cases hr : c.routeFor k with
  | error e => rw [(answer?_of_error hr).2]
  | ok r =>
    cases hcaches : c.caches r with
    | false => rw [next_of_not_caches hr hcaches]
    | true =>
      obtain ⟨-, -, -, -, -, hothers⟩ := hc.graph?_next hr hcaches
      exact hothers category hcategory

/-- A pair that has been converted over factors alone is converted by their product from then on. -/
theorem Coherent.answer?_kept (hc : c.Coherent) (h : c.routeFor k = .ok r) (hfactors : r.multipliersOnly = true)
    (later : List Call) {k' : Call} (hpair : k'.SamePair k) :
    ((c.next k).after later).answer? k' = some (k'.value * r.product 1.0) := by
  obtain ⟨r', hr', hresult⟩ := hc.result_kept h hfactors later
  rw [← routeFor_congr hpair] at hr'
  rw [answer?_of_route hr', hresult, Route.result_of_multipliersOnly hfactors]

/-- What a run of calls leaves of a converter that has just been built, what one more call can change, and
what none can. -/
theorem shortcuts_after {b : Builder} (hb : b.build = .ok c) (calls : List Call) :
    (∀ category, Option.Rel (fun g g' : UnitGraph => ∃ xs : List Shortcut, g.Shortened xs g' ∧
        g'.nodes.map Node.value = g.nodes.map Node.value ∧ g'.edges = g.edges ++ xs.map Shortcut.edge ∧
        (xs.map Shortcut.ends).Nodup ∧ xs.length ≤ g.size * (g.size - 1))
      (c.graph? category) ((c.after calls).graph? category)) ∧
    (∀ later category source target w, (c.after calls).weight? category source target = some w →
      (c.after (calls ++ later)).weight? category source target = some w) ∧
    (∀ k category, category ≠ k.category → ((c.after calls).next k).graph? category = (c.after calls).graph? category) ∧
    (∀ k, ((c.after calls).caching = false ∨
        (∃ e, (c.after calls).convert k.category k.source k.target k.value = .error e) ∨
        ∃ r, (c.after calls).routeFor k = .ok r ∧ (r.length < 2 ∨ r.multipliersOnly = false)) →
      (c.after calls).next k = c.after calls) ∧
    ∀ k r, (c.after calls).routeFor k = .ok r → r.multipliersOnly = true →
      (c.after calls).answer? k = some (k.value * r.product 1.0) ∧
        ∀ later k', k'.SamePair k →
          (c.after (calls ++ k :: later)).answer? k' = some (k'.value * r.product 1.0) := by
  have hc := Builder.coherent_build hb
  obtain ⟨hafter, -⟩ := hc.after calls
  refine ⟨fun category => ?_, ?_, fun k category => hafter.graph?_next_of_ne, fun k => next_eq_self, ?_⟩
  · have hgraphs := hc.shortened_after calls category
    have hcoherent := hc category
    generalize c.graph? category = found, (c.after calls).graph? category = found' at hgraphs hcoherent ⊢
    cases hgraphs with
    | none => exact .none
    | some hgraph =>
      obtain ⟨xs, hxs⟩ := hgraph
      have hg := hcoherent _ rfl
      exact .some ⟨xs, hxs, hxs.extends_graph.values, hxs.edges_eq, hxs.nodup_ends hg, hxs.length_le hg⟩
  · intro later category source target w hw
    obtain ⟨hlater, hext⟩ := hafter.after later
    rw [after, List.foldl_append]
    exact hext.weight? hafter hlater hw
  · intro k r hr hfactors
    refine ⟨?_, fun later k' hpair => ?_⟩
    · rw [answer?_of_route hr, Route.result_of_multipliersOnly hfactors]
    · rw [after_append_cons]
      exact hafter.answer?_kept hr hfactors later hpair

/-- The first three units of the row are converted, which leaves one shortcut, and then again after any other
calls. -/
theorem shortcuts_after_row :
    row.build = .ok rowConverter ∧
      (∃ g' xs, (rowConverter.after [⟨"Length", "Tenth", "Foot", 1⟩]).graph? "Length" = some g' ∧
        rowGraph.Shortened xs g' ∧ xs.length = 1) ∧
      ∀ later, (rowConverter.after (⟨"Length", "Tenth", "Foot", 1⟩ :: later)).answer? ⟨"Length", "Tenth", "Foot", 2⟩ =
        some (2 * (1.0 * 0.1 * 3)) := by
  have hbuild : row.build = .ok rowConverter := rfl
  have hroute : rowConverter.routeFor ⟨"Length", "Tenth", "Foot", 1⟩ =
      .ok [⟨"Yard", .multiplier 0.1⟩, ⟨"Foot", .multiplier 3⟩] := by with_unfolding_all rfl
  have hcount : ((rowConverter.after [⟨"Length", "Tenth", "Foot", 1⟩]).graph? "Length").map (fun g => g.edges.length) =
      some 7 := by decide +kernel
  refine ⟨hbuild, ?_, fun later => ?_⟩
  · have hgraph := (shortcuts_after hbuild [⟨"Length", "Tenth", "Foot", 1⟩]).1 "Length"
    have hstart : rowConverter.graph? "Length" = some rowGraph := rfl
    rw [hstart] at hgraph
    generalize (rowConverter.after [⟨"Length", "Tenth", "Foot", 1⟩]).graph? "Length" = found at hgraph hcount ⊢
    cases hgraph with
    | @some _ g' h =>
      obtain ⟨xs, hxs, -, hedges, -, -⟩ := h
      refine ⟨g', xs, rfl, hxs, ?_⟩
      rw [Option.map_some, hedges, List.length_append, List.length_map] at hcount
      have hbuilt : rowGraph.edges.length = 6 := rfl
      have hsum := Option.some.inj hcount
      omega
  · obtain ⟨-, hkept⟩ := (shortcuts_after hbuild []).2.2.2.2 ⟨"Length", "Tenth", "Foot", 1⟩ _ hroute rfl
    exact hkept later ⟨"Length", "Tenth", "Foot", 2⟩ ⟨rfl, rfl, rfl⟩

end Converter

end Metrology
