import Mathlib.Logic.Relation
import Metrology.Proofs.Graph.Links

/-! # Reach by the values of the ends

Walks are made of numbers, links of values. What can be reached from a value is what a chain of links comes
to, so the numbers of nodes and edges do not matter to it.
-/
namespace Metrology.Graph

variable {ω : Type}

def Linked (g : Graph ω) (source target : String) : Prop := ∃ w, (⟨source, target, w⟩ : Link ω) ∈ g.links

def Joins (g : Graph ω) (s t : Nat) : Prop := ∃ e ∈ g.edgesFrom s, ∃ edge, g.edges[e]? = some edge ∧ edge.target = t

theorem linked_of_joins {g : Graph ω} {s t : Nat} {u v : String} (hs : g.indexOf? u = some s)
    (ht : g.indexOf? v = some t) (h : g.Joins s t) : g.Linked u v := by
  obtain ⟨e, he, edge, hedge, rfl⟩ := h
  obtain ⟨n, hn, rfl⟩ := Option.map_eq_some_iff.mp (value_of_indexOf? hs)
  obtain ⟨m, hm, rfl⟩ := Option.map_eq_some_iff.mp (value_of_indexOf? ht)
  have hleaves : e ∈ n.edges := by simpa [edgesFrom, hn] using he
  refine ⟨edge.weight, List.mem_flatMap.mpr ⟨n, List.mem_of_getElem? hn, List.mem_filterMap.mpr ⟨e, hleaves, ?_⟩⟩⟩
  exact linkAt?_eq hedge hm

namespace Coherent

variable {g : Graph ω} (hg : g.Coherent)
include hg

theorem joins_of_linked {u v : String} (h : g.Linked u v) :
    ∃ s t, g.indexOf? u = some s ∧ g.indexOf? v = some t ∧ g.Joins s t := by
  obtain ⟨w, hw⟩ := h
  obtain ⟨n, hn, hw⟩ := List.mem_flatMap.mp hw
  obtain ⟨e, he, hlink⟩ := List.mem_filterMap.mp hw
  obtain ⟨edge, m, hedge, hm⟩ := hg.exists_edge hn he
  rw [linkAt?_eq hedge hm] at hlink
  obtain ⟨rfl, rfl, rfl⟩ := Link.mk.inj (Option.some.inj hlink)
  obtain ⟨s, hs⟩ := List.mem_iff_getElem?.mp hn
  refine ⟨s, edge.target, hg.indexOf?_eq_some_iff.mpr (by rw [hs]; rfl),
    hg.indexOf?_eq_some_iff.mpr (by rw [hm]; rfl), e,
    ?_, edge, hedge, rfl⟩
  simpa [edgesFrom, hs] using he

theorem chain_of_walk {s t : Nat} {es : List Nat} (h : g.Walk s es t) {u v : String} (hs : g.indexOf? u = some s)
    (ht : g.indexOf? v = some t) : Relation.ReflTransGen g.Linked u v := by
  induction h generalizing u with
  | here s =>
    obtain rfl : u = v := by
      have hu := value_of_indexOf? hs
      rw [value_of_indexOf? ht] at hu
      exact (Option.some.inj hu).symm
    exact .refl
  | @along s t e edge es he hedge _ ih =>
    obtain ⟨m, hm⟩ := hg.exists_target hedge
    have hnext : g.indexOf? m.value = some edge.target := hg.indexOf?_eq_some_iff.mpr (by rw [hm]; rfl)
    have hlinked : g.Linked u m.value := linked_of_joins hs hnext ⟨e, he, edge, hedge, rfl⟩
    exact .head hlinked (ih hnext ht)

theorem walk_of_chain {u v : String} (h : Relation.ReflTransGen g.Linked u v) {s : Nat} (hs : g.indexOf? u = some s) :
    ∃ es t, g.indexOf? v = some t ∧ g.Walk s es t := by
  induction h with
  | refl => exact ⟨[], s, hs, .here s⟩
  | tail _ hlinked ih =>
    obtain ⟨es, t, ht, hes⟩ := ih
    obtain ⟨t', r, ht', hr, e, he, edge, hedge, rfl⟩ := hg.joins_of_linked hlinked
    obtain rfl : t = t' := Option.some.inj (ht.symm.trans ht')
    exact ⟨es ++ [e], edge.target, hr, hes.snoc he hedge⟩

/-- Reach is a chain of links from a value that the graph has. -/
theorem reaches_iff {u v : String} : g.Reaches u v ↔ u ∈ g.values ∧ Relation.ReflTransGen g.Linked u v := by
  constructor
  · rintro ⟨s, es, t, hs, ht, hes⟩
    exact ⟨exists_indexOf?.mp ⟨s, hs⟩, hg.chain_of_walk hes hs ht⟩
  · rintro ⟨hu, hchain⟩
    obtain ⟨s, hs⟩ := exists_indexOf?.mpr hu
    obtain ⟨es, t, ht, hes⟩ := hg.walk_of_chain hchain hs
    exact ⟨s, es, t, hs, ht, hes⟩

end Coherent

end Metrology.Graph
