import Metrology.Proofs.Graph.Extension

/-! # Edges by the values of their ends

Numbers of nodes and edges depend on the order in which a graph has been made. Its links do not: they are its
edges with the values of their ends. A new node changes no link, and a new edge adds one.
-/
namespace Metrology.Graph

variable {ω : Type}

structure Link (ω : Type) where
  source : String
  target : String
  weight : ω

def values (g : Graph ω) : List String := g.nodes.map Node.value

def linkAt? (g : Graph ω) (source : String) (e : Nat) : Option (Link ω) :=
  match g.edges[e]? with
  | some edge => g.nodes[edge.target]?.map fun n => ⟨source, n.value, edge.weight⟩
  | none => none

def linksOf (g : Graph ω) (n : Node) : List (Link ω) := n.edges.filterMap (g.linkAt? n.value)

def links (g : Graph ω) : List (Link ω) := g.nodes.flatMap g.linksOf

theorem exists_indexOf? {g : Graph ω} {v : String} : (∃ i, g.indexOf? v = some i) ↔ v ∈ g.values := by
  rw [← Option.isSome_iff_exists, indexOf?_eq_findIdx?, List.findIdx?_isSome]
  simp [values]

theorem linkAt?_eq {g : Graph ω} {source : String} {e : Nat} {edge : Edge ω} {n : Node}
    (hedge : g.edges[e]? = some edge)
    (hn : g.nodes[edge.target]? = some n) : g.linkAt? source e = some ⟨source, n.value, edge.weight⟩ := by
  simp only [linkAt?, hedge, hn, Option.map_some]

theorem indexOf?_addNode_of_some {g : Graph ω} {u : String} {i : Nat} (h : g.indexOf? u = some i) (v : String) :
    (g.addNode v).1.indexOf? u = some i := by
  rcases g.addNode_eq v with hsame | ⟨-, hnew⟩
  · rwa [hsame]
  · rw [hnew]
    unfold indexOf? at h ⊢
    rw [List.findIdx?_append, h]
    rfl

theorem indexOf?_addNode_self (g : Graph ω) (v : String) : (g.addNode v).1.indexOf? v = some (g.addNode v).2 := by
  unfold addNode
  cases h : g.indexOf? v with
  | some i => exact h
  | none =>
    unfold indexOf? at h ⊢
    rw [List.findIdx?_append, h]
    simp [size]

theorem mem_values_addNode {g : Graph ω} {u v : String} : u ∈ (g.addNode v).1.values ↔ u = v ∨ u ∈ g.values := by
  constructor
  · intro h
    rcases g.addNode_eq v with hsame | ⟨-, hnew⟩
    · rw [hsame] at h
      exact Or.inr h
    · rw [hnew, values, List.map_append] at h
      rcases List.mem_append.mp h with h | h
      · exact Or.inr h
      · exact Or.inl (List.mem_singleton.mp h)
  · rintro (rfl | h)
    · have hvalue := value_of_indexOf? (g.indexOf?_addNode_self u)
      rw [← List.getElem?_map] at hvalue
      exact List.mem_of_getElem? hvalue
    · rcases g.addNode_eq v with hsame | ⟨-, hnew⟩
      · rwa [hsame]
      · rw [hnew, values, List.map_append]
        exact List.mem_append_left _ h

@[simp] theorem values_link_eq (g : Graph ω) (s t : Nat) (w : ω) : (g.link s t w).values = g.values :=
  g.values_link s t w

theorem id_addNode (g : Graph ω) (v : String) : (g.addNode v).1.id = g.id := by
  rcases g.addNode_eq v with h | ⟨-, h⟩ <;> rw [h]

namespace Coherent

variable {g : Graph ω} (hg : g.Coherent)
include hg

theorem exists_edge {n : Node} (hn : n ∈ g.nodes) {e : Nat} (he : e ∈ n.edges) :
    ∃ edge m, g.edges[e]? = some edge ∧ g.nodes[edge.target]? = some m := by
  have hedge := List.getElem?_eq_getElem (hg.number_lt hn he)
  obtain ⟨m, hm⟩ := hg.exists_target hedge
  exact ⟨_, m, hedge, hm⟩

/-- Two graphs have the same links at a node if the edges of the first are edges of the second between the
same values. -/
theorem linksOf_eq {g' : Graph ω} (hedges : g.edges <+: g'.edges)
    (hvalues : ∀ (i : Nat) (n : Node), g.nodes[i]? = some n →
    g'.nodes[i]?.map Node.value = some n.value) {n : Node} (hn : n ∈ g.nodes) :
    g'.linksOf n = g.linksOf n := by
  refine List.filterMap_congr fun e he => ?_
  obtain ⟨edge, m, hedge, hm⟩ := hg.exists_edge hn he
  obtain ⟨new, hnew⟩ := hedges
  have hedge' : g'.edges[e]? = some edge := by rw [← hnew, List.getElem?_append_left (hg.number_lt hn he), hedge]
  obtain ⟨m', hm', hvalue⟩ := Option.map_eq_some_iff.mp (hvalues _ m hm)
  rw [linkAt?_eq hedge hm, linkAt?_eq hedge' hm', hvalue]

theorem links_addNode (v : String) : (g.addNode v).1.links = g.links := by
  rcases g.addNode_eq v with h | ⟨-, h⟩
  · rw [h]
  · have hedges : g.edges <+: (g.addNode v).1.edges := ⟨[], by rw [h, List.append_nil]⟩
    have hold : ∀ n ∈ g.nodes, (g.addNode v).1.linksOf n = g.linksOf n := by
      intro n hn
      refine hg.linksOf_eq hedges (fun i m hi => ?_) hn
      have hnode : (g.addNode v).1.nodes[i]? = some m := by
        rw [h, List.getElem?_append_left (List.getElem?_eq_some_iff.mp hi).1, hi]
      rw [hnode, Option.map_some]
    have hnodes : (g.addNode v).1.nodes = g.nodes ++ [⟨v, []⟩] := by rw [h]
    rw [links, hnodes, List.flatMap_append, List.flatMap_congr hold]
    simp [linksOf, links]

/-- A new edge is a new link, and all other links stay. -/
theorem links_link {s t : Nat} {a b : String} (hs : g.indexOf? a = some s) (ht : g.indexOf? b = some t) (w : ω) :
    (g.link s t w).links.Perm (⟨a, b, w⟩ :: g.links) := by
  have hext := Extends.link g s t w
  have hs' := lt_size_of_indexOf? hs
  have ht' := lt_size_of_indexOf? ht
  have hold : ∀ n ∈ g.nodes, (g.link s t w).linksOf n = g.linksOf n := fun n hn =>
    hg.linksOf_eq hext.edges (fun i m hi => by rw [hext.value_eq i, hi]; rfl) hn
  obtain ⟨before, n, after, hn, hlength, hm⟩ :=
    List.exists_of_modify (fun n : Node => { n with edges := n.edges ++ [g.edges.length] }) hs'
  have hnode : g.nodes[s]? = some n := by
    rw [hn, ← hlength]
    simp
  have hvalue : n.value = a := by simpa [hnode] using value_of_indexOf? hs
  -- The node that the edge leaves has one link more than before, the last one.
  have hnew : (g.link s t w).linksOf { n with edges := n.edges ++ [g.edges.length] } =
      g.linksOf n ++ [⟨a, b, w⟩] := by
    have hlast : (g.link s t w).linkAt? n.value g.edges.length = some ⟨a, b, w⟩ := by
      obtain ⟨m, hm, hb⟩ := Option.map_eq_some_iff.mp ((hext.value_eq t).trans (value_of_indexOf? ht))
      have hedge : (g.link s t w).edges[g.edges.length]? = some ⟨t, w⟩ := by
        rw [link_of_lt hs' ht']
        simp
      rw [linkAt?_eq hedge hm, hb, hvalue]
    have hmem : n ∈ g.nodes := by simp [hn]
    rw [← hold n hmem]
    simp only [linksOf, List.filterMap_append, List.filterMap_cons, hlast, List.filterMap_nil]
  have hnodes : (g.link s t w).nodes = before ++ { n with edges := n.edges ++ [g.edges.length] } :: after := by
    rw [link_of_lt hs' ht']
    exact hm
  have hbefore : before.flatMap (g.link s t w).linksOf = before.flatMap g.linksOf :=
    List.flatMap_congr fun m hm => hold m (by simp [hn, hm])
  have hafter : after.flatMap (g.link s t w).linksOf = after.flatMap g.linksOf :=
    List.flatMap_congr fun m hm => hold m (by simp [hn, hm])
  rw [links, hnodes, List.flatMap_append, List.flatMap_cons, hnew, hbefore, hafter, links, hn, List.flatMap_append,
    List.flatMap_cons]
  simp only [List.append_assoc, List.singleton_append]
  rw [← List.append_assoc, ← List.append_assoc]
  exact List.perm_middle

theorem mem_links_of_weightBetween? {u v : String} {w : ω} (h : g.weightBetween? u v = some w) :
    ⟨u, v, w⟩ ∈ g.links := by
  unfold weightBetween? at h
  split at h
  · next s t hs ht =>
    obtain ⟨e, edge, hfirst, rfl⟩ := hg.weight?_eq_some_iff.mp h
    obtain ⟨n, hn, rfl⟩ := Option.map_eq_some_iff.mp (value_of_indexOf? hs)
    obtain ⟨m, hm, rfl⟩ := Option.map_eq_some_iff.mp (value_of_indexOf? ht)
    have he : e ∈ n.edges := by simpa [edgesFrom, hn] using hfirst.leaving
    refine List.mem_flatMap.mpr ⟨n, List.mem_of_getElem? hn, List.mem_filterMap.mpr ⟨e, he, ?_⟩⟩
    exact linkAt?_eq hfirst.found (by rw [hfirst.target, hm])
  · cases h

theorem weightBetween?_addNode {u v : String} {w : ω} (h : g.weightBetween? u v = some w) (x : String) :
    (g.addNode x).1.weightBetween? u v = some w := by
  unfold weightBetween? at h
  split at h
  · next s t hs ht =>
    simp only [weightBetween?, indexOf?_addNode_of_some hs, indexOf?_addNode_of_some ht]
    obtain ⟨e, edge, hfirst, rfl⟩ := hg.weight?_eq_some_iff.mp h
    refine (hg.addNode x).weight?_eq_some_iff.mpr ⟨e, edge, ?_, rfl⟩
    rcases g.addNode_eq x with hsame | ⟨-, hnew⟩
    · rwa [hsame]
    · have hfrom : (g.addNode x).1.edgesFrom s = g.edgesFrom s := by
        rw [hnew]
        simp only [edgesFrom]
        rw [List.getElem?_append_left (lt_size_of_indexOf? hs)]
      have hedges : (g.addNode x).1.edges = g.edges := by rw [hnew]
      exact ⟨hfrom ▸ hfirst.leaving, hedges ▸ hfirst.found, hfirst.target, by rw [hfrom, hedges]; exact hfirst.le⟩
  · cases h

/-- The first edge that is added between two values decides the weight between them. -/
theorem weightBetween?_link {s t : Nat} {a b : String} (hs : g.indexOf? a = some s) (ht : g.indexOf? b = some t)
    (hnone : ∀ w, (⟨a, b, w⟩ : Link ω) ∉ g.links) (w : ω) : (g.link s t w).weightBetween? a b = some w := by
  have hlink := Extends.link g s t w
  have hfree : g.weight? s t = none := by
    cases hw : g.weight? s t with
    | none => rfl
    | some w' =>
      have hbetween : g.weightBetween? a b = some w' := by simp only [weightBetween?, hs, ht, hw]
      exact absurd (hg.mem_links_of_weightBetween? hbetween) (hnone w')
  simp only [weightBetween?, hlink.indexOf?_eq, hs, ht]
  exact hg.weight?_link (lt_size_of_indexOf? hs) (lt_size_of_indexOf? ht) hfree w

end Coherent

end Metrology.Graph
