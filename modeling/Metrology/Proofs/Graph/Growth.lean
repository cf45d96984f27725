import Mathlib.Data.List.Basic
import Metrology.Graph.Basic

/-! # How graphs grow

A graph grows by calls of `addNode` and `addEdge`, with any values and any indices. What every such graph
keeps is `Coherent`: values of nodes are distinct, the numbers of the edges are dealt out to the nodes, each
number once and each node's in ascending order, and edges lead to nodes.
-/
namespace Metrology.Graph

variable {ω : Type}

inductive Growth (ω : Type) where
  | node (value : String)
  | edge (source target : Int) (weight : ω)

/-- The graph after a call; an edge between nodes that do not exist is refused and changes nothing. -/
def grow (g : Graph ω) : Growth ω → Graph ω
  | .node value => (g.addNode value).1
  | .edge source target weight =>
    match g.addEdge source target weight with
    | .ok g => g
    | .error _ => g

def growAll (g : Graph ω) (calls : List (Growth ω)) : Graph ω := calls.foldl grow g

structure Coherent (g : Graph ω) : Prop where
  values : (g.nodes.map Node.value).Nodup
  numbers : (g.nodes.flatMap Node.edges).Perm (List.range g.edges.length)
  ascending : ∀ n ∈ g.nodes, n.edges.Pairwise (· < ·)
  targets : ∀ e ∈ g.edges, e.target < g.size

theorem coherent_empty (id : String) : (empty id : Graph ω).Coherent :=
  ⟨List.nodup_nil, by simp [empty], by simp [empty], by simp [empty]⟩

theorem link_of_lt {g : Graph ω} {source target : Nat} (hs : source < g.size) (ht : target < g.size) (weight : ω) :
    g.link source target weight =
      { g with
        nodes := g.nodes.modify source fun n => { n with edges := n.edges ++ [g.edges.length] }
        edges := g.edges ++ [⟨target, weight⟩] } := by
  rw [link, if_pos ⟨hs, ht⟩]

@[simp] theorem id_link (g : Graph ω) (source target : Nat) (weight : ω) :
    (g.link source target weight).id = g.id := by
  unfold link
  split <;> rfl

@[simp] theorem size_link (g : Graph ω) (source target : Nat) (weight : ω) :
    (g.link source target weight).size = g.size := by
  unfold link
  split
  · simp [size]
  · rfl

theorem values_link (g : Graph ω) (source target : Nat) (weight : ω) :
    (g.link source target weight).nodes.map Node.value = g.nodes.map Node.value := by
  by_cases h : source < g.size ∧ target < g.size
  · rw [link_of_lt h.1 h.2]
    obtain ⟨before, n, after, hn, _, hm⟩ :=
      List.exists_of_modify (fun n : Node => { n with edges := n.edges ++ [g.edges.length] }) h.1
    rw [hm, hn]
    simp
  · rw [link, if_neg h]

/-- A new node has no edges, so nothing changes but the list of nodes. -/
theorem addNode_eq (g : Graph ω) (value : String) :
    (g.addNode value).1 = g ∨
      value ∉ g.nodes.map Node.value ∧ (g.addNode value).1 = { g with nodes := g.nodes ++ [⟨value, []⟩] } := by
  unfold addNode
  cases h : g.indexOf? value with
  | some i => exact Or.inl rfl
  | none =>
    refine Or.inr ⟨?_, rfl⟩
    intro hmem
    obtain ⟨n, hn, hv⟩ := List.mem_map.mp hmem
    have hno := List.findIdx?_eq_none_iff.mp h n hn
    simp [hv] at hno

theorem Coherent.addNode {g : Graph ω} (hg : g.Coherent) (value : String) : (g.addNode value).1.Coherent := by
  rcases g.addNode_eq value with h | ⟨hnew, h⟩
  · rw [h]
    exact hg
  · rw [h]
    refine ⟨?_, ?_, ?_, ?_⟩
    · rw [List.map_append, List.nodup_append]
      refine ⟨hg.values, by simp, ?_⟩
      intro v hv w hw
      rw [List.map_singleton, List.mem_singleton] at hw
      subst hw
      exact fun he => hnew (he ▸ hv)
    · simpa using hg.numbers
    · intro n hn
      rcases List.mem_append.mp hn with hn | hn
      · exact hg.ascending n hn
      · obtain rfl := List.mem_singleton.mp hn
        exact List.Pairwise.nil
    · intro e he
      have ht := hg.targets e he
      simp only [size, List.length_append, List.length_singleton] at ht ⊢
      omega

theorem Coherent.number_lt {g : Graph ω} (hg : g.Coherent) {n : Node} (hn : n ∈ g.nodes) {e : Nat} (he : e ∈ n.edges) :
    e < g.edges.length :=
  List.mem_range.mp (hg.numbers.subset (List.mem_flatMap.mpr ⟨n, hn, he⟩))

theorem Coherent.link {g : Graph ω} (hg : g.Coherent) (source target : Nat) (weight : ω) :
    (g.link source target weight).Coherent := by
  by_cases h : source < g.size ∧ target < g.size
  · have hvalues := g.values_link source target weight
    have hsize := g.size_link source target weight
    rw [link_of_lt h.1 h.2] at hvalues hsize ⊢
    obtain ⟨before, n, after, hn, _, hm⟩ :=
      List.exists_of_modify (fun n : Node => { n with edges := n.edges ++ [g.edges.length] }) h.1
    have hmem : n ∈ g.nodes := by simp [hn]
    refine ⟨?_, ?_, ?_, ?_⟩
    · rw [hvalues]
      exact hg.values
    · -- The new number moves from the end of the numbers of its node to the end of all numbers.
      have hold := hg.numbers
      rw [hn] at hold
      rw [hm, List.length_append, List.length_singleton, List.range_succ]
      simp only [List.flatMap_append, List.flatMap_cons, List.append_assoc] at hold ⊢
      refine List.Perm.trans ?_ (hold.append_right [g.edges.length])
      simp only [List.append_assoc]
      exact ((List.perm_append_comm).append_left _).append_left _
    · intro k hk
      rw [hm] at hk
      rcases List.mem_append.mp hk with hk | hk
      · exact hg.ascending k (by simp [hn, hk])
      · rcases List.mem_cons.mp hk with rfl | hk
        · refine List.pairwise_append.mpr ⟨hg.ascending n hmem, List.pairwise_singleton _ _, ?_⟩
          intro a ha b hb
          obtain rfl := List.mem_singleton.mp hb
          exact hg.number_lt hmem ha
        · exact hg.ascending k (by simp [hn, hk])
    · intro e he
      rw [hsize]
      rcases List.mem_append.mp he with he | he
      · exact hg.targets e he
      · obtain rfl := List.mem_singleton.mp he
        exact h.2
  · rw [Graph.link, if_neg h]
    exact hg

theorem addEdge_eq_ok {g g' : Graph ω} {source target : Int} {weight : ω}
    (h : g.addEdge source target weight = .ok g') :
    g' = g.link source.toNat target.toNat weight := by
  unfold addEdge at h
  split at h
  · cases h
    rfl
  · cases h

theorem Coherent.grow {g : Graph ω} (hg : g.Coherent) (call : Growth ω) : (g.grow call).Coherent := by
  cases call with
  | node value => exact hg.addNode value
  | edge source target weight =>
    simp only [Graph.grow]
    cases h : g.addEdge source target weight with
    | error e => exact hg
    | ok g' =>
      dsimp only
      rw [addEdge_eq_ok h]
      exact hg.link _ _ _

theorem Coherent.growAll {g : Graph ω} (hg : g.Coherent) (calls : List (Growth ω)) : (g.growAll calls).Coherent := by
  induction calls generalizing g with
  | nil => exact hg
  | cons call rest ih => exact ih (hg.grow call)

end Metrology.Graph
