import Mathlib.Data.List.Nodup
import Metrology.Proofs.Graph.Links

/-! # Graphs with a dictionary of their values

A graph finds a value by a search through its nodes. An indexed graph has a dictionary of its values beside
the nodes and is changed one statement after another: a node is appended before it is entered into the
dictionary, and the number of an edge is noted at its source before the edge is there. It is the graph that
the same calls make otherwise, its dictionary finds what the search finds, and a call that is refused has
changed nothing.
-/
namespace Metrology.Graph

variable {ω : Type}

structure Indexed (ω : Type) where
  graph : Graph ω
  index : Std.HashMap String Nat

/-- Statements that change an indexed graph. What has been changed before a refusal stays changed. -/
abbrev Update (ω : Type) := ExceptT MissingNode (StateM (Indexed ω))

namespace Indexed

def empty (id : String) : Indexed ω := ⟨Graph.empty id, ∅⟩

def appendNode (value : String) (x : Indexed ω) : Indexed ω :=
  { x with graph := { x.graph with nodes := x.graph.nodes ++ [⟨value, []⟩] } }

def enter (value : String) (i : Nat) (x : Indexed ω) : Indexed ω := { x with index := x.index.insert value i }

def note (source : Nat) (x : Indexed ω) : Indexed ω :=
  { x with graph := { x.graph with
      nodes := x.graph.nodes.modify source fun n => { n with edges := n.edges ++ [x.graph.edges.length] } } }

def appendEdge (target : Nat) (weight : ω) (x : Indexed ω) : Indexed ω :=
  { x with graph := { x.graph with edges := x.graph.edges ++ [⟨target, weight⟩] } }

def insertNode (value : String) : Update ω Nat := do
  let x ← get
  match x.index[value]? with
  | some i => return i
  | none =>
    modify (appendNode value)
    modify (enter value x.graph.size)
    return x.graph.size

def insertEdge (source target : Int) (weight : ω) : Update ω Unit := do
  let x ← get
  if x.graph.hasIndex source && x.graph.hasIndex target then
    modify (note source.toNat)
    modify (appendEdge target.toNat weight)
  else throw ⟨source, target⟩

def grow (x : Indexed ω) : Growth ω → Indexed ω
  | .node value => ((insertNode value).run.run x).2
  | .edge source target weight => ((insertEdge source target weight).run.run x).2

def growAll (x : Indexed ω) (calls : List (Growth ω)) : Indexed ω := calls.foldl grow x

def Agrees (x : Indexed ω) : Prop := ∀ v, x.index[v]? = x.graph.indexOf? v

end Indexed

theorem indexOf?_append_new (g : Graph ω) {v : String} (h : g.indexOf? v = none) (u : String) :
    ({ g with nodes := g.nodes ++ [⟨v, []⟩] } : Graph ω).indexOf? u = if v == u then some g.size else g.indexOf? u := by
  unfold indexOf? at h ⊢
  rw [List.findIdx?_append]
  by_cases hu : v = u
  · subst hu
    simp [h, size]
  · simp [hu]

namespace Indexed

theorem agrees_empty (id : String) : (empty id : Indexed ω).Agrees := fun v => by
  rw [empty, Std.HashMap.getElem?_empty]
  rfl

variable {x : Indexed ω}

/-- Read off the statements: the state goes through them one by one. -/
theorem insertNode_eq (x : Indexed ω) (value : String) : (insertNode value).run.run x =
    match x.index[value]? with
    | some i => (.ok i, x)
    | none => (.ok x.graph.size, enter value x.graph.size (appendNode value x)) := by
  have hget : (insertNode value).run.run x = (ExceptT.run (match x.index[value]? with
      | some i => (return i : Update ω Nat)
      | none => do
        modify (appendNode value)
        modify (enter value x.graph.size)
        return x.graph.size)).run x := rfl
  rw [hget]
  cases x.index[value]? with
  | some i => rfl
  | none => rfl

theorem insertEdge_eq (x : Indexed ω) (source target : Int) (weight : ω) : (insertEdge source target weight).run.run x =
    if x.graph.hasIndex source && x.graph.hasIndex target then
      (.ok (), appendEdge target.toNat weight (note source.toNat x))
    else (.error ⟨source, target⟩, x) := by
  have hget : (insertEdge source target weight).run.run x =
      (ExceptT.run (if x.graph.hasIndex source && x.graph.hasIndex target then do
        modify (note source.toNat)
        modify (appendEdge target.toNat weight)
      else (throw ⟨source, target⟩ : Update ω Unit))).run x := rfl
  rw [hget]
  split
  · rfl
  · rfl

theorem run_insertNode (h : x.Agrees) (value : String) : ∃ index,
    (insertNode value).run.run x = (.ok (x.graph.addNode value).2, ⟨(x.graph.addNode value).1, index⟩) ∧
      (⟨(x.graph.addNode value).1, index⟩ : Indexed ω).Agrees := by
  have hfound := h value
  rw [insertNode_eq, hfound]
  unfold addNode
  cases hindex : x.graph.indexOf? value with
  | some i => exact ⟨x.index, rfl, h⟩
  | none =>
    refine ⟨x.index.insert value x.graph.size, rfl, fun u => ?_⟩
    rw [Std.HashMap.getElem?_insert, indexOf?_append_new x.graph hindex, h u]

theorem run_insertEdge (x : Indexed ω) (source target : Int) (weight : ω) :
    (insertEdge source target weight).run.run x =
      match x.graph.addEdge source target weight with
      | .ok g => (.ok (), ⟨g, x.index⟩)
      | .error e => (.error e, x) := by
  rw [insertEdge_eq]
  unfold addEdge
  split
  · next hends =>
    have hlt : source.toNat < x.graph.size ∧ target.toNat < x.graph.size := by
      simp only [hasIndex, Bool.and_eq_true, decide_eq_true_eq] at hends
      omega
    rw [link_of_lt hlt.1 hlt.2]
    rfl
  · rfl

theorem grow_spec (h : x.Agrees) (call : Growth ω) :
    (x.grow call).graph = x.graph.grow call ∧ (x.grow call).Agrees := by
  cases call with
  | node value =>
    obtain ⟨index, hrun, hagrees⟩ := run_insertNode h value
    simp only [grow, hrun]
    exact ⟨rfl, hagrees⟩
  | edge source target weight =>
    simp only [grow, run_insertEdge, Graph.grow]
    cases hadd : x.graph.addEdge source target weight with
    | error e => exact ⟨rfl, h⟩
    | ok g =>
      refine ⟨rfl, fun v => ?_⟩
      rw [addEdge_eq_ok hadd, (Extends.link x.graph _ _ weight).indexOf?_eq]
      exact h v

theorem growAll_spec (h : x.Agrees) (calls : List (Growth ω)) :
    (x.growAll calls).graph = x.graph.growAll calls ∧ (x.growAll calls).Agrees := by
  induction calls generalizing x with
  | nil => exact ⟨rfl, h⟩
  | cons call rest ih =>
    obtain ⟨hgraph, hagrees⟩ := grow_spec h call
    have hrest := ih hagrees
    rw [hgraph] at hrest
    exact hrest

end Indexed

theorem edgesFrom_of_lt {g : Graph ω} {i : Nat} (hi : i < g.nodes.length) : g.edgesFrom i = g.nodes[i].edges := by
  rw [edgesFrom, List.getElem?_eq_getElem hi]
  rfl

namespace Coherent

variable {g : Graph ω} (hg : g.Coherent)
include hg

/-- No edge leaves two nodes. -/
theorem edgesFrom_disjoint {e i j : Nat} (hi : e ∈ g.edgesFrom i) (hj : e ∈ g.edgesFrom j) : i = j := by
  have hnodup : (g.nodes.flatMap Node.edges).Nodup := hg.numbers.nodup_iff.mpr List.nodup_range
  have hapart := List.pairwise_iff_getElem.mp (List.pairwise_flatMap.mp hnodup).2
  have hlti := lt_size_of_mem_edgesFrom hi
  have hltj := lt_size_of_mem_edgesFrom hj
  rw [edgesFrom_of_lt hlti] at hi
  rw [edgesFrom_of_lt hltj] at hj
  rcases Nat.lt_trichotomy i j with h | h | h
  · exact absurd rfl (hapart i j hlti hltj h e hi e hj)
  · exact h
  · exact absurd rfl (hapart j i hltj hlti h e hj e hi)

theorem exists_leaving {e : Nat} (he : e < g.edges.length) :
    ∃ i, (g.edgesFrom i).count e = 1 ∧ ∀ j, e ∈ g.edgesFrom j → j = i := by
  have hmem : e ∈ g.nodes.flatMap Node.edges := hg.numbers.symm.subset (List.mem_range.mpr he)
  obtain ⟨n, hn, hedge⟩ := List.mem_flatMap.mp hmem
  obtain ⟨i, hi⟩ := List.mem_iff_getElem?.mp hn
  have hleaves : e ∈ g.edgesFrom i := by simpa [edgesFrom, hi] using hedge
  have hnodup : (g.edgesFrom i).Nodup := (hg.ascending_edgesFrom i).imp fun h => Nat.ne_of_lt h
  exact ⟨i, List.count_eq_one_of_mem hnodup hleaves, fun j hj => hg.edgesFrom_disjoint hj hleaves⟩

theorem number_lt_of_mem_edgesFrom {e i : Nat} (h : e ∈ g.edgesFrom i) : e < g.edges.length := by
  have hi := lt_size_of_mem_edgesFrom h
  rw [edgesFrom_of_lt hi] at h
  exact hg.number_lt (List.getElem_mem hi) h

end Coherent

theorem addEdge_of_lt {g : Graph ω} {s t : Nat} (hs : s < g.size) (ht : t < g.size) (weight : ω) :
    g.addEdge s t weight = .ok (g.link s t weight) := by
  simp [addEdge, hasIndex, hs, ht]

theorem addEdge_eq_error_iff {g : Graph ω} {source target : Int} {weight : ω} :
    g.addEdge source target weight = .error ⟨source, target⟩ ↔
      source < 0 ∨ (g.size : Int) ≤ source ∨ target < 0 ∨ (g.size : Int) ≤ target := by
  unfold addEdge
  split
  · next h =>
    simp only [hasIndex, Bool.and_eq_true, decide_eq_true_eq] at h
    simp only [reduceCtorEq, false_iff]
    omega
  · next h =>
    simp only [hasIndex, Bool.and_eq_true, decide_eq_true_eq] at h
    simp only [true_iff]
    omega

theorem value_grow {g : Graph ω} {i : Nat} {v : String} (h : g.nodes[i]?.map Node.value = some v) (call : Growth ω) :
    (g.grow call).nodes[i]?.map Node.value = some v := by
  cases call with
  | node value =>
    simp only [grow]
    rcases g.addNode_eq value with hsame | ⟨-, hnew⟩
    · rwa [hsame]
    · obtain ⟨n, hn, rfl⟩ := Option.map_eq_some_iff.mp h
      have hi := (List.getElem?_eq_some_iff.mp hn).1
      rw [hnew, List.getElem?_append_left hi, hn]
      rfl
  | edge source target weight =>
    simp only [grow]
    cases hadd : g.addEdge source target weight with
    | error e => exact h
    | ok g' =>
      dsimp only
      rw [addEdge_eq_ok hadd, (Extends.link g _ _ weight).value_eq]
      exact h

theorem value_growAll {g : Graph ω} {i : Nat} {v : String} (h : g.nodes[i]?.map Node.value = some v)
    (calls : List (Growth ω)) : (g.growAll calls).nodes[i]?.map Node.value = some v := by
  induction calls generalizing g with
  | nil => exact h
  | cons call rest ih => exact ih (value_grow h call)

theorem addNode_of_indexOf? {g : Graph ω} {v : String} {i : Nat} (h : g.indexOf? v = some i) :
    g.addNode v = (g, i) := by
  unfold addNode
  rw [h]

theorem addNode_new {g : Graph ω} {v : String} (h : v ∉ g.values) :
    g.addNode v = ({ g with nodes := g.nodes ++ [⟨v, []⟩] }, g.size) := by
  unfold addNode
  cases hindex : g.indexOf? v with
  | some i => exact absurd (exists_indexOf?.mp ⟨i, hindex⟩) h
  | none => rfl

namespace Indexed

/-- What the nodes, the edges and the dictionary of an indexed graph say of each other. -/
structure Sound (x : Indexed ω) : Prop where
  distinct : x.graph.values.Nodup
  found : ∀ v i, x.index[v]? = some i ↔ x.graph.nodes[i]?.map Node.value = some v
  leaving : ∀ e < x.graph.edges.length, ∃ i, (x.graph.edgesFrom i).count e = 1 ∧ ∀ j, e ∈ x.graph.edgesFrom j → j = i
  numbers : ∀ i, ∀ e ∈ x.graph.edgesFrom i, e < x.graph.edges.length
  ascending : ∀ i, (x.graph.edgesFrom i).Pairwise (· < ·)
  targets : ∀ edge ∈ x.graph.edges, edge.target < x.graph.size

theorem Agrees.sound {x : Indexed ω} (h : x.Agrees) (hg : x.graph.Coherent) : x.Sound where
  distinct := hg.values
  found v i := by rw [h v, hg.indexOf?_eq_some_iff]
  leaving _ he := hg.exists_leaving he
  numbers _ _ he := hg.number_lt_of_mem_edgesFrom he
  ascending i := hg.ascending_edgesFrom i
  targets := hg.targets

/-- After any calls, refused ones among them, an indexed graph is sound and the plain graph of the same calls.
A value that it has is not added again and a new one gets the next index, which never has another value. An
edge is refused if and only if one of its ends is no index, which changes nothing; else its number goes to the
end of the numbers at its source. -/
theorem growAll_sound (id : String) (calls : List (Growth ω)) :
    let x := (empty id : Indexed ω).growAll calls
    let g := (Graph.empty id : Graph ω).growAll calls
    x.Sound ∧ x.graph = g ∧ (∀ v, g.indexOf? v = x.index[v]?) ∧
    (∀ v i, x.index[v]? = some i → g.addNode v = (g, i) ∧ (insertNode v).run.run x = (.ok i, x)) ∧
    (∀ v, v ∉ g.values → g.addNode v = ({ g with nodes := g.nodes ++ [⟨v, []⟩] }, g.size) ∧
      (insertNode v).run.run x = (.ok g.size, enter v g.size (appendNode v x))) ∧
    (∀ later (i : Nat) v, g.nodes[i]?.map Node.value = some v → (g.growAll later).nodes[i]?.map Node.value = some v) ∧
    (∀ s t w, g.addEdge s t w = .error ⟨s, t⟩ ↔ s < 0 ∨ (g.size : Int) ≤ s ∨ t < 0 ∨ (g.size : Int) ≤ t) ∧
    (∀ s t w, g.addEdge s t w = .error ⟨s, t⟩ → g.grow (.edge s t w) = g ∧
      (insertEdge s t w).run.run x = (.error ⟨s, t⟩, x)) ∧
    ∀ s t : Nat, s < g.size → t < g.size → ∀ w, ∃ g', g.addEdge s t w = .ok g' ∧
      (insertEdge s t w).run.run x = (.ok (), ⟨g', x.index⟩) ∧ g'.edges = g.edges ++ [⟨t, w⟩] ∧
      ∀ i, g'.edgesFrom i = g.edgesFrom i ++ if s = i then [g.edges.length] else [] := by
  intro x g
  obtain ⟨hgraph, hagrees⟩ : x.graph = g ∧ x.Agrees := growAll_spec (agrees_empty id) calls
  have hcoherent : x.graph.Coherent := hgraph ▸ (coherent_empty id).growAll calls
  have hindex : ∀ v, g.indexOf? v = x.index[v]? := fun v => by rw [hagrees v, hgraph]
  refine ⟨hagrees.sound hcoherent, hgraph, hindex, fun v i hi => ?_, fun v hv => ?_,
    fun later i v h => value_growAll h later,
    fun s t w => addEdge_eq_error_iff, fun s t w h => ?_, fun s t hs ht w => ?_⟩
  · refine ⟨addNode_of_indexOf? ((hindex v).trans hi), ?_⟩
    rw [insertNode_eq, hi]
  · have hnone : x.index[v]? = none := by
      rw [← hindex v, Option.eq_none_iff_forall_ne_some]
      intro i hi
      exact hv (exists_indexOf?.mp ⟨i, hi⟩)
    refine ⟨addNode_new hv, ?_⟩
    rw [insertNode_eq, hnone, ← hgraph]
  · refine ⟨?_, ?_⟩
    · rw [Graph.grow, h]
    · rw [run_insertEdge, hgraph, h]
  · have hadd := addEdge_of_lt hs ht w
    refine ⟨g.link s t w, hadd, ?_, ?_, edgesFrom_link hs ht w⟩
    · rw [run_insertEdge, hgraph, hadd]
    · rw [link_of_lt hs ht]

/-- Calls with values that are there already, an edge from a node to itself, parallel edges, and ends that are
no indices. -/
def muddled : List (Growth Nat) :=
  [.node "a", .edge 0 1 1, .node "b", .node "a", .edge 1 0 2, .edge 0 0 3, .edge (-1) 0 4, .node "c",
    .edge 1 0 5, .edge 0 3 6]

theorem growAll_sound_muddled :
    let x := (empty "muddled" : Indexed Nat).growAll muddled
    (x.graph.edges.length = 3 ∧ x.graph.size = 3 ∧
        ∃ i, (x.graph.edgesFrom i).count 2 = 1 ∧ ∀ j, 2 ∈ x.graph.edgesFrom j → j = i) ∧
      (x.index["c"]? = some 2 ∧ (insertNode "c").run.run x = (.ok 2, x)) ∧
      (∀ later, (x.graph.growAll later).nodes[1]?.map Node.value = some "b") ∧
      ∀ w, (insertEdge 3 0 w).run.run x = (.error ⟨3, 0⟩, x) := by
  intro x
  have hspec := growAll_sound "muddled" muddled
  dsimp only at hspec
  generalize hg : (Graph.empty "muddled" : Graph Nat).growAll muddled = g at hspec
  obtain ⟨hsound, hgraph, hindex, hpresent, -, hkept, herror, hrefused, -⟩ := hspec
  have hedges : g.edges.length = 3 := by rw [← hg]; decide +kernel
  have hsize : g.size = 3 := by rw [← hg]; decide +kernel
  have hc : x.index["c"]? = some 2 := by
    rw [← hindex "c", ← hg]
    decide +kernel
  have hb : g.nodes[1]?.map Node.value = some "b" := by rw [← hg]; decide +kernel
  have hthird : ∃ i, (x.graph.edgesFrom i).count 2 = 1 ∧ ∀ j, 2 ∈ x.graph.edgesFrom j → j = i :=
    hsound.leaving 2 (by rw [hgraph, hedges]; decide)
  refine ⟨⟨by rw [hgraph, hedges], by rw [hgraph, hsize], hthird⟩, ⟨hc, (hpresent "c" 2 hc).2⟩,
    fun later => ?_, fun w => ?_⟩
  · rw [hgraph]
    exact hkept later 1 "b" hb
  · exact (hrefused 3 0 w ((herror 3 0 w).mpr (.inr (.inl (by rw [hsize]; decide))))).2

end Indexed

end Metrology.Graph
