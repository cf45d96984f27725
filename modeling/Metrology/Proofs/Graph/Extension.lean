import Metrology.Proofs.Graph.ShortestPath

/-! # Graphs that extend a graph

A graph that has been given more edges keeps its nodes, and every node keeps its edges before the new ones.
The first edge between two nodes stays the first, so shortest paths only change where a new edge joins nodes
that no edge had joined.
-/
namespace Metrology.Graph

variable {ω : Type}

structure Extends (g g' : Graph ω) : Prop where
  name : g'.id = g.id
  values : g'.nodes.map Node.value = g.nodes.map Node.value
  edges : g.edges <+: g'.edges
  leaving : ∀ u, ∃ new, g'.edgesFrom u = g.edgesFrom u ++ new ∧ ∀ e ∈ new, g.edges.length ≤ e

/-- Walks of the larger graph join no nodes but those that walks of the smaller one join. -/
def Spans (g g' : Graph ω) : Prop := ∀ s es t, g'.Walk s es t → ∃ es', g.Walk s es' t

def Reaches (g : Graph ω) (source target : String) : Prop :=
  ∃ s es t, g.indexOf? source = some s ∧ g.indexOf? target = some t ∧ g.Walk s es t

def weightBetween? (g : Graph ω) (source target : String) : Option ω :=
  match g.indexOf? source, g.indexOf? target with
  | some s, some t => g.weight? s t
  | _, _ => none

def Follows (g : Graph ω) : String → List (Hop ω) → Prop
  | _, [] => True
  | source, h :: rest => g.weightBetween? source h.node = some h.weight ∧ g.Follows h.node rest

structure First (g : Graph ω) (u v e : Nat) (edge : Edge ω) : Prop where
  leaving : e ∈ g.edgesFrom u
  found : g.edges[e]? = some edge
  target : edge.target = v
  le : ∀ d ∈ g.edgesFrom u, ∀ edge', g.edges[d]? = some edge' → edge'.target = v → e ≤ d

theorem exists_first {g : Graph ω} {u e : Nat} {edge : Edge ω} (he : e ∈ g.edgesFrom u)
    (hedge : g.edges[e]? = some edge) :
    ∃ d edge', g.First u edge.target d edge' := by
  classical
  have hsome : ∃ d, d ∈ g.edgesFrom u ∧ ∃ edge', g.edges[d]? = some edge' ∧ edge'.target = edge.target :=
    ⟨e, he, edge, hedge, rfl⟩
  obtain ⟨hd, edge', hdedge, htarget⟩ := Nat.find_spec hsome
  exact ⟨_, edge', hd, hdedge, htarget, fun k hk edge'' hk' ht => Nat.find_min' hsome ⟨hk, edge'', hk', ht⟩⟩

theorem Coherent.weight?_eq_some_iff {g : Graph ω} (hg : g.Coherent) {u v : Nat} {w : ω} :
    g.weight? u v = some w ↔ ∃ e edge, g.First u v e edge ∧ edge.weight = w := by
  have hfirst : ∀ {e edge}, g.First u v e edge → g.weight? u v = some edge.weight := by
    rintro e edge ⟨he, hedge, rfl, hle⟩
    exact hg.weight?_of_first he hedge hle
  constructor
  · intro h
    by_cases hlt : u < g.size ∧ v < g.size
    · have hfind := h
      rw [weight?_of_lt hlt.1 hlt.2] at hfind
      obtain ⟨edge, hedge, -⟩ := Option.map_eq_some_iff.mp hfind
      obtain ⟨e, he, hget⟩ := List.mem_filterMap.mp (List.mem_of_find?_eq_some hedge)
      have htarget : edge.target = v := by simpa using List.find?_some hedge
      obtain ⟨d, edge', hd⟩ := exists_first he hget
      rw [htarget] at hd
      exact ⟨d, edge', hd, Option.some.inj ((hfirst hd).symm.trans h)⟩
    · rw [weight?, if_neg (by simpa [hasIndex] using hlt)] at h
      cases h
  · rintro ⟨e, edge, h, rfl⟩
    exact hfirst h

theorem indexOf?_eq_findIdx? (g : Graph ω) (value : String) :
    g.indexOf? value = (g.nodes.map Node.value).findIdx? (· == value) := by
  rw [List.findIdx?_map]
  rfl

theorem lt_size_of_indexOf? {g : Graph ω} {value : String} {u : Nat} (h : g.indexOf? value = some u) : u < g.size :=
  (List.findIdx?_eq_some_iff_getElem.mp h).1

theorem value_of_indexOf? {g : Graph ω} {value : String} {u : Nat} (h : g.indexOf? value = some u) :
    g.nodes[u]?.map Node.value = some value := by
  obtain ⟨hlt, hvalue, -⟩ := List.findIdx?_eq_some_iff_getElem.mp h
  rw [List.getElem?_eq_getElem hlt, Option.map_some]
  exact congrArg some (eq_of_beq hvalue)

theorem Coherent.indexOf?_eq_some_iff {g : Graph ω} (hg : g.Coherent) {value : String} {u : Nat} :
    g.indexOf? value = some u ↔ g.nodes[u]?.map Node.value = some value := by
  refine ⟨value_of_indexOf?, fun h => ?_⟩
  cases hindex : g.indexOf? value with
  | none =>
    obtain ⟨n, hn, hvalue⟩ := Option.map_eq_some_iff.mp h
    have hno := List.findIdx?_eq_none_iff.mp hindex n (List.mem_of_getElem? hn)
    simp [hvalue] at hno
  | some v =>
    have hv := value_of_indexOf? hindex
    rw [← List.getElem?_map] at h hv
    obtain ⟨hu, -⟩ := List.getElem?_eq_some_iff.mp h
    exact congrArg some ((List.getElem?_inj hu hg.values).mp (h.trans hv.symm)).symm

theorem Coherent.follows_of_reports {g : Graph ω} (hg : g.Coherent) {source : String} {u : Nat} {vs : List Nat}
    {hops : List (Hop ω)} (hu : g.indexOf? source = some u) (h : g.Reports u vs hops) : g.Follows source hops := by
  induction vs generalizing source u hops with
  | nil =>
    cases hops with
    | nil => trivial
    | cons => cases h
  | cons v vs ih =>
    cases hops with
    | nil => cases h
    | cons hop rest =>
      obtain ⟨hvalue, hweight, hrest⟩ := h
      rw [value?_natCast] at hvalue
      have hv := hg.indexOf?_eq_some_iff.mpr hvalue
      exact ⟨by simp only [weightBetween?, hu, hv, hweight], ih hv hrest⟩

theorem Coherent.follows_shortestPath {g : Graph ω} (hg : g.Coherent) {source : String} {s : Nat}
    (hs : g.indexOf? source = some s) (t : Nat) : g.Follows source (g.shortestPath s t) := by
  by_cases hempty : g.shortestPath s t = []
  · rw [hempty]
    trivial
  · obtain ⟨-, es, hleast, hpath⟩ := hg.exists_least hempty
    rw [hpath]
    exact hg.follows_of_reports hs (hg.reports_of_least hleast)

/-- The shortest path between two nodes that an edge joins is the first edge. -/
theorem Coherent.shortestPath_of_weight? {g : Graph ω} (hg : g.Coherent) {s t : Nat} (hne : s ≠ t) {target : String}
    (ht : g.indexOf? target = some t) {w : ω} (hw : g.weight? s t = some w) :
    g.shortestPath s t = [⟨target, w⟩] := by
  obtain ⟨e, edge, hfirst, rfl⟩ := hg.weight?_eq_some_iff.mp hw
  have hedge : g.Walk s [e] t := by
    have h := Walk.along hfirst.leaving hfirst.found (.here _)
    rwa [hfirst.target] at h
  have hleast : g.Least s t [e] := by
    refine ⟨hedge, fun es' h' => ?_⟩
    cases h' with
    | here => exact absurd rfl hne
    | @along _ _ d edge' ds hd hdedge hrest =>
      cases ds with
      | nil =>
        cases hrest
        rcases Nat.lt_or_eq_of_le (hfirst.le d hd edge' hdedge rfl) with hlt | heq
        · exact Or.inr (before_cons_of_lt hlt (Nat.le_refl _))
        · exact Or.inl (by rw [heq])
      | cons => exact Or.inr (List.Shortlex.of_length_lt (by simp))
  rcases shortestPath_least hg hne with ⟨es, hes, hpath⟩ | ⟨hnone, -⟩
  · obtain ⟨n, hn, hvalue⟩ := Option.map_eq_some_iff.mp (value_of_indexOf? ht)
    rw [hpath, ← hleast.unique hes]
    simp [hops, hopAt?, hfirst.found, hfirst.target, hn, hvalue]
  · exact absurd hedge (hnone _)

/-- Nodes that the search joins by more than one edge are not joined by one. -/
theorem Coherent.weight?_eq_none {g : Graph ω} (hg : g.Coherent) {s t : Nat} {target : String}
    (ht : g.indexOf? target = some t) (hlength : 1 < (g.shortestPath s t).length) : g.weight? s t = none := by
  have hne : g.shortestPath s t ≠ [] := List.ne_nil_of_length_pos (by omega)
  obtain ⟨hst, -⟩ := hg.exists_least hne
  cases hw : g.weight? s t with
  | none => rfl
  | some w =>
    rw [hg.shortestPath_of_weight? hst ht hw, List.length_singleton] at hlength
    omega

theorem Coherent.value_of_shortestPath {g : Graph ω} (hg : g.Coherent) {s t : Nat} {hop : Hop ω}
    (h : g.shortestPath s t = [hop]) : g.nodes[t]?.map Node.value = some hop.node := by
  obtain ⟨-, es, hes, hpath⟩ := hg.exists_least (s := s) (t := t) (by simp [h])
  rw [h] at hpath
  have hlength : es.length = 1 := by rw [← hg.length_hops hes.1, ← hpath, List.length_singleton]
  obtain ⟨e, rfl⟩ := List.length_eq_one_iff.mp hlength
  cases hes.1 with
  | along he hedge hrest =>
    cases hrest
    obtain ⟨n, hn⟩ := hg.exists_target hedge
    simp only [hops, hopAt?, List.filterMap_cons, List.filterMap_nil, hedge, hn, Option.map_some] at hpath ⊢
    rw [(List.cons.inj hpath).1]

theorem edgesFrom_link {g : Graph ω} {s t : Nat} (hs : s < g.size) (ht : t < g.size) (weight : ω) (u : Nat) :
    (g.link s t weight).edgesFrom u = g.edgesFrom u ++ if s = u then [g.edges.length] else [] := by
  rw [link_of_lt hs ht]
  simp only [edgesFrom, List.getElem?_modify]
  by_cases hu : s = u
  · subst hu
    have hn : g.nodes[s]? = some g.nodes[s] := List.getElem?_eq_getElem hs
    simp [hn]
  · simp only [if_neg hu]
    cases g.nodes[u]? <;> simp

namespace Extends

variable {g g' g'' : Graph ω}

theorem refl (g : Graph ω) : g.Extends g := ⟨rfl, rfl, List.prefix_refl _, fun _ => ⟨[], by simp⟩⟩

theorem trans (h : g.Extends g') (h' : g'.Extends g'') : g.Extends g'' := by
  refine ⟨h'.name.trans h.name, h'.values.trans h.values, h.edges.trans h'.edges, fun u => ?_⟩
  obtain ⟨new, hnew, hle⟩ := h.leaving u
  obtain ⟨new', hnew', hle'⟩ := h'.leaving u
  refine ⟨new ++ new', by rw [hnew', hnew, List.append_assoc], fun e he => ?_⟩
  rcases List.mem_append.mp he with he | he
  · exact hle e he
  · exact Nat.le_trans h.edges.length_le (hle' e he)

theorem link (g : Graph ω) (s t : Nat) (weight : ω) : g.Extends (g.link s t weight) := by
  by_cases hlt : s < g.size ∧ t < g.size
  · refine ⟨g.id_link s t weight, g.values_link s t weight, ?_, fun u => ⟨_, edgesFrom_link hlt.1 hlt.2 weight u, ?_⟩⟩
    · rw [link_of_lt hlt.1 hlt.2]
      exact List.prefix_append _ _
    · intro e he
      split at he
      · exact Nat.le_of_eq (List.mem_singleton.mp he).symm
      · cases he
  · rw [Graph.link, if_neg hlt]
    exact refl g

theorem value_eq (h : g.Extends g') (u : Nat) : g'.nodes[u]?.map Node.value = g.nodes[u]?.map Node.value := by
  rw [← List.getElem?_map, ← List.getElem?_map, h.values]

theorem indexOf?_eq (h : g.Extends g') (value : String) : g'.indexOf? value = g.indexOf? value := by
  rw [indexOf?_eq_findIdx?, indexOf?_eq_findIdx?, h.values]

theorem edge_eq (h : g.Extends g') {e : Nat} (he : e < g.edges.length) : g'.edges[e]? = g.edges[e]? := by
  obtain ⟨new, hnew⟩ := h.edges
  rw [← hnew, List.getElem?_append_left he]

theorem walk (h : g.Extends g') {s t : Nat} {es : List Nat} (hw : g.Walk s es t) : g'.Walk s es t := by
  induction hw with
  | here u => exact .here u
  | @along u t e edge es he hedge _ ih =>
    have hlt : e < g.edges.length := (List.getElem?_eq_some_iff.mp hedge).1
    obtain ⟨new, hnew, -⟩ := h.leaving u
    exact .along (hnew ▸ List.mem_append_left _ he) ((h.edge_eq hlt).trans hedge) ih

/-- An edge is old if it comes no later than an old edge. -/
theorem mem_edgesFrom (h : g.Extends g') {u e d : Nat} (he : e ∈ g'.edgesFrom u) (hle : e ≤ d)
    (hd : d < g.edges.length) : e ∈ g.edgesFrom u := by
  obtain ⟨new, hnew, hlarge⟩ := h.leaving u
  rcases List.mem_append.mp (hnew ▸ he) with he | he
  · exact he
  · have := hlarge e he
    omega

theorem first (h : g.Extends g') {u v e : Nat} {edge : Edge ω} (hf : g.First u v e edge) : g'.First u v e edge := by
  have hlt : e < g.edges.length := (List.getElem?_eq_some_iff.mp hf.found).1
  obtain ⟨new, hnew, hlarge⟩ := h.leaving u
  refine ⟨hnew ▸ List.mem_append_left _ hf.leaving, (h.edge_eq hlt).trans hf.found, hf.target, ?_⟩
  intro d hd edge' hedge' ht
  by_cases hold : d < g.edges.length
  · exact hf.le d (h.mem_edgesFrom hd (Nat.le_refl d) hold) edge' ((h.edge_eq hold).symm.trans hedge') ht
  · omega

theorem weight? (h : g.Extends g') (hg : g.Coherent) (hg' : g'.Coherent) {u v : Nat} {w : ω}
    (hw : g.weight? u v = some w) : g'.weight? u v = some w := by
  obtain ⟨e, edge, hf, he⟩ := hg.weight?_eq_some_iff.mp hw
  exact hg'.weight?_eq_some_iff.mpr ⟨e, edge, h.first hf, he⟩

theorem weightBetween? (h : g.Extends g') (hg : g.Coherent) (hg' : g'.Coherent) {source target : String} {w : ω}
    (hw : g.weightBetween? source target = some w) : g'.weightBetween? source target = some w := by
  unfold Graph.weightBetween? at hw ⊢
  rw [h.indexOf?_eq, h.indexOf?_eq]
  split at hw
  · exact h.weight? hg hg' hw
  · cases hw

theorem hops_eq (h : g.Extends g') {s t : Nat} {es : List Nat} (hw : g.Walk s es t) : g'.hops es = g.hops es := by
  refine List.filterMap_congr fun e he => ?_
  have hlt : e < g.edges.length := hw.lt_length he
  simp only [hopAt?, h.edge_eq hlt]
  cases g.edges[e]? with
  | none => rfl
  | some edge =>
    have hvalue := h.value_eq edge.target
    cases hn : g.nodes[edge.target]? <;> cases hn' : g'.nodes[edge.target]? <;> simp_all

/-- A least walk between nodes that old edges join, one after another, takes old edges. -/
theorem walk_of_least (h : g.Extends g') (hg : g.Coherent) (hg' : g'.Coherent) {source : String}
    {s t : Nat} {es : List Nat}
    (hs : g.indexOf? source = some s) (hl : g'.Least s t es) (hf : g.Follows source (g'.hops es)) : g.Walk s es t := by
  induction es generalizing source s with
  | nil =>
    cases hl.1
    exact .here _
  | cons e es ih =>
    cases hl.1 with
    | @along _ _ _ edge _ he hedge hrest =>
      obtain ⟨n, hn⟩ := hg'.exists_target hedge
      have hv : g.indexOf? n.value = some edge.target := by
        rw [← h.indexOf?_eq, hg'.indexOf?_eq_some_iff, hn]
        rfl
      have hhops : g'.hops (e :: es) = ⟨n.value, edge.weight⟩ :: g'.hops es := by simp [hops, hopAt?, hedge, hn]
      rw [hhops] at hf
      obtain ⟨hweight, hf⟩ := hf
      simp only [Graph.weightBetween?, hs, hv] at hweight
      obtain ⟨d, edge', hfirst, -⟩ := hg.weight?_eq_some_iff.mp hweight
      have hd : d < g.edges.length := (List.getElem?_eq_some_iff.mp hfirst.found).1
      have hfirst' := h.first hfirst
      -- The new edges have the larger numbers, and a least walk takes the first of the edges that join two
      -- nodes.
      have hle : e ≤ d := hl.head_le hedge hfirst'.leaving hfirst'.found hfirst'.target
      have hold : g.edges[e]? = some edge := (h.edge_eq (by omega)).symm.trans hedge
      exact .along (h.mem_edgesFrom he hle hd) hold (ih hv (hl.tail hedge) hf)

/-- A shortest path without a new edge is the shortest path of the smaller graph. -/
theorem shortestPath_eq (h : g.Extends g') (hg : g.Coherent) (hg' : g'.Coherent) {source : String} {s t : Nat}
    (hs : g.indexOf? source = some s) (hf : g.Follows source (g'.shortestPath s t)) :
    g.shortestPath s t = g'.shortestPath s t := by
  by_cases hne : s = t
  · rw [shortestPath, if_pos hne, shortestPath, if_pos hne]
  · rcases shortestPath_least hg' hne with ⟨es, hl, hpath⟩ | ⟨hnone, hpath⟩
    · rw [hpath] at hf ⊢
      have hw := h.walk_of_least hg hg' hs hl hf
      have hleast : g.Least s t es := ⟨hw, fun es' h' => hl.2 es' (h.walk h')⟩
      rcases shortestPath_least hg hne with ⟨es', hes', hpath'⟩ | ⟨hnone, -⟩
      · rw [hpath', hes'.unique hleast, h.hops_eq hw]
      · exact absurd hw (hnone es)
    · rcases shortestPath_least hg hne with ⟨es, hl, -⟩ | ⟨-, hpath'⟩
      · exact absurd (h.walk hl.1) (hnone es)
      · rw [hpath, hpath']

theorem reaches_iff (h : g.Extends g') (hspans : g.Spans g') (source target : String) :
    g'.Reaches source target ↔ g.Reaches source target := by
  simp only [Reaches, h.indexOf?_eq]
  constructor
  · rintro ⟨s, es', t, hs, ht, hes'⟩
    obtain ⟨es, hes⟩ := hspans s es' t hes'
    exact ⟨s, es, t, hs, ht, hes⟩
  · rintro ⟨s, es, t, hs, ht, hes⟩
    exact ⟨s, es, t, hs, ht, h.walk hes⟩

/-- More edges make no shortest path longer. -/
theorem length_shortestPath_le (h : g.Extends g') (hg : g.Coherent) (hg' : g'.Coherent) {s t : Nat} {ds : List Nat}
    (hds : g.Walk s ds t) : (g'.shortestPath s t).length ≤ (g.shortestPath s t).length := by
  by_cases hst : s = t
  · rw [hg'.shortestPath_eq_nil_iff.mpr (Or.inl hst)]
    exact Nat.zero_le _
  · rcases shortestPath_least hg hst with ⟨es, hes, hpath⟩ | ⟨hno, -⟩
    · rcases shortestPath_least hg' hst with ⟨es', hes', hpath'⟩ | ⟨-, hnil⟩
      · rw [hpath, hpath', hg.length_hops hes.1, hg'.length_hops hes'.1]
        exact (hes'.2 es (h.walk hes.1)).length_le
      · rw [hnil]
        exact Nat.zero_le _
    · exact absurd hds (hno ds)

end Extends

theorem Coherent.lt_length {g : Graph ω} (hg : g.Coherent) {u e : Nat} (he : e ∈ g.edgesFrom u) :
    e < g.edges.length := by
  unfold edgesFrom at he
  cases hn : g.nodes[u]? with
  | none => simp [hn] at he
  | some n =>
    rw [hn] at he
    exact hg.number_lt (List.mem_of_getElem? hn) he

theorem Coherent.spans_link {g : Graph ω} (hg : g.Coherent) {s t : Nat} {ds : List Nat} (h : g.Walk s ds t) (w : ω) :
    g.Spans (g.link s t w) := by
  intro u es v hes
  by_cases hlt : s < g.size ∧ t < g.size
  · induction hes with
    | here u => exact ⟨[], .here u⟩
    | @along u v e edge es he hedge _ ih =>
      obtain ⟨es', hrest⟩ := ih
      rw [edgesFrom_link hlt.1 hlt.2] at he
      rw [link_of_lt hlt.1 hlt.2] at hedge
      rcases List.mem_append.mp he with he | he
      · rw [List.getElem?_append_left (hg.lt_length he)] at hedge
        exact ⟨_, .along he hedge hrest⟩
      · split at he
        · next hsu =>
          obtain rfl := List.mem_singleton.mp he
          obtain rfl : ⟨t, w⟩ = edge := by simpa using hedge
          subst hsu
          -- The walk between its ends takes the place of the new edge.
          exact ⟨_, h.append hrest⟩
        · cases he
  · rw [Graph.link, if_neg hlt] at hes
    exact ⟨es, hes⟩

/-- A new edge between nodes that no edge joins gives them its weight. -/
theorem Coherent.weight?_link {g : Graph ω} (hg : g.Coherent) {s t : Nat} (hs : s < g.size) (ht : t < g.size)
    (hnone : g.weight? s t = none) (w : ω) : (g.link s t w).weight? s t = some w := by
  have hlink := hg.link s t w
  have hmem : g.edges.length ∈ (g.link s t w).edgesFrom s := by
    rw [edgesFrom_link hs ht, if_pos rfl]
    exact List.mem_append_right _ (List.mem_singleton.mpr rfl)
  have hget : (g.link s t w).edges[g.edges.length]? = some ⟨t, w⟩ := by
    rw [link_of_lt hs ht]
    simp
  obtain ⟨d, edge, hfirst⟩ := exists_first hmem hget
  rw [hlink.weight?_eq_some_iff]
  refine ⟨d, edge, hfirst, ?_⟩
  have hle : d ≤ g.edges.length := hfirst.le _ hmem _ hget rfl
  rcases Nat.lt_or_eq_of_le hle with hlt | heq
  · -- An earlier edge would be one of the old graph.
    have hext := Extends.link g s t w
    have hold := hext.mem_edgesFrom hfirst.leaving (Nat.le_refl d) hlt
    have hfound : g.edges[d]? = some edge := (hext.edge_eq hlt).symm.trans hfirst.found
    obtain ⟨k, edge', hk⟩ := exists_first hold hfound
    rw [hfirst.target] at hk
    rw [hg.weight?_eq_some_iff.mpr ⟨k, edge', hk, rfl⟩] at hnone
    cases hnone
  · subst heq
    obtain rfl := Option.some.inj (hget.symm.trans hfirst.found)
    rfl

end Metrology.Graph
