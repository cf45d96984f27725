import Metrology.Proofs.Graph.Walk

/-! # Breadth-first search finds least walks

The invariant of the search is `Searched`: every node reached so far is noted with its least walk, the queue
lists nodes in the order of their walks, and what leads out of the reached nodes leaves from the queue or from
the node that is being expanded. A node that is met for the first time then gets its least walk, because every
other walk to it has to leave the reached nodes at a node that comes later, or by an edge that comes later.
-/
namespace Metrology.Graph

variable {ω : Type}

def path (reached : List Reached) (n : Nat) : List Nat := (trail reached n).map Reached.edge

theorem seen_cons {s n : Nat} {r : Reached} {R : List Reached} :
    seen s (r :: R) n = true ↔ r.node = n ∨ seen s R n = true := by
  simp only [seen, List.any_cons, Bool.or_eq_true, beq_iff_eq]
  tauto

theorem seen_source (s : Nat) (R : List Reached) : seen s R s = true := by simp [seen]

theorem path_cons_self (r : Reached) (R : List Reached) : path (r :: R) r.node = path R r.previous ++ [r.edge] := by
  simp [path, trail]

theorem path_cons_of_ne {r : Reached} {n : Nat} (h : r.node ≠ n) (R : List Reached) : path (r :: R) n = path R n := by
  simp [path, trail, h]

theorem path_cons_of_seen {s n : Nat} {r : Reached} {R : List Reached} (hnew : seen s R r.node = false)
    (hn : seen s R n = true) : path (r :: R) n = path R n := by
  refine path_cons_of_ne ?_ R
  rintro rfl
  simp [hnew] at hn

theorem trail_subset (R : List Reached) (n : Nat) : trail R n ⊆ R := by
  induction R generalizing n with
  | nil => exact fun _ h => h
  | cons r older ih =>
    intro a ha
    simp only [trail] at ha
    split at ha
    · rcases List.mem_append.mp ha with ha | ha
      · exact List.mem_cons_of_mem _ (ih _ ha)
      · exact List.mem_cons.mpr (Or.inl (List.mem_singleton.mp ha))
    · exact List.mem_cons_of_mem _ (ih _ ha)

theorem trail_of_not_reached {R : List Reached} {n : Nat} (h : ∀ r ∈ R, r.node ≠ n) : trail R n = [] := by
  induction R with
  | nil => rfl
  | cons r older ih =>
    rw [trail, if_neg (h r List.mem_cons_self)]
    exact ih fun r hr => h r (List.mem_cons_of_mem _ hr)

def Recorded (g : Graph ω) (R : List Reached) : Prop :=
  ∀ r ∈ R, ∃ edge, g.edges[r.edge]? = some edge ∧ edge.target = r.node

theorem hops_path {g : Graph ω} {R : List Reached} (h : g.Recorded R) (n : Nat) :
    (trail R n).filterMap g.hop? = g.hops (path R n) := by
  rw [hops, path, List.filterMap_map]
  refine List.filterMap_congr fun r hr => ?_
  obtain ⟨edge, hedge, htarget⟩ := h r (trail_subset R n hr)
  simp only [hop?, hopAt?, hedge, Function.comp_apply, ← htarget]
  cases g.nodes[edge.target]? <;> rfl

/-- The state of a search that is expanding the node `x` and has still to follow the edges `es` of it. -/
structure Searched (g : Graph ω) (s : Nat) (f : Frontier) (x : Nat) (es : List Nat) : Prop where
  recorded : g.Recorded f.reached
  least : ∀ y, seen s f.reached y = true → g.Least s y (path f.reached y)
  expanding : seen s f.reached x = true
  queued : ∀ q ∈ f.queue, seen s f.reached q = true
  closed : ∀ y e edge, seen s f.reached y = true → e ∈ g.edgesFrom y → g.edges[e]? = some edge →
    seen s f.reached edge.target = true ∨ y ∈ f.queue ∨ y = x ∧ e ∈ es
  ordered : (x :: f.queue).Pairwise fun a b => Before (path f.reached a) (path f.reached b)
  /-- What is queued was reached from the node that is being expanded or from one before it. -/
  origin : ∀ q ∈ f.queue, ∃ xs e, path f.reached q = xs ++ [e] ∧ NoLater xs (path f.reached x)
  ahead : ∀ q ∈ f.queue, ∀ e ∈ es, Before (path f.reached q) (path f.reached x ++ [e])

namespace Searched

variable {g : Graph ω} {s x e : Nat} {es : List Nat} {f : Frontier} {edge : Edge ω}

theorem start (g : Graph ω) (s : Nat) : g.Searched s ⟨[], []⟩ s (g.edgesFrom s) := by
  have hseen : ∀ y, seen s [] y = true → y = s := by
    intro y hy
    simpa [seen] using hy
  refine ⟨by simp [Recorded], ?_, seen_source s _, by simp, ?_, by simp, by simp, by simp⟩
  · intro y hy
    obtain rfl := hseen y hy
    refine ⟨Walk.here y, fun es' _ => ?_⟩
    rcases List.shortlex_nil_or_eq_nil (r := (· < ·)) es' with h | h
    · exact Or.inr h
    · exact Or.inl h.symm
  · intro y e edge hy he _
    obtain rfl := hseen y hy
    exact Or.inr (Or.inr ⟨rfl, he⟩)

/-- The next node of the queue is expanded once the one before it is done. -/
theorem next {q : Nat} {queue : List Nat} {R : List Reached} (h : g.Searched s ⟨q :: queue, R⟩ x []) :
    g.Searched s ⟨queue, R⟩ q (g.edgesFrom q) := by
  obtain ⟨hbefore, hordered⟩ := List.pairwise_cons.mp h.ordered
  have hxq : Before (path R x) (path R q) := hbefore q List.mem_cons_self
  refine ⟨h.recorded, h.least, h.queued q List.mem_cons_self, ?_, ?_, hordered, ?_, ?_⟩
  · exact fun p hp => h.queued p (List.mem_cons_of_mem _ hp)
  · intro y e edge hy he hedge
    rcases h.closed y e edge hy he hedge with h | h | ⟨_, h⟩
    · exact Or.inl h
    · rcases List.mem_cons.mp h with rfl | h
      · exact Or.inr (Or.inr ⟨rfl, he⟩)
      · exact Or.inr (Or.inl h)
    · cases h
  · intro p hp
    obtain ⟨xs, e, hpath, hle⟩ := h.origin p (List.mem_cons_of_mem _ hp)
    exact ⟨xs, e, hpath, Or.inr (hle.trans_before hxq)⟩
  · intro p hp e _
    obtain ⟨xs, d, hpath, hle⟩ := h.origin p (List.mem_cons_of_mem _ hp)
    dsimp only at hpath hle ⊢
    rw [hpath]
    exact (hle.trans_before hxq).append (Nat.le_refl _)

/-- An edge to a node that has been seen leads nowhere new, and neither does a number without an edge. -/
theorem skip (h : g.Searched s f x (e :: es))
    (hseen : ∀ edge, g.edges[e]? = some edge → seen s f.reached edge.target = true) : g.Searched s f x es := by
  refine ⟨h.recorded, h.least, h.expanding, h.queued, ?_, h.ordered, h.origin, ?_⟩
  · intro y d edge hy hd hedge
    rcases h.closed y d edge hy hd hedge with h | h | ⟨hy, hd⟩
    · exact Or.inl h
    · exact Or.inr (Or.inl h)
    · rcases List.mem_cons.mp hd with rfl | hd
      · exact Or.inl (hseen edge hedge)
      · exact Or.inr (Or.inr ⟨hy, hd⟩)
  · exact fun q hq d hd => h.ahead q hq d (List.mem_cons_of_mem _ hd)

/-- The walk by which a node is met for the first time is its least one. -/
theorem least_new (h : g.Searched s f x (e :: es)) (hes : (e :: es).Pairwise (· < ·)) (he : e ∈ g.edgesFrom x)
    (hedge : g.edges[e]? = some edge) (hnew : seen s f.reached edge.target = false) :
    g.Least s edge.target (path f.reached x ++ [e]) := by
  have hx := h.least x h.expanding
  refine ⟨hx.1.snoc he hedge, ?_⟩
  intro ws hws
  obtain ⟨xs, d, ys, u, edge', rfl, hxs, hu, hd, hdedge, hout⟩ :=
    hws.leaves (fun n => seen s f.reached n = true) (seen_source s _) (by simp [hnew])
  -- Any other walk leaves the reached nodes: from the queue, or from `x` by this edge or a later one.
  have hle : NoLater (path f.reached u) xs := (h.least u hu).2 xs hxs
  have hlen : [e].length ≤ (d :: ys).length := by simp
  rcases h.closed u d edge' hu hd hdedge with hseen | hqueue | ⟨rfl, hd⟩
  · exact absurd hseen hout
  · have hxu : Before (path f.reached x) (path f.reached u) := (List.pairwise_cons.mp h.ordered).1 u hqueue
    exact Or.inr ((hxu.trans_noLater hle).append hlen)
  · rcases hle with rfl | hlt
    · rcases List.mem_cons.mp hd with rfl | hd
      · cases ys with
        | nil => exact Or.inl rfl
        | cons k ys => exact Or.inr (List.Shortlex.of_length_lt (by simp))
      · have hlt : e < d := (List.pairwise_cons.mp hes).1 d hd
        exact Or.inr (List.Shortlex.append_left (before_cons_of_lt hlt (Nat.zero_le _)) _)
    · exact Or.inr (hlt.append hlen)

/-- What is expanded or queued keeps its path when a new node is noted. -/
theorem path_kept (h : g.Searched s f x (e :: es)) (hnew : seen s f.reached edge.target = false) {q : Nat}
    (hq : q ∈ x :: f.queue) : path (⟨edge.target, x, e⟩ :: f.reached) q = path f.reached q := by
  rcases List.mem_cons.mp hq with rfl | hq
  · exact path_cons_of_seen hnew h.expanding
  · exact path_cons_of_seen hnew (h.queued q hq)

theorem closed_reach (h : g.Searched s f x (e :: es)) (hedge : g.edges[e]? = some edge) {y d : Nat} {edge' : Edge ω}
    (hy : seen s (⟨edge.target, x, e⟩ :: f.reached) y = true) (hd : d ∈ g.edgesFrom y)
    (hdedge : g.edges[d]? = some edge') :
    seen s (⟨edge.target, x, e⟩ :: f.reached) edge'.target = true ∨ y ∈ f.queue ++ [edge.target] ∨ y = x ∧ d ∈ es := by
  rcases seen_cons.mp hy with rfl | hy
  · exact Or.inr (Or.inl (List.mem_append_right _ (List.mem_singleton.mpr rfl)))
  · rcases h.closed y d edge' hy hd hdedge with h | h | ⟨rfl, hd⟩
    · exact Or.inl (seen_cons.mpr (Or.inr h))
    · exact Or.inr (Or.inl (List.mem_append_left _ h))
    · rcases List.mem_cons.mp hd with rfl | hd
      · obtain rfl := Option.some.inj (hedge.symm.trans hdedge)
        exact Or.inl (seen_cons.mpr (Or.inl rfl))
      · exact Or.inr (Or.inr ⟨rfl, hd⟩)

/-- The walk to the new node comes after the walks to all nodes before it on the queue. -/
theorem ordered_reach (h : g.Searched s f x (e :: es)) (hnew : seen s f.reached edge.target = false) :
    (x :: (f.queue ++ [edge.target])).Pairwise fun a b =>
      Before (path (⟨edge.target, x, e⟩ :: f.reached) a) (path (⟨edge.target, x, e⟩ :: f.reached) b) := by
  have hpath : path (⟨edge.target, x, e⟩ :: f.reached) edge.target = path f.reached x ++ [e] := path_cons_self _ _
  have hlast : ∀ q ∈ x :: f.queue, Before (path f.reached q) (path f.reached x ++ [e]) := by
    intro q hq
    rcases List.mem_cons.mp hq with rfl | hq
    · exact List.Shortlex.of_length_lt (by simp)
    · exact h.ahead q hq e List.mem_cons_self
  rw [← List.cons_append]
  refine List.pairwise_append.mpr ⟨h.ordered.imp_of_mem ?_, List.pairwise_singleton _ _, ?_⟩
  · intro a b ha hb hab
    rw [h.path_kept hnew ha, h.path_kept hnew hb]
    exact hab
  · intro q hq p hp
    obtain rfl := List.mem_singleton.mp hp
    rw [h.path_kept hnew hq, hpath]
    exact hlast q hq

/-- A node that is met for the first time joins the queue at its end. -/
theorem reach (h : g.Searched s f x (e :: es)) (hes : (e :: es).Pairwise (· < ·)) (he : e ∈ g.edgesFrom x)
    (hedge : g.edges[e]? = some edge) (hnew : seen s f.reached edge.target = false) :
    g.Searched s ⟨f.queue ++ [edge.target], ⟨edge.target, x, e⟩ :: f.reached⟩ x es := by
  have hpath : path (⟨edge.target, x, e⟩ :: f.reached) edge.target = path f.reached x ++ [e] := path_cons_self _ _
  have hx := h.path_kept hnew List.mem_cons_self
  have hq : ∀ q ∈ f.queue, path (⟨edge.target, x, e⟩ :: f.reached) q = path f.reached q :=
    fun q hq => h.path_kept hnew (List.mem_cons_of_mem x hq)
  refine ⟨?_, ?_, seen_cons.mpr (Or.inr h.expanding), ?_, fun _ _ _ hy hd => h.closed_reach hedge hy hd,
    h.ordered_reach hnew, ?_, ?_⟩
  · intro r hr
    rcases List.mem_cons.mp hr with rfl | hr
    · exact ⟨edge, hedge, rfl⟩
    · exact h.recorded r hr
  · intro y hy
    rcases seen_cons.mp hy with rfl | hy
    · rw [hpath]
      exact h.least_new hes he hedge hnew
    · rw [path_cons_of_seen hnew hy]
      exact h.least y hy
  · intro q hmem
    rcases List.mem_append.mp hmem with hmem | hmem
    · exact seen_cons.mpr (Or.inr (h.queued q hmem))
    · exact seen_cons.mpr (Or.inl (List.mem_singleton.mp hmem).symm)
  · intro q hmem
    dsimp only
    rw [hx]
    rcases List.mem_append.mp hmem with hmem | hmem
    · rw [hq q hmem]
      exact h.origin q hmem
    · obtain rfl := List.mem_singleton.mp hmem
      exact ⟨_, e, hpath, Or.inl rfl⟩
  · intro q hmem d hd
    dsimp only
    rw [hx]
    rcases List.mem_append.mp hmem with hmem | hmem
    · rw [hq q hmem]
      exact h.ahead q hmem d (List.mem_cons_of_mem _ hd)
    · obtain rfl := List.mem_singleton.mp hmem
      rw [hpath]
      exact Before.append_singleton _ ((List.pairwise_cons.mp hes).1 d hd)

end Searched

structure Found (g : Graph ω) (s t : Nat) (R : List Reached) : Prop where
  recorded : g.Recorded R
  least : g.Least s t (path R t)

/-- A round ends with the target or with all edges of its node followed. -/
theorem visit_searched {g : Graph ω} {s t x : Nat} {es : List Nat} {f : Frontier} (h : g.Searched s f x es)
    (hes : es.Pairwise (· < ·)) (hsub : ∀ e ∈ es, e ∈ g.edgesFrom x) (ht : seen s f.reached t = false) :
    (seen s (g.visit s t x es f).reached t = true ∧ g.Found s t (g.visit s t x es f).reached) ∨
      (seen s (g.visit s t x es f).reached t = false ∧ g.Searched s (g.visit s t x es f) x []) := by
  induction es generalizing f with
  | nil => exact Or.inr ⟨ht, h⟩
  | cons e rest ih =>
    have hrest := (List.pairwise_cons.mp hes).2
    have hsub' : ∀ d ∈ rest, d ∈ g.edgesFrom x := fun d hd => hsub d (List.mem_cons_of_mem _ hd)
    have he := hsub e List.mem_cons_self
    unfold visit
    cases hedge : g.edges[e]? with
    | none => exact ih (h.skip (by simp [hedge])) hrest hsub' ht
    | some edge =>
      dsimp only
      split
      · rename_i hseen
        refine ih (h.skip ?_) hrest hsub' ht
        intro edge' hedge'
        obtain rfl := Option.some.inj (hedge.symm.trans hedge')
        exact hseen
      · rename_i hnew
        have hnew := Bool.eq_false_iff.mpr hnew
        have hreach := h.reach hes he hedge hnew
        split
        · rename_i htarget
          have hseen : seen s (⟨edge.target, x, e⟩ :: f.reached) t = true := seen_cons.mpr (Or.inl htarget)
          exact Or.inl ⟨hseen, hreach.recorded, hreach.least t hseen⟩
        · rename_i htarget
          refine ih hreach hrest hsub' (Bool.eq_false_iff.mpr fun hseen => ?_)
          rcases seen_cons.mp hseen with hseen | hseen
          · exact htarget hseen
          · simp [ht] at hseen

theorem reached_any {s t : Nat} (hne : s ≠ t) (R : List Reached) :
    (R.any fun r => r.node == t) = seen s R t := by
  simp [seen, Ne.symm hne]

theorem explore_of_seen {g : Graph ω} {s t : Nat} (hne : s ≠ t) {f : Frontier} (h : seen s f.reached t = true) :
    g.explore s t f = f.reached := by
  unfold explore
  split
  · rfl
  · rw [reached_any hne, if_pos h]

/-- From any state between two rounds the search finds the target if a walk leads to it, and else nothing. -/
theorem explore_searched {g : Graph ω} (hg : g.Coherent) {s t x : Nat} (hne : s ≠ t) {f : Frontier}
    (h : g.Searched s f x []) (ht : seen s f.reached t = false) :
    g.Found s t (g.explore s t f) ∨ (∀ es, ¬ g.Walk s es t) ∧ ∀ r ∈ g.explore s t f, r.node ≠ t := by
  fun_induction explore g s t f generalizing x with
  | case1 f hqueue =>
    -- With nothing queued no edge leads out of the reached nodes.
    refine Or.inr ⟨fun es hes => ?_, fun r hr hrt => ?_⟩
    · obtain ⟨xs, e, ys, u, edge, -, -, hu, he, hedge, hout⟩ :=
        hes.leaves (fun n => seen s f.reached n = true) (seen_source s _) (by simp [ht])
      rcases h.closed u e edge hu he hedge with h | h | ⟨_, h⟩
      · exact hout h
      · simp [hqueue] at h
      · cases h
    · rw [← reached_any hne, List.any_eq_false] at ht
      exact ht r hr (by simp [hrt])
  | case2 f node queue hqueue hreached =>
    rw [reached_any hne, ht] at hreached
    cases hreached
  | case3 f node queue hqueue hreached _ _ ih =>
    have hnext : g.Searched s ⟨queue, f.reached⟩ node (g.edgesFrom node) := by
      rw [show f = ⟨node :: queue, f.reached⟩ by rw [← hqueue]] at h
      exact h.next
    rcases visit_searched hnext (hg.ascending_edgesFrom node) (fun _ he => he) ht with ⟨hseen, hfound⟩ | ⟨hseen, hround⟩
    · rw [explore_of_seen hne hseen]
      exact Or.inl hfound
    · exact ih hround hseen

/-- The shortest path of the search is the least walk, and there is none only if no walk leads to the
target. -/
theorem shortestPath_least {g : Graph ω} (hg : g.Coherent) {s t : Nat} (hne : s ≠ t) :
    (∃ es, g.Least s t es ∧ g.shortestPath s t = g.hops es) ∨
      (∀ es, ¬ g.Walk s es t) ∧ g.shortestPath s t = [] := by
  have hround := visit_searched (Searched.start g s) (hg.ascending_edgesFrom s) (fun _ he => he)
    (t := t) (by simp [seen, Ne.symm hne])
  have hfirst : g.explore s t ⟨[s], []⟩ = g.explore s t (g.visit s t s (g.edgesFrom s) ⟨[], []⟩) := by
    rw [explore]
    rfl
  have hexplore : g.Found s t (g.explore s t ⟨[s], []⟩) ∨
      (∀ es, ¬ g.Walk s es t) ∧ ∀ r ∈ g.explore s t ⟨[s], []⟩, r.node ≠ t := by
    rw [hfirst]
    rcases hround with ⟨hseen, hfound⟩ | ⟨hseen, hround⟩
    · rw [explore_of_seen hne hseen]
      exact Or.inl hfound
    · exact explore_searched hg hne hround hseen
  rw [shortestPath, if_neg hne]
  rcases hexplore with hfound | ⟨hnone, hunreached⟩
  · exact Or.inl ⟨_, hfound.least, hops_path hfound.recorded t⟩
  · exact Or.inr ⟨hnone, by rw [trail_of_not_reached hunreached]; rfl⟩

/-- A path that is not empty leads to another node, along the least walk. -/
theorem Coherent.exists_least {g : Graph ω} (hg : g.Coherent) {s t : Nat} (h : g.shortestPath s t ≠ []) :
    s ≠ t ∧ ∃ es, g.Least s t es ∧ g.shortestPath s t = g.hops es := by
  have hne : s ≠ t := fun hst => h (if_pos hst)
  exact ⟨hne, (shortestPath_least hg hne).resolve_right fun hnone => h hnone.2⟩

theorem Coherent.shortestPath_eq_nil_iff {g : Graph ω} (hg : g.Coherent) {s t : Nat} :
    g.shortestPath s t = [] ↔ s = t ∨ ∀ es, ¬ g.Walk s es t := by
  constructor
  · intro hnil
    by_contra hboth
    obtain ⟨hne, hsome⟩ := not_or.mp hboth
    rcases shortestPath_least hg hne with ⟨es, hes, hpath⟩ | ⟨hnone, -⟩
    · have hlength := hg.length_hops hes.1
      rw [← hpath, hnil] at hlength
      obtain rfl := List.eq_nil_of_length_eq_zero hlength.symm
      cases hes.1
      exact hne rfl
    · exact hsome hnone
  · rintro (hst | hnone)
    · exact if_pos hst
    · by_contra hfull
      obtain ⟨-, es, hes, -⟩ := hg.exists_least hfull
      exact hnone es hes.1

/-- A graph that calls of `addNode` and `addEdge` have made out of an empty one. -/
def Grown (g : Graph ω) : Prop := ∃ id calls, g = (empty id).growAll calls

theorem Grown.coherent {g : Graph ω} (hg : g.Grown) : g.Coherent := by
  obtain ⟨id, calls, rfl⟩ := hg
  exact (coherent_empty id).growAll calls

theorem pathFrom?_of_lt {g : Graph ω} {s : Nat} (hs : s < g.size) (t : Nat) :
    g.pathFrom? s t = some (g.shortestPath s t) := by
  by_cases h : s = t
  · simp [pathFrom?, shortestPath, h]
  · have hneg : ¬ (s : Int) < 0 := by omega
    simp [pathFrom?, h, hs, hneg]

/-- Between nodes of a graph the search always answers. The answer is empty if the nodes are the same or no
walk joins them; else it reports a walk with the fewest edges, which meets no node twice, by the value of each
node and the weight of the first edge that leads to it from the node before. -/
theorem shortestPath_spec {g : Graph ω} (hg : g.Grown) {s t : Nat} (hs : s < g.size) (ht : t < g.size) :
    g.pathFrom? s t = some (g.shortestPath s t) ∧
      (g.shortestPath s t = [] ↔ s = t ∨ ∀ es, ¬ g.Walk s es t) ∧
      (g.shortestPath s t ≠ [] → ∃ es, g.Walk s es t ∧ (∀ es', g.Walk s es' t → es.length ≤ es'.length) ∧
        (s :: g.stops es).Nodup ∧ g.Reports s (g.stops es) (g.shortestPath s t)) := by
  refine ⟨pathFrom?_of_lt hs t, ?_⟩
  by_cases hne : s = t
  · have hempty : g.shortestPath s t = [] := by rw [shortestPath, if_pos hne]
    exact ⟨⟨fun _ => Or.inl hne, fun _ => hempty⟩, fun h => absurd hempty h⟩
  · rcases shortestPath_least hg.coherent hne with ⟨es, hleast, hpath⟩ | ⟨hnone, hpath⟩
    · have hlen : (g.shortestPath s t).length = es.length := by rw [hpath, hg.coherent.length_hops hleast.1]
      have hfull : g.shortestPath s t ≠ [] := by
        intro h
        rw [h] at hlen
        obtain rfl := List.eq_nil_of_length_eq_zero hlen.symm
        cases hleast.1
        exact hne rfl
      refine ⟨⟨fun h => absurd h hfull, ?_⟩, fun _ => ⟨es, hleast.1, fun es' h' => (hleast.2 es' h').length_le, ?_, ?_⟩⟩
      · rintro (h | h)
        · exact absurd h hne
        · exact absurd hleast.1 (h es)
      · exact nodup_of_fewest hleast.1 fun es' h' => (hleast.2 es' h').length_le
      · rw [hpath]
        exact hg.coherent.reports_of_least hleast
    · exact ⟨⟨fun _ => Or.inr hnone, fun _ => hpath⟩, fun h => absurd hpath h⟩

/-- Two ways of two edges lead from the first node to the last; the first edge of the one that is taken has a
twin, and one node has an edge to itself. -/
def crossing : Graph Nat :=
  (empty "crossing").growAll
    [.node "a", .node "b", .node "c", .node "d", .edge 0 0 1, .edge 0 2 2, .edge 0 2 3, .edge 0 1 4, .edge 1 3 5,
      .edge 2 3 6, .edge 3 9 7]

theorem shortestPath_spec_crossing :
    (crossing.Grown ∧ 0 < crossing.size ∧ 3 < crossing.size) ∧
      ∃ es, crossing.Walk 0 es 3 ∧ (∀ es', crossing.Walk 0 es' 3 → es.length ≤ es'.length) ∧
        (0 :: crossing.stops es).Nodup ∧ crossing.Reports 0 (crossing.stops es) [⟨"c", 2⟩, ⟨"d", 6⟩] := by
  have hgrown : crossing.Grown := ⟨_, _, rfl⟩
  have hs : 0 < crossing.size := by decide
  have ht : 3 < crossing.size := by decide
  have hpath : crossing.shortestPath 0 3 = [⟨"c", 2⟩, ⟨"d", 6⟩] := by decide +kernel
  have hspec := (shortestPath_spec hgrown hs ht).2.2
  rw [hpath] at hspec
  exact ⟨⟨hgrown, hs, ht⟩, hspec (by simp)⟩

end Metrology.Graph
