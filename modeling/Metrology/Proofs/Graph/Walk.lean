import Mathlib.Data.List.Shortlex
import Metrology.Graph.Search
import Metrology.Proofs.Graph.Growth

/-! # Walks and their order

A walk is the list of the numbers of its edges. Walks from one node are ordered by length and then by their
first difference, so the least walk between two nodes has the fewest edges and, of the edges that join the
same nodes, takes the one that was added first.
-/
namespace Metrology.Graph

variable {ω : Type}

inductive Walk (g : Graph ω) : Nat → List Nat → Nat → Prop where
  | here (u : Nat) : Walk g u [] u
  | along {u t e : Nat} {edge : Edge ω} {es : List Nat} (he : e ∈ g.edgesFrom u) (hedge : g.edges[e]? = some edge)
      (hrest : Walk g edge.target es t) : Walk g u (e :: es) t

def stops (g : Graph ω) (es : List Nat) : List Nat := es.filterMap fun e => g.edges[e]?.map Edge.target

def hopAt? (g : Graph ω) (e : Nat) : Option (Hop ω) :=
  match g.edges[e]? with
  | some edge => g.nodes[edge.target]?.map fun n => ⟨n.value, edge.weight⟩
  | none => none

def hops (g : Graph ω) (es : List Nat) : List (Hop ω) := es.filterMap g.hopAt?

/-- Hops that name the given nodes one after another, each with the weight of the first edge from the node
before it. -/
def Reports (g : Graph ω) : Nat → List Nat → List (Hop ω) → Prop
  | _, [], [] => True
  | u, v :: vs, h :: hs => g.value? v = some h.node ∧ g.weight? u v = some h.weight ∧ g.Reports v vs hs
  | _, _, _ => False

/-- The order of walks: fewer edges first, then by the first difference. -/
def Before (xs ys : List Nat) : Prop := List.Shortlex (· < ·) xs ys

def NoLater (xs ys : List Nat) : Prop := xs = ys ∨ Before xs ys

def Least (g : Graph ω) (source target : Nat) (es : List Nat) : Prop :=
  g.Walk source es target ∧ ∀ es', g.Walk source es' target → NoLater es es'

theorem before_iff {xs ys : List Nat} :
    Before xs ys ↔ xs.length < ys.length ∨ xs.length = ys.length ∧ List.Lex (· < ·) xs ys :=
  List.shortlex_def

theorem Before.trans {xs ys zs : List Nat} (h : Before xs ys) (h' : Before ys zs) : Before xs zs := by
  rw [before_iff] at h h' ⊢
  rcases h with h | ⟨hl, h⟩
  · rcases h' with h' | ⟨hl', _⟩ <;> exact Or.inl (by omega)
  · rcases h' with h' | ⟨hl', h'⟩
    · exact Or.inl (by omega)
    · refine Or.inr ⟨hl.trans hl', ?_⟩
      rw [← List.lt_iff_lex_lt] at h h' ⊢
      exact List.lt_trans h h'

theorem Before.irrefl (xs : List Nat) : ¬ Before xs xs := fun h =>
  (Std.Asymm.asymm (r := List.Shortlex (· < ·)) xs xs h) h

theorem NoLater.trans_before {xs ys zs : List Nat} (h : NoLater xs ys) (h' : Before ys zs) : Before xs zs := by
  rcases h with rfl | h
  · exact h'
  · exact h.trans h'

theorem Before.trans_noLater {xs ys zs : List Nat} (h : Before xs ys) (h' : NoLater ys zs) : Before xs zs := by
  rcases h' with rfl | h'
  · exact h
  · exact h.trans h'

theorem NoLater.length_le {xs ys : List Nat} (h : NoLater xs ys) : xs.length ≤ ys.length := by
  rcases h with rfl | h
  · exact Nat.le_refl _
  · rcases before_iff.mp h with h | ⟨h, _⟩ <;> omega

theorem NoLater.antisymm {xs ys : List Nat} (h : NoLater xs ys) (h' : NoLater ys xs) : xs = ys := by
  rcases h with h | h
  · exact h
  · exact absurd (h.trans_noLater h') (Before.irrefl xs)

theorem lex_append {xs ys : List Nat} (h : List.Lex (· < ·) xs ys) (hl : xs.length = ys.length) (us vs : List Nat) :
    List.Lex (· < ·) (xs ++ us) (ys ++ vs) := by
  induction h with
  | nil => simp at hl
  | rel h => exact List.Lex.rel h
  | cons _ ih => exact List.Lex.cons (ih (by simpa using hl))

/-- Going on by as many edges, or more, keeps the order. -/
theorem Before.append {xs ys : List Nat} (h : Before xs ys) {us vs : List Nat} (hl : us.length ≤ vs.length) :
    Before (xs ++ us) (ys ++ vs) := by
  rcases before_iff.mp h with h | ⟨he, h⟩
  · exact List.Shortlex.of_length_lt (by simp only [List.length_append]; omega)
  · rcases Nat.lt_or_eq_of_le hl with hl | hl
    · exact List.Shortlex.of_length_lt (by simp only [List.length_append]; omega)
    · exact List.Shortlex.of_lex (by simp [he, hl]) (lex_append h he us vs)

theorem Before.append_singleton (xs : List Nat) {d e : Nat} (h : d < e) : Before (xs ++ [d]) (xs ++ [e]) :=
  List.Shortlex.append_left ((List.shortlex_singleton_iff d e).mpr h) xs

theorem before_cons_of_lt {d e : Nat} (h : d < e) {xs ys : List Nat} (hl : xs.length ≤ ys.length) :
    Before (d :: xs) (e :: ys) :=
  Before.append ((List.shortlex_singleton_iff d e).mpr h) hl

theorem NoLater.of_cons {e : Nat} {xs ys : List Nat} (h : NoLater (e :: xs) (e :: ys)) : NoLater xs ys := by
  rcases h with h | h
  · exact Or.inl (List.cons.inj h).2
  · exact Or.inr (List.Shortlex.of_cons h)

namespace Walk

variable {g : Graph ω} {s t u v : Nat} {xs ys es : List Nat}

theorem snoc {e : Nat} {edge : Edge ω} (h : g.Walk s es u) (he : e ∈ g.edgesFrom u) (hedge : g.edges[e]? = some edge) :
    g.Walk s (es ++ [e]) edge.target := by
  induction h with
  | here u => exact along he hedge (here _)
  | along hd hdedge _ ih => exact along hd hdedge (ih he)

theorem append (h : g.Walk s xs u) (h' : g.Walk u ys t) : g.Walk s (xs ++ ys) t := by
  induction h with
  | here u => exact h'
  | along he hedge _ ih => exact along he hedge (ih h')

theorem lt_length {e : Nat} (h : g.Walk s es t) (he : e ∈ es) : e < g.edges.length := by
  induction h with
  | here u => cases he
  | along _ hedge _ ih =>
    rcases List.mem_cons.mp he with rfl | he
    · exact (List.getElem?_eq_some_iff.mp hedge).1
    · exact ih he

/-- A walk out of a set of nodes takes an edge that leads out of it. -/
theorem leaves (P : Nat → Prop) (h : g.Walk s es t) (hs : P s) (ht : ¬ P t) :
    ∃ xs e ys u edge, es = xs ++ e :: ys ∧ g.Walk s xs u ∧ P u ∧ e ∈ g.edgesFrom u ∧ g.edges[e]? = some edge ∧
      ¬ P edge.target := by
  induction h with
  | here u => exact absurd hs ht
  | @along u t e edge es he hedge hrest ih =>
    by_cases hp : P edge.target
    · obtain ⟨xs, d, ys, w, edge', rfl, hw, hrest⟩ := ih hp ht
      exact ⟨e :: xs, d, ys, w, edge', rfl, along he hedge hw, hrest⟩
    · exact ⟨[], e, es, u, edge, rfl, here u, hs, he, hedge, hp⟩

/-- From every node on its way a walk goes on to its end, by fewer edges. -/
theorem from_stop (h : g.Walk s es t) (hu : u ∈ g.stops es) : ∃ ys, g.Walk u ys t ∧ ys.length < es.length := by
  induction h with
  | here u => simp [stops] at hu
  | @along s t e edge es he hedge hrest ih =>
    simp only [stops, List.filterMap_cons, hedge, Option.map_some, List.mem_cons] at hu
    rcases hu with rfl | hu
    · exact ⟨es, hrest, by simp⟩
    · obtain ⟨ys, hy, hl⟩ := ih hu
      exact ⟨ys, hy, by simp only [List.length_cons]; omega⟩

end Walk

/-- A walk with the fewest edges meets no node twice. -/
theorem nodup_of_fewest {g : Graph ω} {s t : Nat} {es : List Nat} (h : g.Walk s es t)
    (hmin : ∀ es', g.Walk s es' t → es.length ≤ es'.length) : (s :: g.stops es).Nodup := by
  induction h with
  | here u => simp [stops]
  | @along s t e edge es he hedge hrest ih =>
    have hnot : s ∉ g.stops (e :: es) := by
      intro hs
      obtain ⟨ys, hy, hl⟩ := (Walk.along he hedge hrest).from_stop hs
      exact absurd (hmin ys hy) (by omega)
    have htail := ih fun es' h' => by simpa using hmin (e :: es') (Walk.along he hedge h')
    refine List.nodup_cons.mpr ⟨hnot, ?_⟩
    simpa only [stops, List.filterMap_cons, hedge, Option.map_some] using htail

namespace Least

variable {g : Graph ω} {s t e : Nat} {edge : Edge ω} {es es' : List Nat}

theorem unique (h : g.Least s t es) (h' : g.Least s t es') : es = es' := (h.2 _ h'.1).antisymm (h'.2 _ h.1)

theorem tail (h : g.Least s t (e :: es)) (hedge : g.edges[e]? = some edge) : g.Least edge.target t es := by
  obtain ⟨hwalk, hmin⟩ := h
  cases hwalk with
  | along he hedge' hrest =>
    obtain rfl := Option.some.inj (hedge.symm.trans hedge')
    exact ⟨hrest, fun es' h' => (hmin _ (Walk.along he hedge h')).of_cons⟩

/-- Of the edges between the ends of its first hop, a least walk takes the first. -/
theorem head_le (h : g.Least s t (e :: es)) (hedge : g.edges[e]? = some edge) {d : Nat} {edge' : Edge ω}
    (hd : d ∈ g.edgesFrom s) (hdedge : g.edges[d]? = some edge') (htarget : edge'.target = edge.target) : e ≤ d := by
  obtain ⟨hwalk, hmin⟩ := h
  cases hwalk with
  | along he hedge₁ hrest =>
    obtain rfl := Option.some.inj (hedge.symm.trans hedge₁)
    by_contra hlt
    have hother : g.Walk s (d :: es) t := Walk.along hd hdedge (htarget ▸ hrest)
    have hbefore : Before (d :: es) (e :: es) := before_cons_of_lt (by omega) (Nat.le_refl _)
    exact Before.irrefl _ (hbefore.trans_noLater (hmin _ hother))

end Least

theorem lt_size_of_mem_edgesFrom {g : Graph ω} {u e : Nat} (h : e ∈ g.edgesFrom u) : u < g.size := by
  unfold edgesFrom at h
  cases hn : g.nodes[u]? with
  | none => simp [hn] at h
  | some n => exact (List.getElem?_eq_some_iff.mp hn).1

theorem weight?_of_lt {g : Graph ω} {u v : Nat} (hu : u < g.size) (hv : v < g.size) :
    g.weight? u v =
      (((g.edgesFrom u).filterMap fun e => g.edges[e]?).find? fun edge => edge.target == v).map Edge.weight := by
  simp [weight?, hasIndex, hu, hv]

theorem value?_natCast (g : Graph ω) (v : Nat) : g.value? v = g.nodes[v]?.map Node.value := by
  have hneg : ¬ (v : Int) < 0 := by omega
  simp [value?, hneg]

theorem find?_of_first {edges : List (Edge ω)} {v e : Nat} {edge : Edge ω} {ds : List Nat} (hds : ds.Pairwise (· < ·))
    (he : e ∈ ds) (hedge : edges[e]? = some edge) (htarget : edge.target = v)
    (hfirst : ∀ d ∈ ds, ∀ edge', edges[d]? = some edge' → edge'.target = v → e ≤ d) :
    ((ds.filterMap fun d => edges[d]?).find? fun edge => edge.target == v) = some edge := by
  induction ds with
  | nil => cases he
  | cons d rest ih =>
    by_cases hde : d = e
    · subst hde
      simp [hedge, htarget]
    · have hmem : e ∈ rest := (List.mem_cons.mp he).resolve_left (Ne.symm hde)
      have hlt : d < e := (List.pairwise_cons.mp hds).1 e hmem
      have htail := ih (List.pairwise_cons.mp hds).2 hmem fun k hk => hfirst k (List.mem_cons_of_mem _ hk)
      cases hd : edges[d]? with
      | none => simpa [hd] using htail
      | some edge' =>
        have hne : edge'.target ≠ v := by
          intro h
          have := hfirst d List.mem_cons_self edge' hd h
          omega
        simpa [hd, hne] using htail

namespace Coherent

variable {g : Graph ω} (hg : g.Coherent)
include hg

theorem ascending_edgesFrom (u : Nat) : (g.edgesFrom u).Pairwise (· < ·) := by
  unfold edgesFrom
  cases h : g.nodes[u]? with
  | none => exact List.Pairwise.nil
  | some n => exact hg.ascending n (List.mem_of_getElem? h)

theorem exists_target {e : Nat} {edge : Edge ω} (hedge : g.edges[e]? = some edge) :
    ∃ n, g.nodes[edge.target]? = some n :=
  ⟨_, List.getElem?_eq_getElem (hg.targets edge (List.mem_of_getElem? hedge))⟩

theorem length_hops {s t : Nat} {es : List Nat} (h : g.Walk s es t) : (g.hops es).length = es.length := by
  induction h with
  | here u => rfl
  | along he hedge _ ih =>
    obtain ⟨n, hn⟩ := hg.exists_target hedge
    simpa [hops, hopAt?, hedge, hn] using ih

/-- The first edge between two nodes is the one that a weight is asked of. -/
theorem weight?_of_first {u e : Nat} {edge : Edge ω} (he : e ∈ g.edgesFrom u) (hedge : g.edges[e]? = some edge)
    (hfirst : ∀ d ∈ g.edgesFrom u, ∀ edge', g.edges[d]? = some edge' → edge'.target = edge.target → e ≤ d) :
    g.weight? u edge.target = some edge.weight := by
  rw [weight?_of_lt (lt_size_of_mem_edgesFrom he) (hg.targets edge (List.mem_of_getElem? hedge)),
    find?_of_first (hg.ascending_edgesFrom u) he hedge rfl hfirst]
  rfl

/-- A least walk reports its nodes with the weights of the first edges between them. -/
theorem reports_of_least {s t : Nat} {es : List Nat} (h : g.Least s t es) : g.Reports s (g.stops es) (g.hops es) := by
  induction es generalizing s with
  | nil => trivial
  | cons e es ih =>
    cases h.1 with
    | @along _ _ _ edge _ he hedge hrest =>
      obtain ⟨n, hn⟩ := hg.exists_target hedge
      have hweight := hg.weight?_of_first he hedge fun d hd edge' hd' ht => h.head_le hedge hd hd' ht
      have htail := ih (h.tail hedge)
      simp only [stops, hops, List.filterMap_cons, hedge, hopAt?, hn, Option.map_some] at htail ⊢
      exact ⟨by rw [value?_natCast, hn]; rfl, hweight, htail⟩

end Coherent

end Metrology.Graph
