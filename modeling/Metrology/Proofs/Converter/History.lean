import Metrology.Converter.Build
import Metrology.Proofs.Conversion.Route
import Metrology.Proofs.Graph.Extension

/-! # Runs of conversions

A converter goes from one conversion to the next. A conversion that fails leaves it as it is, and one that
succeeds may leave an edge behind, so the graph of a category always extends the one that was built.
-/
namespace Metrology

structure Call where
  category : String
  source : String
  target : String
  value : Float

namespace Converter

def routeFor (c : Converter) (k : Call) : Except ConversionError Route :=
  match c.endpoints k.category k.source k.target with
  | .error e => .error e
  | .ok ends => route ends k.source k.target

def answer? (c : Converter) (k : Call) : Option Float :=
  match c.convert k.category k.source k.target k.value with
  | .ok o => some o.value
  | .error _ => none

def next (c : Converter) (k : Call) : Converter :=
  match c.convert k.category k.source k.target k.value with
  | .ok o => o.converter
  | .error _ => c

def after (c : Converter) (calls : List Call) : Converter := calls.foldl next c

def Coherent (c : Converter) : Prop := ∀ category g, c.graph? category = some g → g.Coherent

/-- A converter that only has more edges, and only between units that had a route. -/
def Extends (c c' : Converter) : Prop :=
  ∀ category, Option.Rel (fun g g' : UnitGraph => g.Extends g' ∧ g.Spans g') (c.graph? category) (c'.graph? category)

def weight? (c : Converter) (category source target : String) : Option Weight :=
  (c.graph? category).bind fun g => g.weightBetween? source target

def Follows (c : Converter) (category : String) : String → Route → Prop
  | _, [] => True
  | source, hop :: rest => c.weight? category source hop.node = some hop.weight ∧ c.Follows category hop.node rest

variable {c c' : Converter} {k : Call} {r : Route}

theorem follows_iff {category source : String} {g : UnitGraph} (hg : c.graph? category = some g) :
    c.Follows category source r ↔ g.Follows source r := by
  induction r generalizing source with
  | nil => exact Iff.rfl
  | cons hop rest ih => simp only [Follows, Graph.Follows, ih, weight?, hg, Option.bind_some]

theorem indexIn_eq_ok {g : UnitGraph} {unit : String} {i : Nat} :
    indexIn g unit = .ok i ↔ g.indexOf? unit = some i := by
  unfold indexIn
  cases g.indexOf? unit <;> simp

theorem endpoints_eq_ok {category source target : String} {ends : Endpoints} :
    c.endpoints category source target = .ok ends ↔ c.graph? category = some ends.graph ∧
      ends.graph.indexOf? source = some ends.source ∧ ends.graph.indexOf? target = some ends.target := by
  obtain ⟨g, s, t⟩ := ends
  constructor
  · intro h
    unfold endpoints at h
    split at h
    · cases h
    · next hg =>
      split at h
      · cases h
      · next hs =>
        split at h
        · cases h
        · next ht =>
          cases h
          exact ⟨hg, indexIn_eq_ok.mp hs, indexIn_eq_ok.mp ht⟩
  · rintro ⟨hg, hs, ht⟩
    simp only [endpoints, hg, indexIn_eq_ok.mpr hs, indexIn_eq_ok.mpr ht]

/-- A call takes the shortest path between its units, which is empty only if they are the same. -/
theorem routeFor_eq_ok : c.routeFor k = .ok r ↔ ∃ ends : Endpoints,
    c.endpoints k.category k.source k.target = .ok ends ∧ ends.graph.shortestPath ends.source ends.target = r ∧
      (r = [] → ends.source = ends.target) := by
  unfold routeFor
  cases c.endpoints k.category k.source k.target with
  | error e => simp
  | ok ends =>
    simp only [route, Except.ok.injEq, exists_eq_left']
    cases ends.graph.shortestPath ends.source ends.target with
    | nil =>
      dsimp only
      split
      · next hsame =>
        simp only [Except.ok.injEq]
        exact ⟨fun h => ⟨h, fun _ => hsame⟩, fun h => h.1⟩
      · next hsame =>
        constructor
        · intro h
          cases h
        · rintro ⟨hnil, hsource⟩
          exact absurd (hsource hnil.symm) hsame
    | cons hop rest =>
      simp only [Except.ok.injEq]
      refine ⟨fun h => ⟨h, ?_⟩, fun h => h.1⟩
      rintro rfl
      cases h

theorem answer?_of_error {e : ConversionError} (h : c.routeFor k = .error e) : c.answer? k = none ∧ c.next k = c := by
  unfold routeFor at h
  split at h
  · next hends => simp only [answer?, next, convert, hends, and_self]
  · next hends => simp only [answer?, next, convert, hends, h, and_self]

theorem exists_endpoints (h : c.routeFor k = .ok r) :
    ∃ ends, c.endpoints k.category k.source k.target = .ok ends ∧ route ends k.source k.target = .ok r := by
  unfold routeFor at h
  split at h
  · cases h
  · next ends hends => exact ⟨ends, hends, h⟩

theorem answer?_of_route (h : c.routeFor k = .ok r) : c.answer? k =
    match r.result k.value 1.0 with
    | .ok (value, product) => some (value * product)
    | .error _ => none := by
  obtain ⟨ends, hends, hroute⟩ := exists_endpoints h
  rw [← r.map_walk k.source k.value 1.0]
  simp only [answer?, convert, hends, hroute]
  cases r.walk k.source k.value 1.0 with
  | error e => rfl
  | ok w => cases c.caches r <;> rfl

theorem next_of_not_caches (h : c.routeFor k = .ok r) (hcaches : c.caches r = false) : c.next k = c := by
  obtain ⟨ends, hends, hroute⟩ := exists_endpoints h
  simp only [next, convert, hends, hroute]
  cases r.walk k.source k.value 1.0 with
  | error e => rfl
  | ok w => simp only [hcaches, Bool.false_eq_true, if_false]

theorem multipliersOnly_of_caches (h : c.caches r = true) : r.multipliersOnly = true := by
  simp only [caches, Bool.and_eq_true] at h
  exact h.1.2

theorem one_lt_length_of_caches (h : c.caches r = true) : 1 < r.length := by
  simp only [caches, Bool.and_eq_true, decide_eq_true_eq] at h
  exact h.2

theorem next_of_caches (h : c.routeFor k = .ok r) (hcaches : c.caches r = true) :
    ∃ ends, c.endpoints k.category k.source k.target = .ok ends ∧ c.next k = c.remember ends (r.product 1.0) := by
  obtain ⟨ends, hends, hroute⟩ := exists_endpoints h
  have hwalk := r.map_walk k.source k.value 1.0
  rw [Route.result_of_multipliersOnly (multipliersOnly_of_caches hcaches)] at hwalk
  refine ⟨ends, hends, ?_⟩
  simp only [next, convert, hends, hroute]
  cases hw : r.walk k.source k.value 1.0 with
  | error e =>
    rw [hw] at hwalk
    cases hwalk
  | ok w =>
    rw [hw] at hwalk
    have hproduct : w.product = r.product 1.0 := congrArg Prod.snd (Except.ok.inj hwalk)
    simp only [hcaches, if_true, hproduct]

theorem after_of_not_caching (h : c.caching = false) (calls : List Call) : c.after calls = c := by
  have hnext : ∀ k, c.next k = c := by
    intro k
    cases hr : c.routeFor k with
    | error e => exact (answer?_of_error hr).2
    | ok r => exact next_of_not_caches hr (by simp [caches, h])
  induction calls with
  | nil => rfl
  | cons k rest ih =>
    rw [after, List.foldl_cons, hnext k]
    exact ih

theorem source_ne_target (h : c.routeFor k = .ok r) (hne : r ≠ []) : k.source ≠ k.target := by
  obtain ⟨⟨g, s, t⟩, hends, hpath, -⟩ := routeFor_eq_ok.mp h
  obtain ⟨-, hs, ht⟩ := endpoints_eq_ok.mp hends
  intro hsame
  dsimp only at hpath hs ht
  rw [← hsame, hs] at ht
  rw [Option.some.inj ht, Graph.shortestPath, if_pos rfl] at hpath
  exact hne hpath.symm

theorem name_of_graph? {category : String} {g : UnitGraph} (h : c.graph? category = some g) : g.id = category := by
  simpa using List.find?_some h

theorem graph?_remember (c : Converter) (ends : Endpoints) (factor : Float) (category : String) :
    (c.remember ends factor).graph? category = (c.graph? category).map fun g =>
      if g.id == ends.graph.id then g.link ends.source ends.target (.multiplier factor) else g := by
  unfold graph? remember
  rw [List.find?_map]
  congr 2
  funext g
  dsimp only [Function.comp_apply]
  split <;> simp

/-- An edge that is remembered is the last one of the graph of its category, and the other graphs stay as they
are. -/
theorem graph?_remember_of_endpoints {ends : Endpoints} (hends : c.endpoints k.category k.source k.target = .ok ends)
    (factor : Float) :
    (∃ g, (c.remember ends factor).graph? k.category = some g ∧
        g = ends.graph.link ends.source ends.target (.multiplier factor) ∧
        g.edges = ends.graph.edges ++ [⟨ends.target, .multiplier factor⟩]) ∧
      ∀ category, category ≠ k.category → (c.remember ends factor).graph? category = c.graph? category := by
  obtain ⟨hg, hs, ht⟩ := endpoints_eq_ok.mp hends
  have hsource := Graph.lt_size_of_indexOf? hs
  have htarget := Graph.lt_size_of_indexOf? ht
  constructor
  · refine ⟨ends.graph.link ends.source ends.target (.multiplier factor), ?_, rfl, ?_⟩
    · rw [graph?_remember, hg]
      simp only [Option.map_some, beq_self_eq_true, if_true]
    · rw [Graph.link_of_lt hsource htarget]
  · intro category hcategory
    rw [graph?_remember]
    cases hother : c.graph? category with
    | none => rfl
    | some g =>
      have hid : g.id ≠ ends.graph.id := by
        rw [name_of_graph? hother, name_of_graph? hg]
        exact hcategory
      simp [hid]

namespace Extends

theorem refl (c : Converter) : c.Extends c := by
  intro category
  cases c.graph? category with
  | none => exact .none
  | some g => exact .some ⟨Graph.Extends.refl g, fun _ es _ h => ⟨es, h⟩⟩

theorem trans {c'' : Converter} (h : c.Extends c') (h' : c'.Extends c'') : c.Extends c'' := by
  intro category
  have hg := h category
  have hg' := h' category
  generalize c.graph? category = g₁, c'.graph? category = g₂, c''.graph? category = g₃ at hg hg' ⊢
  cases hg with
  | none => exact hg'
  | some hg =>
    cases hg' with
    | some hg' =>
      refine .some ⟨hg.1.trans hg'.1, fun s es t hes => ?_⟩
      obtain ⟨es', hes'⟩ := hg'.2 s es t hes
      exact hg.2 s es' t hes'

theorem exists_graph (h : c.Extends c') {category : String} {g' : UnitGraph} (hg' : c'.graph? category = some g') :
    ∃ g, c.graph? category = some g ∧ g.Extends g' ∧ g.Spans g' := by
  have hgraphs := h category
  rw [hg'] at hgraphs
  generalize c.graph? category = g₁ at hgraphs ⊢
  cases hgraphs with
  | some hg => exact ⟨_, rfl, hg⟩

theorem exists_larger (h : c.Extends c') {category : String} {g : UnitGraph} (hg : c.graph? category = some g) :
    ∃ g', c'.graph? category = some g' ∧ g.Extends g' := by
  have hgraphs := h category
  rw [hg] at hgraphs
  generalize c'.graph? category = g₁ at hgraphs ⊢
  cases hgraphs with
  | some hg => exact ⟨_, rfl, hg.1⟩

theorem weight? (h : c.Extends c') (hc : c.Coherent) (hc' : c'.Coherent) {category source target : String} {w : Weight}
    (hw : c.weight? category source target = some w) : c'.weight? category source target = some w := by
  obtain ⟨g, hg, hw⟩ := Option.bind_eq_some_iff.mp hw
  obtain ⟨g', hg', hext⟩ := h.exists_larger hg
  simp only [Converter.weight?, hg', Option.bind_some]
  exact hext.weightBetween? (hc _ _ hg) (hc' _ _ hg') hw

/-- A route that takes no new edge is the route that there was before. -/
theorem routeFor_eq (h : c.Extends c') (hc : c.Coherent) (hc' : c'.Coherent) (hr : c'.routeFor k = .ok r)
    (hf : c.Follows k.category k.source r) : c.routeFor k = .ok r := by
  obtain ⟨⟨g', s, t⟩, hends, hpath, hsame⟩ := routeFor_eq_ok.mp hr
  obtain ⟨hg', hs, ht⟩ := endpoints_eq_ok.mp hends
  obtain ⟨g, hg, hext, -⟩ := h.exists_graph hg'
  rw [hext.indexOf?_eq] at hs ht
  rw [follows_iff hg, ← hpath] at hf
  refine routeFor_eq_ok.mpr ⟨⟨g, s, t⟩, endpoints_eq_ok.mpr ⟨hg, hs, ht⟩, ?_, hsame⟩
  rw [← hpath]
  exact hext.shortestPath_eq (hc _ _ hg) (hc' _ _ hg') hs hf

/-- Between two units that have a route there was one before. -/
theorem exists_route (h : c.Extends c') (hc : c.Coherent) (hc' : c'.Coherent) (hr : c'.routeFor k = .ok r) :
    ∃ r₀, c.routeFor k = .ok r₀ := by
  obtain ⟨⟨g', s, t⟩, hends, hpath, hsame⟩ := routeFor_eq_ok.mp hr
  obtain ⟨hg', hs, ht⟩ := endpoints_eq_ok.mp hends
  obtain ⟨g, hg, hext, hspans⟩ := h.exists_graph hg'
  rw [hext.indexOf?_eq] at hs ht
  refine ⟨_, routeFor_eq_ok.mpr ⟨⟨g, s, t⟩, endpoints_eq_ok.mpr ⟨hg, hs, ht⟩, rfl, fun hnil => ?_⟩⟩
  rcases (hc _ _ hg).shortestPath_eq_nil_iff.mp hnil with hst | hno
  · exact hst
  · refine hsame (hpath.symm.trans ((hc' _ _ hg').shortestPath_eq_nil_iff.mpr (Or.inr fun es hes => ?_)))
    obtain ⟨es', hes'⟩ := hspans s es t hes
    exact hno es' hes'

theorem routeFor_nil (h : c.Extends c') (hr : c.routeFor k = .ok []) : c'.routeFor k = .ok [] := by
  obtain ⟨⟨g, s, t⟩, hends, -, hsame⟩ := routeFor_eq_ok.mp hr
  obtain ⟨hg, hs, ht⟩ := endpoints_eq_ok.mp hends
  obtain ⟨g', hg', hext⟩ := h.exists_larger hg
  rw [← hext.indexOf?_eq] at hs ht
  refine routeFor_eq_ok.mpr ⟨⟨g', s, t⟩, endpoints_eq_ok.mpr ⟨hg', hs, ht⟩, ?_, hsame⟩
  exact if_pos (hsame rfl)

end Extends

namespace Coherent

variable (hc : c.Coherent)
include hc

theorem remember (ends : Endpoints) (factor : Float) : (c.remember ends factor).Coherent := by
  intro category g' hg'
  rw [graph?_remember] at hg'
  obtain ⟨g, hg, rfl⟩ := Option.map_eq_some_iff.mp hg'
  split
  · exact (hc category g hg).link _ _ _
  · exact hc category g hg

theorem extends_remember {ends : Endpoints}
    (hends : c.endpoints k.category k.source k.target = .ok ends) {es : List Nat}
    (hes : ends.graph.Walk ends.source es ends.target) (factor : Float) : c.Extends (c.remember ends factor) := by
  intro category
  rw [graph?_remember]
  cases hg : c.graph? category with
  | none => exact .none
  | some g =>
    refine .some ?_
    dsimp only
    split
    · next hid =>
      obtain ⟨hends, -, -⟩ := endpoints_eq_ok.mp hends
      have hcategory : k.category = category := by
        rw [← name_of_graph? hends, ← name_of_graph? hg]
        exact (eq_of_beq hid).symm
      rw [hcategory, hg] at hends
      obtain rfl := Option.some.inj hends
      exact ⟨Graph.Extends.link _ _ _ _, (hc _ _ hg).spans_link hes _⟩
    · exact ⟨Graph.Extends.refl g, fun _ es _ h => ⟨es, h⟩⟩

/-- A call keeps the graphs coherent and adds no more than an edge between units that have a route. -/
theorem next (k : Call) : (c.next k).Coherent ∧ c.Extends (c.next k) := by
  cases h : c.routeFor k with
  | error e =>
    rw [(answer?_of_error h).2]
    exact ⟨hc, .refl c⟩
  | ok r =>
    cases hcaches : c.caches r with
    | false =>
      rw [next_of_not_caches h hcaches]
      exact ⟨hc, .refl c⟩
    | true =>
      obtain ⟨ends, hends, hnext⟩ := next_of_caches h hcaches
      obtain ⟨ends', hends', hpath, -⟩ := routeFor_eq_ok.mp h
      cases hends.symm.trans hends'
      rw [hnext]
      refine ⟨hc.remember ends _, ?_⟩
      have hlength := one_lt_length_of_caches hcaches
      rw [← hpath] at hlength
      have hfull := List.ne_nil_of_length_pos (Nat.lt_of_succ_lt hlength)
      obtain ⟨-, es, hes, -⟩ := (hc _ _ (endpoints_eq_ok.mp hends).1).exists_least hfull
      exact hc.extends_remember hends hes.1 _

theorem after (calls : List Call) : (c.after calls).Coherent ∧ c.Extends (c.after calls) := by
  induction calls generalizing c with
  | nil => exact ⟨hc, .refl c⟩
  | cons k rest ih =>
    obtain ⟨hnext, hext⟩ := hc.next k
    obtain ⟨hafter, hext'⟩ := ih hnext
    exact ⟨hafter, hext.trans hext'⟩

theorem follows_route (h : c.routeFor k = .ok r) : c.Follows k.category k.source r := by
  obtain ⟨⟨g, s, t⟩, hends, rfl, -⟩ := routeFor_eq_ok.mp h
  obtain ⟨hg, hs, -⟩ := endpoints_eq_ok.mp hends
  exact (follows_iff hg).mpr ((hc _ _ hg).follows_shortestPath hs t)

/-- Between two units that an edge joins, the route is the first edge. -/
theorem routeFor_of_weight? (hne : k.source ≠ k.target) {w : Weight}
    (hw : c.weight? k.category k.source k.target = some w) : c.routeFor k = .ok [⟨k.target, w⟩] := by
  obtain ⟨g, hg, hw⟩ := Option.bind_eq_some_iff.mp hw
  unfold Graph.weightBetween? at hw
  split at hw
  · next s t hs ht =>
    have hst : s ≠ t := by
      rintro rfl
      have hvalue := (Graph.value_of_indexOf? hs).symm.trans (Graph.value_of_indexOf? ht)
      exact hne (Option.some.inj hvalue)
    refine routeFor_eq_ok.mpr ⟨⟨g, s, t⟩, endpoints_eq_ok.mpr ⟨hg, hs, ht⟩, ?_, fun h => by cases h⟩
    exact (hc _ _ hg).shortestPath_of_weight? hst ht hw
  · cases hw

/-- A route of one hop is the first edge between its ends. -/
theorem weight?_of_route {hop : Graph.Hop Weight} (h : c.routeFor k = .ok [hop]) :
    k.source ≠ k.target ∧ c.weight? k.category k.source k.target = some hop.weight ∧ hop.node = k.target := by
  have hweight := (hc.follows_route h).1
  obtain ⟨⟨g, s, t⟩, hends, hpath, -⟩ := routeFor_eq_ok.mp h
  obtain ⟨hg, hs, ht⟩ := endpoints_eq_ok.mp hends
  dsimp only at hpath hg hs ht
  have hnode : hop.node = k.target := by
    have hvalue := (hc _ _ hg).value_of_shortestPath hpath
    exact Option.some.inj (hvalue.symm.trans (Graph.value_of_indexOf? ht))
  exact ⟨source_ne_target h (by simp), hnode ▸ hweight, hnode⟩

/-- No edge joins the ends of a route before it is cached, and then the new edge does. -/
theorem weight?_next (h : c.routeFor k = .ok r) (hcaches : c.caches r = true) :
    (c.next k).weight? k.category k.source k.target = some (.multiplier (r.product 1.0)) := by
  obtain ⟨ends, hends, hnext⟩ := next_of_caches h hcaches
  obtain ⟨hg, hs, ht⟩ := endpoints_eq_ok.mp hends
  obtain ⟨ends', hends', hpath, -⟩ := routeFor_eq_ok.mp h
  cases hends.symm.trans hends'
  obtain ⟨g, s, t⟩ := ends
  dsimp only at hg hs ht hpath
  have hlength := one_lt_length_of_caches hcaches
  rw [← hpath] at hlength
  have hnone := (hc _ _ hg).weight?_eq_none ht hlength
  have hsource := Graph.lt_size_of_indexOf? hs
  have htarget := Graph.lt_size_of_indexOf? ht
  have hlink := Graph.Extends.link g s t (.multiplier (r.product 1.0))
  rw [hnext, Converter.weight?, graph?_remember, hg]
  simp only [Option.map_some, Option.bind_some, beq_self_eq_true, if_true, Graph.weightBetween?,
    hlink.indexOf?_eq, hs, ht]
  exact (hc _ _ hg).weight?_link hsource htarget hnone _

/-- What has been converted over factors alone is converted by the same product from then on. -/
theorem result_kept (h : c.routeFor k = .ok r) (hfactors : r.multipliersOnly = true) (calls : List Call) :
    ∃ r', ((c.next k).after calls).routeFor k = .ok r' ∧ ∀ value, r'.result value 1.0 = r.result value 1.0 := by
  obtain ⟨hnext, hfirst⟩ := hc.next k
  obtain ⟨hafter, hlater⟩ := hnext.after calls
  have hext := hfirst.trans hlater
  match r with
  | [] => exact ⟨[], hext.routeFor_nil h, fun _ => rfl⟩
  | [hop] =>
    -- Nothing is cached, but the edge of the hop is there and stays the first.
    obtain ⟨hne, hweight, hnode⟩ := hc.weight?_of_route h
    refine ⟨_, hafter.routeFor_of_weight? hne (hext.weight? hc hafter hweight), fun value => ?_⟩
    rw [← hnode]
  | hop :: hop' :: rest =>
    have hlength : 1 < (hop :: hop' :: rest).length := by simp
    cases hcaching : c.caching with
    | false =>
      rw [next_of_not_caches h (by simp [caches, hcaching]), after_of_not_caching hcaching]
      exact ⟨_, h, fun _ => rfl⟩
    | true =>
      have hcaches : c.caches (hop :: hop' :: rest) = true := by simp [caches, hcaching, hfactors]
      have hweight := hlater.weight? hnext hafter (hc.weight?_next h hcaches)
      refine ⟨_, hafter.routeFor_of_weight? (source_ne_target h (by simp)) hweight, fun value => ?_⟩
      rw [Route.result_multiplier, Route.result_of_multipliersOnly hfactors]
      rfl

end Coherent

end Converter

end Metrology
