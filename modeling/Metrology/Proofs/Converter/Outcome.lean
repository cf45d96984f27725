import Metrology.Proofs.Converter.Reverse
import Metrology.Proofs.Converter.Shortcut

/-! # How conversions end

A conversion is refused for its category, for a unit or for want of a way between its units, and each of these
can be read off the graphs that were built. Earlier conversions add no node and no way where there was none.
Nothing else can go wrong on a route: a declared formula uses names of its source only, an inverse the first
name of its target, and all of these are bound.
-/
namespace Metrology

def Weight.Total : Weight → Prop
  | .multiplier _ => True
  | .formula f names => f.tree.Over (· ∈ names)

theorem Route.exists_result {r : Route} (h : ∀ hop ∈ r, hop.weight.Total) (value product : Float) :
    ∃ end', r.result value product = .ok end' := by
  induction r generalizing value product with
  | nil => exact ⟨_, rfl⟩
  | cons hop rest ih =>
    obtain ⟨hhop, hrest⟩ := List.forall_mem_cons.mp h
    obtain ⟨unit, weight⟩ := hop
    cases weight with
    | multiplier factor => exact ih hrest value (product * factor)
    | formula f names =>
      obtain ⟨output, houtput⟩ := Formula.value_ok hhop (flush value product)
      simp only [result, houtput]
      exact ih hrest output 1.0

namespace Graph

def Total (g : UnitGraph) : Prop := ∀ edge ∈ g.edges, edge.weight.Total

namespace Total

variable {g g' : UnitGraph}

theorem addNode (h : g.Total) (v : String) : (g.addNode v).1.Total := by
  have hedges : (g.addNode v).1.edges = g.edges := by
    rcases g.addNode_eq v with hsame | ⟨-, hnew⟩
    · rw [hsame]
    · rw [hnew]
  rwa [Total, hedges]

theorem link (h : g.Total) (s t : Nat) {w : Weight} (hw : w.Total) : (g.link s t w).Total := by
  unfold Graph.link
  split
  · intro edge hedge
    rcases List.mem_append.mp hedge with hedge | hedge
    · exact h edge hedge
    · obtain rfl := List.mem_singleton.mp hedge
      exact hw
  · exact h

theorem shortened (h : g.Total) {xs : List Shortcut} (hxs : g.Shortened xs g') : g'.Total := by
  intro edge hedge
  rw [hxs.edges_eq] at hedge
  rcases List.mem_append.mp hedge with hedge | hedge
  · exact h edge hedge
  · obtain ⟨x, -, rfl⟩ := List.mem_map.mp hedge
    trivial

theorem weightBetween? (h : g.Total) (hg : g.Coherent) {source target : String} {w : Weight}
    (hw : g.weightBetween? source target = some w) : w.Total := by
  unfold Graph.weightBetween? at hw
  split at hw
  · obtain ⟨e, edge, hfirst, rfl⟩ := hg.weight?_eq_some_iff.mp hw
    exact h edge (List.mem_of_getElem? hfirst.found)
  · cases hw

theorem follows (h : g.Total) (hg : g.Coherent) {source : String} {r : Route} (hr : g.Follows source r) :
    ∀ hop ∈ r, hop.weight.Total := by
  induction r generalizing source with
  | nil => simp
  | cons hop rest ih =>
    obtain ⟨hweight, hrest⟩ := hr
    exact List.forall_mem_cons.mpr ⟨h.weightBetween? hg hweight, ih hrest⟩

end Total

end Graph

namespace Builder

variable {b : Builder} {d : Definition}

theorem Derives.total {w : Weight} (h : b.Derives d w) : w.Total := by
  cases h with
  | reciprocal => trivial
  | inverse _ hread _ hinvert =>
    have hover := (Formula.over_of_read hread).mono (Q := fun _ => True) fun _ _ => trivial
    -- The name that the inverse is solved for is the first one of the target, so it is among those that are
    -- bound.
    exact (Algebra.over_invert hover hinvert).mono fun name hname => hname.1 ▸ b.backName_mem d

theorem total_forth {forth : Weight} {back : Option Weight} (h : b.weights d = .ok (forth, back)) : forth.Total := by
  unfold weights at h
  split at h
  · split at h
    · cases h
    · cases h
      trivial
  · split at h
    · cases h
    · next text f hf =>
      obtain ⟨hread, hnames⟩ := readFormula_eq_ok hf
      have hforth : (Weight.formula f (b.namesFor d.source d.category)).Total :=
        (Formula.over_of_read hread).mono fun name hname => hnames name hname
      dsimp only at h
      split at h
      · split at h
        · cases h
          exact hforth
        · cases h
      · cases h
        exact hforth

/-- A definition gives no weight that meets a name without a value. -/
theorem total_weights {forth : Weight} {back : Option Weight} (h : b.weights d = .ok (forth, back)) :
    forth.Total ∧ ∀ w, back = some w → w.Total :=
  ⟨total_forth h, fun _ hw => (derives_of_derived? h ((weights_eq_ok h).2.trans hw)).total⟩

theorem total_addEdges {g : UnitGraph} (hg : g.Total) (d : Definition) {forth : Weight} {back : Option Weight}
    (hforth : forth.Total) (hback : ∀ w, back = some w → w.Total) : (addEdges g d forth back).Total := by
  have hends : (addEnds g d).graph.Total := (hg.addNode d.source).addNode d.target
  unfold addEdges
  cases back with
  | none => exact hends.link _ _ hforth
  | some w => exact (hends.link _ _ hforth).link _ _ (hback w rfl)

theorem total_build {c : Converter} (hb : b.build = .ok c) {category : String} {g : UnitGraph}
    (hg : c.graph? category = some g) : g.Total := by
  refine forall_build hb (fun _ edge hedge => by cases hedge) (fun _ v h => h.addNode v) ?_ hg
  intro d _ forth back hweights g h
  obtain ⟨hforth, hback⟩ := total_weights hweights
  exact total_addEdges h d hforth hback

end Builder

/-- Why a call is refused, given the graph of its category if there is one. -/
inductive Refusal (k : Call) : Option UnitGraph → ConversionError → Prop
  | category : Refusal k none (.unknownCategory k.category)
  | source {g : UnitGraph} (hs : k.source ∉ g.values) : Refusal k (some g) (.notInCategory k.source k.category)
  | target {g : UnitGraph} (hs : k.source ∈ g.values) (ht : k.target ∉ g.values) :
      Refusal k (some g) (.notInCategory k.target k.category)
  | path {g : UnitGraph} (hs : k.source ∈ g.values) (ht : k.target ∈ g.values) (hne : k.source ≠ k.target)
      (hno : ¬ g.Reaches k.source k.target) : Refusal k (some g) (.noPath k.source k.target)

namespace Refusal

variable {k : Call} {e e' : ConversionError}

theorem unique {found : Option UnitGraph} (h : Refusal k found e) (h' : Refusal k found e') : e = e' := by
  cases h with
  | category =>
    cases h'
    rfl
  | source hs =>
    cases h' with
    | source => rfl
    | target hs' => exact absurd hs' hs
    | path hs' => exact absurd hs' hs
  | target hs ht =>
    cases h' with
    | source hs' => exact absurd hs hs'
    | target => rfl
    | path _ ht' => exact absurd ht' ht
  | path hs ht =>
    cases h' with
    | source hs' => exact absurd hs hs'
    | target _ ht' => exact absurd ht ht'
    | path => rfl

theorem not_reaches {g : UnitGraph} (h : Refusal k (some g) e) : ¬ g.Reaches k.source k.target := by
  rintro ⟨s, es, t, hs, ht, hes⟩
  cases h with
  | source hs' => exact hs' (Graph.exists_indexOf?.mp ⟨s, hs⟩)
  | target _ ht' => exact ht' (Graph.exists_indexOf?.mp ⟨t, ht⟩)
  | path _ _ _ hno => exact hno ⟨s, es, t, hs, ht, hes⟩

theorem transfer {g g' : UnitGraph} (hvalues : g'.values = g.values)
    (hreaches : ∀ u v, g'.Reaches u v → g.Reaches u v) (h : Refusal k (some g) e) : Refusal k (some g') e := by
  cases h with
  | source hs => exact .source (hvalues ▸ hs)
  | target hs ht => exact .target (hvalues ▸ hs) (hvalues ▸ ht)
  | path hs ht hne hno => exact .path (hvalues ▸ hs) (hvalues ▸ ht) hne fun h => hno (hreaches _ _ h)

/-- Graphs with the same values and the same ways between them refuse the same calls. -/
theorem congr {g g' : UnitGraph} (hvalues : g'.values = g.values) (hreaches : ∀ u v, g'.Reaches u v ↔ g.Reaches u v) :
    Refusal k (some g') e ↔ Refusal k (some g) e :=
  ⟨transfer hvalues.symm fun u v => (hreaches u v).mpr, transfer hvalues fun u v => (hreaches u v).mp⟩

end Refusal

namespace Converter

variable {c c' : Converter} {k : Call} {r : Route}

def Total (c : Converter) : Prop := ∀ category g, c.graph? category = some g → g.Total

theorem Total.after (h : c.Total) (hc : c.Coherent) (calls : List Call) : (c.after calls).Total := by
  intro category g' hg'
  have hgraphs := hc.shortened_after calls category
  rw [hg'] at hgraphs
  generalize hg : c.graph? category = found at hgraphs
  cases hgraphs with
  | some hxs =>
    obtain ⟨xs, hxs⟩ := hxs
    exact (h category _ hg).shortened hxs

theorem convert_of_error {e : ConversionError} (h : c.routeFor k = .error e) :
    c.convert k.category k.source k.target k.value = .error e := by
  unfold routeFor at h
  split at h
  · next hends =>
    cases h
    simp only [convert, hends]
  · next hends => simp only [convert, hends, h]

/-- Once there is a route, nothing on it fails. -/
theorem Total.convert_of_route (h : c.Total) (hc : c.Coherent) (hr : c.routeFor k = .ok r) :
    ∃ o, c.convert k.category k.source k.target k.value = .ok o := by
  obtain ⟨ends, hends, hroute⟩ := exists_endpoints hr
  obtain ⟨hg, -, -⟩ := endpoints_eq_ok.mp hends
  have hfollows := (follows_iff hg).mp (hc.follows_route hr)
  have hweights := (h _ _ hg).follows (hc _ _ hg) hfollows
  obtain ⟨stop, hstop⟩ := Route.exists_result hweights k.value 1.0
  have hwalk := r.map_walk k.source k.value 1.0
  rw [hstop] at hwalk
  simp only [convert, hends, hroute]
  cases hw : r.walk k.source k.value 1.0 with
  | error e =>
    rw [hw] at hwalk
    cases hwalk
  | ok w => cases c.caches r <;> exact ⟨_, rfl⟩

/-- A call has a route or is refused. -/
theorem Coherent.refused_or_routed (hc : c.Coherent) (k : Call) :
    (∃ e, c.routeFor k = .error e ∧ Refusal k (c.graph? k.category) e) ∨
      ∃ r g, c.routeFor k = .ok r ∧ c.graph? k.category = some g ∧ g.Reaches k.source k.target := by
  unfold routeFor endpoints
  cases hgraph : c.graph? k.category with
  | none => exact Or.inl ⟨_, rfl, .category⟩
  | some g =>
    have hcoherent := hc _ _ hgraph
    have hname := name_of_graph? hgraph
    have hindex : ∀ {unit : String}, g.indexOf? unit = none → unit ∉ g.values := by
      intro unit hnone hmem
      obtain ⟨i, hi⟩ := Graph.exists_indexOf?.mpr hmem
      rw [hnone] at hi
      cases hi
    cases hs : g.indexOf? k.source with
    | none => exact Or.inl ⟨_, by simp only [indexIn, hs, hname], .source (hindex hs)⟩
    | some s =>
      have hsource : k.source ∈ g.values := Graph.exists_indexOf?.mp ⟨s, hs⟩
      cases ht : g.indexOf? k.target with
      | none => exact Or.inl ⟨_, by simp only [indexIn, hs, ht, hname], .target hsource (hindex ht)⟩
      | some t =>
        have htarget : k.target ∈ g.values := Graph.exists_indexOf?.mp ⟨t, ht⟩
        simp only [indexIn, hs, ht, route]
        cases hpath : g.shortestPath s t with
        | cons hop rest =>
          obtain ⟨-, es, hes, -⟩ := hcoherent.exists_least (s := s) (t := t) (by simp [hpath])
          exact Or.inr ⟨_, g, rfl, rfl, s, es, t, hs, ht, hes.1⟩
        | nil =>
          by_cases hst : s = t
          · subst hst
            exact Or.inr ⟨[], g, if_pos rfl, rfl, s, [], s, hs, ht, .here s⟩
          · refine Or.inl ⟨_, if_neg hst, .path hsource htarget ?_ ?_⟩
            · intro hsame
              rw [hsame, ht] at hs
              exact hst (Option.some.inj hs).symm
            · rintro ⟨s', es, t', hs', ht', hes⟩
              cases hs.symm.trans hs'
              cases ht.symm.trans ht'
              exact (hcoherent.shortestPath_eq_nil_iff.mp hpath).elim hst fun hno => hno es hes

theorem convert_eq_error_iff (hc : c.Coherent) (h : c.Total) {e : ConversionError} :
    c.convert k.category k.source k.target k.value = .error e ↔ Refusal k (c.graph? k.category) e := by
  rcases hc.refused_or_routed k with ⟨e', herror, hrefusal⟩ | ⟨r, g, hr, hg, hreaches⟩
  · rw [convert_of_error herror, Except.error.injEq]
    constructor
    · rintro rfl
      exact hrefusal
    · exact hrefusal.unique
  · obtain ⟨o, ho⟩ := h.convert_of_route hc hr
    rw [ho, hg]
    constructor
    · intro herror
      cases herror
    · exact fun hrefusal => absurd hreaches hrefusal.not_reaches

theorem exists_convert_iff (hc : c.Coherent) (h : c.Total) :
    (∃ o, c.convert k.category k.source k.target k.value = .ok o) ↔
      ∃ g, c.graph? k.category = some g ∧ g.Reaches k.source k.target := by
  rcases hc.refused_or_routed k with ⟨e, herror, hrefusal⟩ | ⟨r, g, hr, hg, hreaches⟩
  · rw [convert_of_error herror]
    constructor
    · rintro ⟨o, ho⟩
      cases ho
    · rintro ⟨g, hg, hreaches⟩
      rw [hg] at hrefusal
      exact absurd hreaches hrefusal.not_reaches
  · exact ⟨fun _ => ⟨g, hg, hreaches⟩, fun _ => h.convert_of_route hc hr⟩

namespace Extends

variable (h : c.Extends c')
include h

theorem reaches_iff (category : String) : Option.Rel (fun g g' : UnitGraph => g'.values = g.values ∧
    ∀ source target, g'.Reaches source target ↔ g.Reaches source target) (c.graph? category) (c'.graph? category) := by
  have hgraphs := h category
  generalize c.graph? category = found, c'.graph? category = found' at hgraphs ⊢
  cases hgraphs with
  | none => exact .none
  | some hg => exact .some ⟨hg.1.values, hg.1.reaches_iff hg.2⟩

theorem refusal_iff {e : ConversionError} :
    Refusal k (c'.graph? k.category) e ↔ Refusal k (c.graph? k.category) e := by
  have hgraphs := h.reaches_iff k.category
  generalize c.graph? k.category = found, c'.graph? k.category = found' at hgraphs ⊢
  cases hgraphs with
  | none => exact Iff.rfl
  | some hg => exact Refusal.congr hg.1 hg.2

/-- A route stays, if not the same then one that is no longer. -/
theorem exists_route_le (hc : c.Coherent) (hc' : c'.Coherent) (hr : c.routeFor k = .ok r) :
    ∃ r', c'.routeFor k = .ok r' ∧ r'.length ≤ r.length := by
  obtain ⟨⟨g, s, t⟩, hends, rfl, hsame⟩ := routeFor_eq_ok.mp hr
  obtain ⟨hg, hs, ht⟩ := endpoints_eq_ok.mp hends
  obtain ⟨g', hg', hext⟩ := h.exists_larger hg
  obtain ⟨es, hes⟩ : ∃ es, g.Walk s es t := by
    by_cases hnil : g.shortestPath s t = []
    · obtain rfl : s = t := hsame hnil
      exact ⟨[], .here s⟩
    · obtain ⟨-, es, hes, -⟩ := (hc _ _ hg).exists_least hnil
      exact ⟨es, hes.1⟩
  rw [← hext.indexOf?_eq] at hs ht
  refine ⟨_, routeFor_eq_ok.mpr ⟨⟨g', s, t⟩, endpoints_eq_ok.mpr ⟨hg', hs, ht⟩, rfl, fun hnil => ?_⟩, ?_⟩
  · exact ((hc' _ _ hg').shortestPath_eq_nil_iff.mp hnil).resolve_right fun hno => hno es (hext.walk hes)
  · exact hext.length_shortestPath_le (hc _ _ hg) (hc' _ _ hg') hes

end Extends

/-- After any calls a converter refuses what it would have refused at first, for the same cause, and converts
everything else: no formula on any edge fails, the same units are joined, and later routes are no longer than
earlier ones. -/
theorem outcome_after {b : Builder} (hb : b.build = .ok c) (calls : List Call) :
    (∀ (k : Call) (e : ConversionError), (c.after calls).convert k.category k.source k.target k.value = .error e ↔
      Refusal k (c.graph? k.category) e) ∧
    (∀ k : Call, (∃ o, (c.after calls).convert k.category k.source k.target k.value = .ok o) ↔
      ∃ g, c.graph? k.category = some g ∧ g.Reaches k.source k.target) ∧
    (∀ category g, (c.after calls).graph? category = some g → ∀ edge ∈ g.edges, ∀ f names,
      edge.weight = .formula f names → ∀ x, ∃ y, f.value (Formula.Bindings.all names x) = .ok y) ∧
    (∀ category, Option.Rel (fun g g' : UnitGraph => g'.values = g.values ∧
        ∀ source target, g'.Reaches source target ↔ g.Reaches source target)
      (c.graph? category) ((c.after calls).graph? category)) ∧
    ∀ later k r, (c.after calls).routeFor k = .ok r →
      ∃ r', (c.after (calls ++ later)).routeFor k = .ok r' ∧ r'.length ≤ r.length := by
  have hc := Builder.coherent_build hb
  have htotal : c.Total := fun _ _ => Builder.total_build hb
  obtain ⟨hafter, hext⟩ := hc.after calls
  have hkept := htotal.after hc calls
  refine ⟨fun k e => ?_, fun k => ?_, ?_, hext.reaches_iff, ?_⟩
  · exact (convert_eq_error_iff hafter hkept).trans hext.refusal_iff
  · rw [exists_convert_iff hafter hkept]
    have hgraphs := hext.reaches_iff k.category
    generalize c.graph? k.category = found, (c.after calls).graph? k.category = found' at hgraphs ⊢
    cases hgraphs with
    | none => simp
    | some hg => simp [hg.2]
  · intro category g hg edge hedge f names hweight x
    have hedge := hkept category g hg edge hedge
    rw [hweight] at hedge
    exact Formula.value_ok hedge x
  · intro later k r hr
    obtain ⟨hlater, hext⟩ := hafter.after later
    rw [after_append]
    exact hext.exists_route_le hafter hlater hr

/-- From Fahrenheit to Newton leads the inverse of the formula, then the factor. -/
theorem outcome_after_scales : ∃ c, Builder.scales.build = .ok c ∧ ∀ calls x,
    (∃ o, (c.after calls).convert "Temperature" "Fahrenheit" "Newton" x = .ok o) ∧
    (c.after calls).convert "Temperature" "Celsius" "Gas Mark" x = .error (.noPath "Celsius" "Gas Mark") ∧
    (c.after calls).convert "Temperature" "Celsius" "Kelvin" x = .error (.notInCategory "Kelvin" "Temperature") ∧
    (c.after calls).convert "Length" "Celsius" "Kelvin" x = .error (.unknownCategory "Length") := by
  have hlength : (Builder.scalesConverter.graph? "Length").isSome = false := by decide +kernel
  have htemperature : ((Builder.scalesConverter.graph? "Temperature").map fun g =>
      (g.values, (g.shortestPath 1 2).length, (g.shortestPath 0 3).length)) =
        some (["Celsius", "Fahrenheit", "Newton", "Gas Mark"], 2, 0) := by decide +kernel
  obtain ⟨g, hg, hfacts⟩ := Option.map_eq_some_iff.mp htemperature
  obtain ⟨hvalues, hjoined, halone⟩ : g.values = ["Celsius", "Fahrenheit", "Newton", "Gas Mark"] ∧
      (g.shortestPath 1 2).length = 2 ∧ (g.shortestPath 0 3).length = 0 := by simpa using hfacts
  have hcoherent := Builder.coherent_build Builder.build_scales _ _ hg
  have hindex : ∀ v, g.indexOf? v = g.values.findIdx? (· == v) := g.indexOf?_eq_findIdx?
  refine ⟨Builder.scalesConverter, Builder.build_scales, fun calls x => ?_⟩
  obtain ⟨hrefused, hconverted, -⟩ := outcome_after Builder.build_scales calls
  refine ⟨?_, ?_, ?_, ?_⟩
  · refine (hconverted ⟨"Temperature", "Fahrenheit", "Newton", x⟩).mpr ⟨g, hg, ?_⟩
    obtain ⟨-, es, hes, -⟩ := hcoherent.exists_least (s := 1) (t := 2) (List.ne_nil_of_length_pos (by omega))
    exact ⟨1, es, 2, by rw [hindex, hvalues]; rfl, by rw [hindex, hvalues]; rfl, hes.1⟩
  · refine (hrefused ⟨"Temperature", "Celsius", "Gas Mark", x⟩ _).mpr ?_
    rw [hg]
    refine .path (by simp [hvalues]) (by simp [hvalues]) (by simp) ?_
    rintro ⟨s, es, t, hs, ht, hes⟩
    rw [hindex, hvalues] at hs ht
    cases hs
    cases ht
    have hno := hcoherent.shortestPath_eq_nil_iff.mp (List.eq_nil_of_length_eq_zero halone)
    exact hno.resolve_left (by decide) es hes
  · refine (hrefused ⟨"Temperature", "Celsius", "Kelvin", x⟩ _).mpr ?_
    rw [hg]
    exact .target (by simp [hvalues]) (by simp [hvalues])
  · refine (hrefused ⟨"Length", "Celsius", "Kelvin", x⟩ _).mpr ?_
    have hnone : Builder.scalesConverter.graph? "Length" = none := by simpa using hlength
    rw [hnone]
    exact .category

end Converter

end Metrology
