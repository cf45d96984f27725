import Metrology.Proofs.Converter.Outcome
import Metrology.Proofs.Graph.Linked

/-! # Components of declared conversions

Where all conversions are factors and ways back are derived, a link and its reverse are there together: the
reverse is declared or derived from the first declaration that lacks one. So a conversion goes one way if and
only if it goes the other, and it goes between the units that declarations join, whatever their direction.
-/
namespace Metrology

namespace Builder

/-- Two units are joined if declared conversions of a category, each taken in either direction, lead from one
to the other. -/
def Joined (b : Builder) (category : String) : String → String → Prop :=
  Relation.ReflTransGen (Relation.SymmGen fun u v => b.declares category u v = true)

def Multiplies (b : Builder) (category : String) : Prop :=
  ∀ d ∈ b.definitions, d.category = category → ∃ x, d.rule = .factor x

/-- The units of a category that a builder has been given: those that are listed for it and, if there is one,
the ends of its definitions. -/
def Knows (b : Builder) (category unit : String) : Prop :=
  (∃ e ∈ b.units, e.category = category) ∧
    ((∃ e ∈ b.units, e.category = category ∧ e.unit = unit) ∨
      ∃ d ∈ b.definitions, d.category = category ∧ (unit = d.source ∨ unit = d.target))

variable {b : Builder} {category u v : String}

theorem Joined.symm (h : b.Joined category u v) : b.Joined category v u := by
  unfold Joined at h ⊢
  exact Std.Symm.symm _ _ h

theorem declares_eq_true : b.declares category u v = true ↔
    ∃ d ∈ b.definitions, d.category = category ∧ d.source = u ∧ d.target = v := by
  simp [declares, List.any_eq_true, and_assoc]

/-- Every definition declares a weight if all are factors. -/
theorem Multiplies.exists_declared (h : b.Multiplies category) {d : Definition} (hd : d ∈ b.definitions)
    (hcategory : d.category = category) : ∃ x, b.declared? d = some (.multiplier x) := by
  obtain ⟨x, hrule⟩ := h d hd hcategory
  exact ⟨x, by simp only [declared?, hrule]⟩

/-- The way back is derived from a factor wherever it is not declared. -/
theorem Multiplies.exists_derived (h : b.Multiplies category) (hreverse : b.policy.reverse = true) {d : Definition}
    (hd : d ∈ b.definitions) (hcategory : d.category = category)
    (hback : b.declares category d.target d.source = false) :
    ∃ w, b.derived? d = some w := by
  obtain ⟨x, hrule⟩ := h d hd hcategory
  have hderives : b.derivesBack d = true := by simp [derivesBack, hreverse, hcategory, hback]
  exact ⟨.multiplier (1.0 / x), by simp only [derived?, hderives, hrule, if_true]⟩

/-- The links of a category are its declared conversions and their reverses. -/
theorem Multiplies.linked_iff (h : b.Multiplies category) (hreverse : b.policy.reverse = true) {c : Converter}
    (hb : b.build = .ok c) {g : UnitGraph} (hg : c.graph? category = some g) :
    g.Linked u v ↔ Relation.SymmGen (fun u v => b.declares category u v = true) u v := by
  have hmem : ∀ w, (⟨u, v, w⟩ : Graph.Link Weight) ∈ g.links ↔
      ∃ d ∈ b.definitions, d.category = category ∧ ⟨u, v, w⟩ ∈ b.linksOf d := by
    intro w
    rw [(links_build hb hg).mem_iff]
    simp [List.mem_flatMap, and_assoc]
  have hforth : b.declares category u v = true → g.Linked u v := by
    intro hdeclared
    obtain ⟨d, hd, hcategory, rfl, rfl⟩ := declares_eq_true.mp hdeclared
    obtain ⟨x, hx⟩ := h.exists_declared hd hcategory
    refine ⟨.multiplier x, (hmem _).mpr ⟨d, hd, hcategory, ?_⟩⟩
    simp [linksOf, hx]
  constructor
  · rintro ⟨w, hw⟩
    obtain ⟨d, hd, hcategory, hlink⟩ := (hmem w).mp hw
    rcases mem_linksOf hlink with ⟨hsource, htarget⟩ | ⟨htarget, hsource, -⟩
    · exact Or.inl (declares_eq_true.mpr ⟨d, hd, hcategory, hsource, htarget⟩)
    · exact Or.inr (declares_eq_true.mpr ⟨d, hd, hcategory, hsource, htarget⟩)
  · rintro (hdeclared | hdeclared)
    · exact hforth hdeclared
    · cases hboth : b.declares category u v with
      | true => exact hforth hboth
      | false =>
        obtain ⟨d, hd, hcategory, rfl, rfl⟩ := declares_eq_true.mp hdeclared
        obtain ⟨w, hw⟩ := h.exists_derived hreverse hd hcategory hboth
        refine ⟨w, (hmem _).mpr ⟨d, hd, hcategory, ?_⟩⟩
        simp [linksOf, hw]

theorem Multiplies.reaches_iff (h : b.Multiplies category) (hreverse : b.policy.reverse = true) {c : Converter}
    (hb : b.build = .ok c) {g : UnitGraph} (hg : c.graph? category = some g) :
    g.Reaches u v ↔ u ∈ g.values ∧ b.Joined category u v := by
  have hlinked : g.Linked = Relation.SymmGen fun u v => b.declares category u v = true := by
    funext u v
    exact propext (h.linked_iff hreverse hb hg)
  rw [(coherent_build hb category g hg).reaches_iff, hlinked]
  rfl

theorem mem_values_build {c : Converter} (hb : b.build = .ok c) :
    (∃ g, c.graph? category = some g ∧ u ∈ g.values) ↔ b.Knows category u := by
  have hlists := lists_unitGraphs b
  rw [graph?_build hb]
  unfold Knows
  rw [← hlists.isSome]
  cases hg : b.unitGraphs.find? fun g => g.id == category with
  | none => simp
  | some g =>
    have hvalues := mem_values_foldl (weights_ok_of_build hb hg) (g := g) (v := u)
    simp only [Option.map_some, Option.some.injEq, exists_eq_left', Option.isSome_some, true_and]
    rw [hvalues, hlists.values category g hg]
    simp only [List.mem_filter, beq_iff_eq, and_assoc]

/-- After building, units that declared conversions join reach each other, and no others do. -/
theorem Multiplies.exists_reaches_iff (h : b.Multiplies category) (hreverse : b.policy.reverse = true) {c : Converter}
    (hb : b.build = .ok c) : (∃ g, c.graph? category = some g ∧ g.Reaches u v) ↔
      b.Knows category u ∧ b.Knows category v ∧ b.Joined category u v := by
  constructor
  · rintro ⟨g, hg, hreaches⟩
    obtain ⟨s, es, t, hs, ht, hes⟩ := hreaches
    have hu : u ∈ g.values := Graph.exists_indexOf?.mp ⟨s, hs⟩
    have hv : v ∈ g.values := Graph.exists_indexOf?.mp ⟨t, ht⟩
    have hjoined := ((h.reaches_iff hreverse hb hg).mp ⟨s, es, t, hs, ht, hes⟩).2
    exact ⟨(mem_values_build hb).mp ⟨g, hg, hu⟩, (mem_values_build hb).mp ⟨g, hg, hv⟩, hjoined⟩
  · rintro ⟨hu, -, hjoined⟩
    obtain ⟨g, hg, hmem⟩ := (mem_values_build hb).mpr hu
    exact ⟨g, hg, (h.reaches_iff hreverse hb hg).mpr ⟨hmem, hjoined⟩⟩

end Builder

namespace Converter

variable {b : Builder} {c c' : Converter} {category source target : String}

theorem Extends.exists_reaches_iff (h : c.Extends c') :
    (∃ g, c'.graph? category = some g ∧ g.Reaches source target) ↔
      ∃ g, c.graph? category = some g ∧ g.Reaches source target := by
  have hgraphs := h.reaches_iff category
  generalize c.graph? category = found, c'.graph? category = found' at hgraphs ⊢
  cases hgraphs with
  | none => simp
  | some hg => simp [hg.2]

/-- Where all conversions of a category are factors and ways back are derived, a unit converts to another, at
any time, if and only if declared conversions join them, so the way between two units is never open in one
direction only. -/
theorem convertible_after (hb : b.build = .ok c) (hreverse : b.policy.reverse = true) (hfactors : b.Multiplies category)
    (calls : List Call) (source target : String) :
    (∀ value, (∃ o, (c.after calls).convert category source target value = .ok o) ↔
      b.Knows category source ∧ b.Knows category target ∧ b.Joined category source target) ∧
    ∀ value value', (∃ o, (c.after calls).convert category source target value = .ok o) ↔
      ∃ o, (c.after calls).convert category target source value' = .ok o := by
  have hc := Builder.coherent_build hb
  have htotal : c.Total := fun _ _ => Builder.total_build hb
  obtain ⟨hafter, hext⟩ := hc.after calls
  have hiff : ∀ source target value, (∃ o, (c.after calls).convert category source target value = .ok o) ↔
      b.Knows category source ∧ b.Knows category target ∧ b.Joined category source target := by
    intro source target value
    have hconvert := exists_convert_iff (k := ⟨category, source, target, value⟩) hafter (htotal.after hc calls)
    exact hconvert.trans (hext.exists_reaches_iff.trans (hfactors.exists_reaches_iff hreverse hb))
  refine ⟨hiff source target, fun value value' => ?_⟩
  rw [hiff, hiff]
  constructor
  · rintro ⟨hs, ht, hjoined⟩
    exact ⟨ht, hs, hjoined.symm⟩
  · rintro ⟨ht, hs, hjoined⟩
    exact ⟨hs, ht, hjoined.symm⟩

/-- A pair that is declared twice and its way back, a third unit at the wrong end of a declaration, and a pair
apart from these. -/
def islands : Builder where
  policy := ⟨true, true, true⟩
  units := [⟨"Yard", "yd", "Length"⟩, ⟨"Foot", "ft", "Length"⟩, ⟨"Inch", "in", "Length"⟩, ⟨"Parsec", "pc", "Length"⟩]
  definitions := [⟨"Length", "Yard", "Foot", .factor 3⟩, ⟨"Length", "Foot", "Yard", .factor 0.25⟩,
    ⟨"Length", "Yard", "Foot", .factor 3.5⟩, ⟨"Length", "Inch", "Foot", .factor 0.1⟩,
    ⟨"Length", "Parsec", "Light Year", .factor 3.26⟩]
  channel := converterChannel

theorem convertible_after_islands : ∃ c, islands.build = .ok c ∧ ∀ calls x y,
    (∃ o, (c.after calls).convert "Length" "Yard" "Inch" x = .ok o) ∧
    (∃ o, (c.after calls).convert "Length" "Inch" "Yard" y = .ok o) ∧
    ¬ (∃ o, (c.after calls).convert "Length" "Yard" "Parsec" x = .ok o) := by
  obtain ⟨c, hb⟩ : ∃ c, islands.build = .ok c := ⟨_, rfl⟩
  have hfactors : islands.Multiplies "Length" := by simp [Builder.Multiplies, islands]
  have hyard : islands.Knows "Length" "Yard" := by simp [Builder.Knows, islands]
  have hinch : islands.Knows "Length" "Inch" := by simp [Builder.Knows, islands]
  have hjoined : islands.Joined "Length" "Yard" "Inch" :=
    .head (b := "Foot") (Or.inl rfl) (.single (Or.inr rfl))
  -- No declaration leads out of the first three units, in either direction.
  have hclosed : ∀ v, islands.Joined "Length" "Yard" v → v ∈ ["Yard", "Foot", "Inch"] := by
    intro v hv
    induction hv with
    | refl => simp
    | tail _ hstep ih =>
      rcases hstep with hstep | hstep <;>
      · obtain ⟨d, hd, -, rfl, rfl⟩ := Builder.declares_eq_true.mp hstep
        simp only [islands, List.mem_cons, List.not_mem_nil, or_false] at hd
        rcases hd with rfl | rfl | rfl | rfl | rfl <;> simp_all
  refine ⟨c, hb, fun calls x y => ?_⟩
  obtain ⟨hiff, hsym⟩ := convertible_after hb rfl hfactors calls "Yard" "Inch"
  have hthere := (hiff x).mpr ⟨hyard, hinch, hjoined⟩
  refine ⟨hthere, (hsym x y).mp hthere, fun hconvert => ?_⟩
  have happart := ((convertible_after hb rfl hfactors calls "Yard" "Parsec").1 x).mp hconvert
  simpa using hclosed "Parsec" happart.2.2

end Converter

end Metrology
