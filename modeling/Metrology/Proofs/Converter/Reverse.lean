import Metrology.Proofs.Algebra.Inversion
import Metrology.Proofs.Converter.Assembly
import Metrology.Proofs.Decimal.Reciprocal

/-! # What derived edges undo

The edge back of a factor multiplies by its reciprocal, which is of use unless the factor is undefined,
infinite or so small that the reciprocal overflows. The edge back of a formula is its inverse, in the first
name of the target. If the formula uses that very name, the equation to be solved has one unknown, and what
comes out is a constant.
-/
namespace Metrology

/-- A weight whose results depend on the value. -/
def Weight.Sensitive : Weight → Prop
  | .multiplier x => Decimal.Proper x
  | .formula f names => ∃ name ∈ names, name ∈ f.vars

namespace Builder

variable {b : Builder} {d : Definition} {w : Weight}

theorem mem_links_of_derived? {c : Converter} (hb : b.build = .ok c) (hd : d ∈ b.definitions) {g : UnitGraph}
    (hg : c.graph? d.category = some g) (hw : b.derived? d = some w) :
    (⟨d.target, d.source, w⟩ : Graph.Link Weight) ∈ g.links := by
  refine (links_build hb hg).mem_iff.mpr (List.mem_flatMap.mpr ⟨d, List.mem_filter.mpr ⟨hd, beq_self_eq_true _⟩, ?_⟩)
  simp [linksOf, hw]

theorem derives_of_build {c : Converter} (hb : b.build = .ok c) (hd : d ∈ b.definitions) {g : UnitGraph}
    (hg : c.graph? d.category = some g) (hw : b.derived? d = some w) : b.Derives d w := by
  rw [graph?_build hb] at hg
  obtain ⟨g₀, hg₀, -⟩ := Option.map_eq_some_iff.mp hg
  obtain ⟨⟨forth, back⟩, hweights⟩ := weights_ok_of_build hb hg₀ d (List.mem_filter.mpr ⟨hd, beq_self_eq_true _⟩)
  exact derives_of_derived? hweights hw

/-- The edge that is derived for the way back. A reciprocal is of use if the factor is finite and above the
least divisor; an inverse has no other variable than the first name of the target, not even that one if the
formula is written in it as well, and it undoes an affine formula that is not. -/
theorem derived_spec {c : Converter} (hb : b.build = .ok c) (hd : d ∈ b.definitions) {g : UnitGraph}
    (hg : c.graph? d.category = some g) (hw : b.derived? d = some w) :
    (⟨d.target, d.source, w⟩ : Graph.Link Weight) ∈ g.links ∧
    ((∃ x, d.rule = .factor x ∧ w = .multiplier (1.0 / x) ∧
        (w.Sensitive ↔ x.isFinite = true ∧ Decimal.leastDivisor < x.abs)) ∨
      ∃ text f v back, d.rule = .formula text ∧ Formula.read text = .ok f ∧ f.vars = [v] ∧
        w = .formula back (b.namesFor d.target d.category) ∧ (∀ name ∈ back.vars, name = b.backName d) ∧
        (v = b.backName d → ¬ w.Sensitive) ∧
        (v ≠ b.backName d → ∀ a, Algebra.Affine.ofTree? v f.tree = some a →
          w.Sensitive ∧ back.tree = a.inverse.toTree (b.backName d) ∧
            ∀ q, ∃ r, f.tree.rational? v q = some r ∧ a.inverse.apply r = q)) := by
  refine ⟨mem_links_of_derived? hb hd hg hw, ?_⟩
  cases derives_of_build hb hd hg hw with
  | @reciprocal x hrule hzero => exact Or.inl ⟨x, hrule, rfl, Decimal.proper_one_div_iff⟩
  | @inverse text v f back hrule hread hvars hinvert =>
    have hover := (Formula.over_of_read hread).mono (Q := fun _ => True) fun _ _ => trivial
    refine Or.inr ⟨text, f, v, back, hrule, hread, hvars, rfl, ?_, ?_, ?_⟩
    · intro name hname
      exact ((Algebra.over_invert hover hinvert).mem_names (Formula.Tree.mem_vars.mp hname)).1
    · rintro hsame ⟨name, -, hname⟩
      rw [← hsame] at hinvert
      rw [Algebra.vars_invert_self hover hinvert] at hname
      cases hname
    · intro hne a ha
      obtain ⟨hslope, htree⟩ := Algebra.invert_affine hne ha hinvert
      have hinverse : a.inverse.slope ≠ 0 := one_div_ne_zero hslope
      refine ⟨⟨b.backName d, b.backName_mem d, ?_⟩, htree, fun q => ?_⟩
      · rw [Formula.vars, htree, Algebra.Affine.vars_toTree hinverse]
        exact List.mem_singleton.mpr rfl
      · exact ⟨a.apply q, Algebra.Affine.rational?_of_ofTree? ha, Algebra.Affine.inverse_apply hslope⟩

/-- Two scales that a formula joins, one that a factor joins to the first, and one that stands alone. -/
def scales : Builder :=
  ((empty ⟨true, true, true⟩ converterChannel).addUnits
    [⟨"Celsius", "c", "Temperature"⟩, ⟨"Fahrenheit", "f", "Temperature"⟩, ⟨"Newton", "n", "Temperature"⟩,
      ⟨"Gas Mark", "gm", "Temperature"⟩]).addDefinitions
    [toFahrenheit, ⟨"Temperature", "Celsius", "Newton", .factor 0.33⟩]

theorem weights_scales : scales.weights toFahrenheit =
    .ok (.formula fahrenheitFormula ["c", "Celsius"], some (.formula celsiusFormula ["f", "Fahrenheit"])) :=
  weights_toFahrenheit rfl rfl rfl rfl

/-- What the scales are built into, without solving the equation for the inverse. -/
def scalesConverter : Converter where
  graphs := scales.unitGraphs.map fun g =>
    addEdges (addEdges g toFahrenheit (.formula fahrenheitFormula ["c", "Celsius"])
      (some (.formula celsiusFormula ["f", "Fahrenheit"])))
      ⟨"Temperature", "Celsius", "Newton", .factor 0.33⟩ (.multiplier 0.33) (some (.multiplier (1.0 / 0.33)))
  table := scales.units
  caching := true
  channel := converterChannel

theorem build_scales : scales.build = .ok scalesConverter := by
  refine build_eq_ok.mpr ⟨fun d hd _ => ?_, ?_⟩
  · rcases List.mem_pair.mp hd with rfl | rfl
    · exact ⟨_, weights_scales⟩
    · exact ⟨_, rfl⟩
  · refine congrArg (Converter.mk · scales.units true converterChannel) (List.map_congr_left fun g hg => ?_)
    have hid : g.id = "Temperature" := by
      have hids : scales.unitGraphs.map (·.id) = ["Temperature"] := rfl
      exact List.mem_singleton.mp (hids ▸ List.mem_map_of_mem hg)
    have hall : scales.definitions.filter (fun d => d.category == "Temperature") =
      [toFahrenheit, ⟨"Temperature", "Celsius", "Newton", .factor 0.33⟩] := rfl
    have hfactor : scales.weights ⟨"Temperature", "Celsius", "Newton", .factor 0.33⟩ =
      .ok (.multiplier 0.33, some (.multiplier (1.0 / 0.33))) := rfl
    rw [hid, hall, List.foldl_cons, List.foldl_cons, List.foldl_nil, addDefinition, addDefinition,
      weights_scales, hfactor]

/-- The inverse of the formula is written in the abbreviation of Fahrenheit, and 0.33 is far from the least
divisor. -/
theorem derived_spec_scales : ∃ c g back, scales.build = .ok c ∧ c.graph? "Temperature" = some g ∧
    ⟨"Fahrenheit", "Celsius", back⟩ ∈ g.links ∧ back.Sensitive ∧
    ⟨"Newton", "Celsius", .multiplier (1.0 / 0.33)⟩ ∈ g.links ∧ (Weight.multiplier (1.0 / 0.33)).Sensitive := by
  have hgraph : (scalesConverter.graph? "Temperature").isSome = true := by decide +kernel
  obtain ⟨g, hg⟩ := Option.isSome_iff_exists.mp hgraph
  have hspec := derived_spec build_scales List.mem_cons_self hg (weights_eq_ok weights_scales).2
  have hspec' := derived_spec (d := ⟨"Temperature", "Celsius", "Newton", .factor 0.33⟩) build_scales
    (List.mem_cons_of_mem _ List.mem_cons_self) hg rfl
  refine ⟨scalesConverter, g, _, build_scales, hg, hspec.1, ?_, hspec'.1, ?_⟩
  · obtain ⟨x, hrule, -⟩ | ⟨text, f, v, back, hrule, hread, hvars, -, -, -, hundo⟩ := hspec.2
    · cases hrule
    · cases hrule
      obtain ⟨f', hread', hnames, htree⟩ := read_toFahrenheit
      obtain rfl := Except.ok.inj (hread.symm.trans hread')
      obtain rfl : v = "c" := by simpa [hnames] using hvars.symm
      exact (hundo (by decide) _ htree).1
  · obtain ⟨x, hrule, -, hproper⟩ | ⟨text, f, v, back, hrule, -⟩ := hspec'.2
    · cases hrule
      exact hproper.mpr ⟨by decide +kernel, by decide +kernel⟩
    · cases hrule

theorem exists_graph?_of_isSome {category : String}
    (h : (b.build.toOption.bind fun c => c.graph? category).isSome = true) :
    ∃ c g, b.build = .ok c ∧ c.graph? category = some g := by
  obtain ⟨g, hg⟩ := Option.isSome_iff_exists.mp h
  obtain ⟨c, hc, hg⟩ := Option.bind_eq_some_iff.mp hg
  exact ⟨c, g, toOption_eq_some.mp hc, hg⟩

/-- Two units with one abbreviation that a formula joins, and a third at an infinite factor from the
second. -/
def namesakes : Builder :=
  ((empty ⟨true, true, true⟩ converterChannel).addUnits
    [⟨"A", "x", "Length"⟩, ⟨"B", "x", "Length"⟩, ⟨"C", "y", "Length"⟩]).addDefinitions
    [⟨"Length", "A", "B", .formula "{x} * 2"⟩, ⟨"Length", "B", "C", .factor (1.0 / 0.0)⟩]

/-- The inverse of the formula is the number that it leaves as it is, and the reciprocal is zero. -/
theorem derived_insensitive : ∃ c g back, namesakes.build = .ok c ∧ c.graph? "Length" = some g ∧
    ⟨"B", "A", back⟩ ∈ g.links ∧ ¬ back.Sensitive ∧
    ⟨"C", "B", .multiplier (1.0 / (1.0 / 0.0))⟩ ∈ g.links ∧ ¬ (Weight.multiplier (1.0 / (1.0 / 0.0))).Sensitive := by
  obtain ⟨c, g, hb, hg⟩ : ∃ c g, namesakes.build = .ok c ∧ c.graph? "Length" = some g :=
    exists_graph?_of_isSome (by decide +kernel)
  have hback : (namesakes.derived? ⟨"Length", "A", "B", .formula "{x} * 2"⟩).isSome = true := by decide +kernel
  have hread : (Formula.read "{x} * 2").toOption.map Formula.vars = some ["x"] := by decide +kernel
  have hproper : ¬ ((1.0 / 0.0 : Float).isFinite = true ∧ Decimal.leastDivisor < (1.0 / 0.0 : Float).abs) := by
    decide +kernel
  obtain ⟨w, hw⟩ := Option.isSome_iff_exists.mp hback
  have hmem : (⟨"Length", "A", "B", .formula "{x} * 2"⟩ : Definition) ∈ namesakes.definitions := by
    simp [namesakes, addDefinitions]
  have hmem' : (⟨"Length", "B", "C", .factor (1.0 / 0.0)⟩ : Definition) ∈ namesakes.definitions := by
    simp [namesakes, addDefinitions]
  refine ⟨c, g, w, hb, hg, mem_links_of_derived? hb hmem hg hw, ?_, mem_links_of_derived? hb hmem' hg rfl, ?_⟩
  · cases derives_of_build hb hmem hg hw with
    | reciprocal hrule => cases hrule
    | @inverse text v f back hrule hread' hvars hinvert =>
      cases hrule
      rw [hread'] at hread
      have hnames : f.vars = ["x"] := Option.some.inj hread
      obtain rfl : v = "x" := by simpa [hnames] using hvars.symm
      have hover := (Formula.over_of_read hread').mono (Q := fun _ => True) fun _ _ => trivial
      rintro ⟨name, -, hname⟩
      rw [Algebra.vars_invert_self hover hinvert] at hname
      cases hname
  · exact fun h => hproper (Decimal.proper_one_div_iff.mp h)

end Builder

end Metrology
