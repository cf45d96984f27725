import Metrology.Proofs.Converter.History

/-! # What building makes

A builder only adds nodes and edges to the graphs of its categories, and edges only with the weights of a
definition. What these keep holds of every graph of a built converter; coherence is the first such property.
-/
namespace Metrology.Builder

section Kept

variable {P : UnitGraph → Prop}

theorem forall_insertUnit (hempty : ∀ category, P (Graph.empty category)) (hnode : ∀ g v, P g → P (g.addNode v).1)
    {graphs : List UnitGraph} (h : ∀ g ∈ graphs, P g) (u : UnitEntry) : ∀ g ∈ insertUnit graphs u, P g := by
  induction graphs with
  | nil =>
    intro g hg
    obtain rfl := List.mem_singleton.mp hg
    exact hnode _ u.unit (hempty u.category)
  | cons g rest ih =>
    obtain ⟨hg, hrest⟩ := List.forall_mem_cons.mp h
    unfold insertUnit
    split
    · exact List.forall_mem_cons.mpr ⟨hnode g u.unit hg, hrest⟩
    · exact List.forall_mem_cons.mpr ⟨hg, ih hrest⟩

theorem forall_unitGraphs (hempty : ∀ category, P (Graph.empty category)) (hnode : ∀ g v, P g → P (g.addNode v).1)
    (b : Builder) : ∀ g ∈ b.unitGraphs, P g :=
  List.foldlRecOn b.units insertUnit (motive := fun graphs => ∀ g ∈ graphs, P g) (by simp)
    fun _ h u _ => forall_insertUnit hempty hnode h u

theorem forall_linkDefinition {b : Builder} {graphs graphs' : List UnitGraph} {d : Definition}
    (hadd : ∀ forth back, b.weights d = .ok (forth, back) → ∀ g, P g → P (addEdges g d forth back))
    (h : ∀ g ∈ graphs, P g) (hlink : b.linkDefinition graphs d = .ok graphs') : ∀ g ∈ graphs', P g := by
  unfold linkDefinition at hlink
  split at hlink
  · split at hlink
    · cases hlink
    · next forth back hweights =>
      cases hlink
      intro g' hg'
      obtain ⟨g, hg, rfl⟩ := List.mem_map.mp hg'
      split
      · exact hadd forth back hweights g (h g hg)
      · exact h g hg
  · cases hlink
    exact h

theorem forall_linkDefinitions {b : Builder} {graphs graphs' : List UnitGraph} {ds : List Definition}
    (hadd : ∀ d ∈ ds, ∀ forth back, b.weights d = .ok (forth, back) → ∀ g, P g → P (addEdges g d forth back))
    (h : ∀ g ∈ graphs, P g) (hlink : b.linkDefinitions graphs ds = .ok graphs') : ∀ g ∈ graphs', P g := by
  induction ds generalizing graphs with
  | nil =>
    cases hlink
    exact h
  | cons d rest ih =>
    obtain ⟨hd, hrest⟩ := List.forall_mem_cons.mp hadd
    unfold linkDefinitions at hlink
    split at hlink
    · cases hlink
    · next graphs₁ hfirst => exact ih hrest (forall_linkDefinition hd h hfirst) hlink

/-- What nodes and the edges of definitions keep holds of every graph that has been built. -/
theorem forall_build {b : Builder} {c : Converter} (hb : b.build = .ok c)
    (hempty : ∀ category, P (Graph.empty category)) (hnode : ∀ g v, P g → P (g.addNode v).1)
    (hadd : ∀ d ∈ b.definitions, ∀ forth back, b.weights d = .ok (forth, back) → ∀ g, P g → P (addEdges g d forth back))
    {category : String} {g : UnitGraph} (hg : c.graph? category = some g) : P g := by
  unfold build at hb
  split at hb
  · cases hb
  · next graphs hlink =>
    cases hb
    have hall := forall_linkDefinitions hadd (forall_unitGraphs hempty hnode b) hlink
    exact hall g (List.mem_of_find?_eq_some hg)

end Kept

def CoherentAll (graphs : List UnitGraph) : Prop := ∀ g ∈ graphs, g.Coherent

theorem CoherentAll.insertUnit {graphs : List UnitGraph} (h : CoherentAll graphs) (u : UnitEntry) :
    CoherentAll (insertUnit graphs u) :=
  forall_insertUnit Graph.coherent_empty (fun _ v hg => hg.addNode v) h u

theorem coherentAll_unitGraphs (b : Builder) : CoherentAll b.unitGraphs :=
  forall_unitGraphs Graph.coherent_empty (fun _ v hg => hg.addNode v) b

theorem coherent_addEdges {g : UnitGraph} (hg : g.Coherent) (d : Definition) (forth : Weight) (back : Option Weight) :
    (addEdges g d forth back).Coherent := by
  have hends : (addEnds g d).graph.Coherent := (hg.addNode d.source).addNode d.target
  unfold addEdges
  cases back with
  | none => exact hends.link _ _ _
  | some w => exact (hends.link _ _ _).link _ _ _

theorem coherent_build {b : Builder} {c : Converter} (h : b.build = .ok c) : c.Coherent := fun _ _ =>
  forall_build h Graph.coherent_empty (fun _ v hg => hg.addNode v) fun d _ forth back _ _ hg =>
    coherent_addEdges hg d forth back

end Metrology.Builder
