import Metrology.Proofs.Converter.Build
import Metrology.Proofs.Converter.Weights
import Metrology.Proofs.Graph.Links

/-! # What a graph is built of

The graph of a category has the units of the category and the ends of its definitions as nodes. Each
definition gives a link for itself and, unless the way back is defined somewhere in the catalog, one for the
way back. What is defined is looked up in the list as a whole, so its order only matters for the numbers of
nodes and edges.
-/
namespace Metrology

namespace Builder

inductive Supply where
  | units (us : UnitTable)
  | definitions (ds : List Definition)

namespace Supply

def allUnits : List Supply → UnitTable
  | [] => []
  | .units us :: rest => us ++ allUnits rest
  | .definitions _ :: rest => allUnits rest

def allDefinitions : List Supply → List Definition
  | [] => []
  | .units _ :: rest => allDefinitions rest
  | .definitions ds :: rest => ds ++ allDefinitions rest

end Supply

def supply (b : Builder) : Supply → Builder
  | .units us => b.addUnits us
  | .definitions ds => b.addDefinitions ds

def supplyAll (b : Builder) (calls : List Supply) : Builder := calls.foldl supply b

def linksOf (b : Builder) (d : Definition) : List (Graph.Link Weight) :=
  (b.declared? d).toList.map (fun w => ⟨d.source, d.target, w⟩) ++
    (b.derived? d).toList.map fun w => ⟨d.target, d.source, w⟩

def addDefinition (b : Builder) (g : UnitGraph) (d : Definition) : UnitGraph :=
  match b.weights d with
  | .ok (forth, back) => addEdges g d forth back
  | .error _ => g

theorem supplyAll_eq (b : Builder) (calls : List Supply) : b.supplyAll calls =
    { b with
      units := b.units ++ Supply.allUnits calls
      definitions := b.definitions ++ Supply.allDefinitions calls } := by
  induction calls generalizing b with
  | nil => simp [supplyAll, Supply.allUnits, Supply.allDefinitions]
  | cons call rest ih =>
    have hrest := ih (b.supply call)
    rw [supplyAll] at hrest ⊢
    rw [List.foldl_cons, hrest]
    cases call <;> simp [supply, addUnits, addDefinitions, Supply.allUnits, Supply.allDefinitions]

/-- Builders that have been given the same, the definitions in any order. -/
structure Agrees (b b' : Builder) : Prop where
  policy : b'.policy = b.policy
  units : b'.units = b.units
  definitions : b'.definitions.Perm b.definitions

namespace Agrees

variable {b b' : Builder} (h : Agrees b b')
include h

theorem namesFor_eq (unit category : String) : b'.namesFor unit category = b.namesFor unit category := by
  rw [namesFor, namesFor, h.units]

theorem derivesBack_eq (d : Definition) : b'.derivesBack d = b.derivesBack d := by
  have hdeclares : b'.declares d.category d.target d.source = b.declares d.category d.target d.source :=
    h.definitions.any_eq
  rw [derivesBack, derivesBack, h.policy, hdeclares]

theorem weights_eq (d : Definition) : b'.weights d = b.weights d := by
  have hread : b'.readFormula d = b.readFormula d := by
    funext text
    simp only [readFormula, h.namesFor_eq]
  have hinverse : b'.inverseWeight d = b.inverseWeight d := by
    funext f
    simp only [inverseWeight, h.namesFor_eq]
  unfold weights
  rw [hread, hinverse, h.derivesBack_eq, h.namesFor_eq, h.policy]

theorem linksOf_eq (d : Definition) : b'.linksOf d = b.linksOf d := by
  have hinverse : b'.inverse? d = b.inverse? d := by
    funext f
    simp only [inverse?, h.namesFor_eq]
  unfold linksOf declared? derived?
  rw [hinverse, h.derivesBack_eq, h.namesFor_eq, h.policy]

end Agrees

structure Lists (graphs : List UnitGraph) (units : UnitTable) : Prop where
  isSome : ∀ category, (graphs.find? fun g => g.id == category).isSome ↔ ∃ u ∈ units, u.category = category
  values : ∀ category g, (graphs.find? fun g => g.id == category) = some g →
    ∀ v, v ∈ g.values ↔ ∃ u ∈ units, u.category = category ∧ u.unit = v
  links : ∀ category g, (graphs.find? fun g => g.id == category) = some g → g.links = []

theorem find?_insertUnit (graphs : List UnitGraph) (u : UnitEntry) (category : String) :
    ((insertUnit graphs u).find? fun g => g.id == category) =
      if u.category = category then
        some (((graphs.find? fun g => g.id == category).getD (Graph.empty category)).addNode u.unit).1
      else graphs.find? fun g => g.id == category := by
  induction graphs with
  | nil =>
    by_cases h : u.category = category
    · subst h
      simp [insertUnit, Graph.id_addNode, Graph.empty]
    · simp [insertUnit, Graph.id_addNode, Graph.empty, h]
  | cons g rest ih =>
    unfold insertUnit
    by_cases hg : g.id = u.category
    · rw [if_pos hg]
      by_cases h : u.category = category
      · simp [Graph.id_addNode, hg, h]
      · have hother : g.id ≠ category := fun hid => h (hg.symm.trans hid)
        simp [Graph.id_addNode, hother, h]
    · rw [if_neg hg, List.find?_cons, List.find?_cons, ih]
      by_cases hid : g.id = category
      · have hother : u.category ≠ category := fun h => hg (hid.trans h.symm)
        simp [hid, hother]
      · have hfalse : (g.id == category) = false := by simpa using hid
        simp only [hfalse]

theorem Lists.insertUnit {graphs : List UnitGraph} {units : UnitTable} (h : Lists graphs units)
    (hc : CoherentAll graphs) (u : UnitEntry) : Lists (insertUnit graphs u) (units ++ [u]) := by
  have hempty : (Graph.empty u.category : UnitGraph).values = [] := rfl
  refine ⟨fun category => ?_, fun category g hg => ?_, fun category g hg => ?_⟩
  · rw [find?_insertUnit]
    by_cases hu : u.category = category
    · simp [hu]
    · simp [hu, h.isSome category]
  · rw [find?_insertUnit] at hg
    by_cases hu : u.category = category
    · subst hu
      rw [if_pos rfl] at hg
      cases hg
      intro v
      rw [Graph.mem_values_addNode]
      cases hfound : graphs.find? fun g => g.id == u.category with
      | none =>
        have hnone : ¬ ∃ u' ∈ units, u'.category = u.category := by
          rw [← h.isSome, hfound]
          simp
        simp only [Option.getD_none, hempty, List.mem_append, List.mem_singleton]
        constructor
        · rintro (rfl | hv)
          · exact ⟨u, Or.inr rfl, rfl, rfl⟩
          · cases hv
        · rintro ⟨u', hu' | rfl, hcategory, rfl⟩
          · exact absurd ⟨u', hu', hcategory⟩ hnone
          · exact Or.inl rfl
      | some g =>
        simp only [Option.getD_some, h.values _ g hfound, List.mem_append, List.mem_singleton]
        constructor
        · rintro (rfl | ⟨u', hu', hv⟩)
          · exact ⟨u, Or.inr rfl, rfl, rfl⟩
          · exact ⟨u', Or.inl hu', hv⟩
        · rintro ⟨u', hu' | rfl, hcategory, rfl⟩
          · exact Or.inr ⟨u', hu', hcategory, rfl⟩
          · exact Or.inl rfl
    · rw [if_neg hu] at hg
      intro v
      rw [h.values category g hg]
      constructor
      · rintro ⟨u', hu', hv⟩
        exact ⟨u', List.mem_append_left _ hu', hv⟩
      · rintro ⟨u', hu', hcategory, hv⟩
        rcases List.mem_append.mp hu' with hu' | hu'
        · exact ⟨u', hu', hcategory, hv⟩
        · obtain rfl := List.mem_singleton.mp hu'
          exact absurd hcategory hu
  · rw [find?_insertUnit] at hg
    by_cases hu : u.category = category
    · rw [if_pos hu] at hg
      cases hg
      cases hfound : graphs.find? fun g => g.id == category with
      | none => exact (Graph.coherent_empty category).links_addNode u.unit
      | some g =>
        have hg := hc g (List.mem_of_find?_eq_some hfound)
        exact (hg.links_addNode u.unit).trans (h.links category g hfound)
    · rw [if_neg hu] at hg
      exact h.links category g hg

theorem lists_unitGraphs (b : Builder) : Lists b.unitGraphs b.units := by
  have hfold : ∀ (rest : UnitTable) {graphs : List UnitGraph} {units : UnitTable}, CoherentAll graphs →
    Lists graphs units →
      Lists (rest.foldl insertUnit graphs) (units ++ rest) := by
    intro rest
    induction rest with
    | nil => exact fun _ h => by simpa using h
    | cons u rest ih =>
      intro graphs units hc h
      have hrest := ih (hc.insertUnit u) (h.insertUnit hc u)
      rwa [List.append_assoc, List.singleton_append] at hrest
  have hnone : CoherentAll [] := fun g hg => by cases hg
  have hnil : Lists [] [] := ⟨by simp, by simp, by simp⟩
  exact hfold b.units hnone hnil

theorem id_addEdges (g : UnitGraph) (d : Definition) (forth : Weight) (back : Option Weight) :
    (addEdges g d forth back).id = g.id := by
  unfold addEdges addEnds
  cases back <;> simp [Graph.id_addNode]

@[simp] theorem id_addDefinition (b : Builder) (g : UnitGraph) (d : Definition) : (b.addDefinition g d).id = g.id := by
  unfold addDefinition
  split
  · exact id_addEdges _ _ _ _
  · rfl

theorem linkDefinition_eq_ok {b : Builder} {graphs graphs' : List UnitGraph} {d : Definition} :
    b.linkDefinition graphs d = .ok graphs' ↔
      ((graphs.any fun g => g.id == d.category) = true → ∃ w, b.weights d = .ok w) ∧
        graphs' = graphs.map fun g => if g.id == d.category then b.addDefinition g d else g := by
  unfold linkDefinition
  split
  · next hplaced =>
    cases hw : b.weights d with
    | error e => simp [hplaced]
    | ok w =>
      have hadd : ∀ g, b.addDefinition g d = addEdges g d w.1 w.2 := fun g => by rw [addDefinition, hw]
      simp only [Except.ok.injEq, exists_eq', implies_true, true_and, hadd]
      exact eq_comm
  · next hplaced =>
    have hsame : (graphs.map fun g => if g.id == d.category then b.addDefinition g d else g) = graphs := by
      refine (List.map_congr_left fun g hg => ?_).trans (List.map_id graphs)
      have hid : (g.id == d.category) = false := by
        simpa using List.any_eq_false.mp (Bool.eq_false_iff.mpr hplaced) g hg
      simp [hid]
    rw [hsame]
    simp only [Except.ok.injEq, hplaced, Bool.false_eq_true, false_implies, true_and]
    exact eq_comm

/-- Definitions add no graphs. -/
theorem any_map_addDefinition (b : Builder) (graphs : List UnitGraph) (d : Definition) (category : String) :
    ((graphs.map fun g => if g.id == d.category then b.addDefinition g d else g).any fun g => g.id == category) =
      graphs.any fun g => g.id == category := by
  rw [List.any_map]
  congr 1
  funext g
  dsimp only [Function.comp_apply]
  split <;> simp

/-- Building succeeds if all definitions of categories with units have weights; each graph takes those of its
category. -/
theorem linkDefinitions_eq_ok {b : Builder} {graphs graphs' : List UnitGraph} {ds : List Definition} :
    b.linkDefinitions graphs ds = .ok graphs' ↔
      (∀ d ∈ ds, (graphs.any fun g => g.id == d.category) = true → ∃ w, b.weights d = .ok w) ∧
        graphs' = graphs.map fun g => (ds.filter fun d => d.category == g.id).foldl b.addDefinition g := by
  induction ds generalizing graphs with
  | nil =>
    simp only [linkDefinitions, Except.ok.injEq, List.not_mem_nil, false_implies, implies_true, List.filter_nil,
      List.foldl_nil, List.map_id', true_and]
    exact eq_comm
  | cons d rest ih =>
    have hfold : ((graphs.map fun g => if g.id == d.category then b.addDefinition g d else g).map
        fun g => (rest.filter fun d => d.category == g.id).foldl b.addDefinition g) =
          graphs.map fun g => ((d :: rest).filter fun d => d.category == g.id).foldl b.addDefinition g := by
      rw [List.map_map]
      refine List.map_congr_left fun g _ => ?_
      dsimp only [Function.comp_apply]
      by_cases hid : g.id = d.category
      · simp [hid]
      · have hother : (d.category == g.id) = false := by simpa using fun h => hid h.symm
        simp [hid, hother]
    rw [← hfold]
    simp only [List.forall_mem_cons]
    unfold linkDefinitions
    cases hd : b.linkDefinition graphs d with
    | error e =>
      dsimp only
      constructor
      · intro h
        cases h
      · rintro ⟨⟨hweights, -⟩, -⟩
        have hok := linkDefinition_eq_ok.mpr ⟨hweights, rfl⟩
        rw [hd] at hok
        cases hok
    | ok graphs₁ =>
      obtain ⟨hweights, rfl⟩ := linkDefinition_eq_ok.mp hd
      dsimp only
      rw [ih]
      simp only [any_map_addDefinition]
      tauto

def definitionLinks (d : Definition) (forth : Weight) (back : Option Weight) : List (Graph.Link Weight) :=
  ⟨d.source, d.target, forth⟩ :: back.toList.map fun w => ⟨d.target, d.source, w⟩

theorem linksOf_eq_of_weights {b : Builder} {d : Definition} {forth : Weight} {back : Option Weight}
    (h : b.weights d = .ok (forth, back)) : b.linksOf d = definitionLinks d forth back := by
  obtain ⟨hforth, hback⟩ := weights_eq_ok h
  rw [linksOf, hforth, hback]
  rfl

section

variable {g : UnitGraph} (hg : g.Coherent) (d : Definition)

theorem indexOf?_addEnds (g : UnitGraph) (d : Definition) :
    (addEnds g d).graph.indexOf? d.source = some (addEnds g d).source ∧
    (addEnds g d).graph.indexOf? d.target = some (addEnds g d).target :=
  ⟨Graph.indexOf?_addNode_of_some (g.indexOf?_addNode_self d.source) d.target, Graph.indexOf?_addNode_self _ d.target⟩

theorem mem_values_addEdges (g : UnitGraph) (d : Definition) (forth : Weight) (back : Option Weight) {v : String} :
    v ∈ (addEdges g d forth back).values ↔ v = d.source ∨ v = d.target ∨ v ∈ g.values := by
  have hends : (addEdges g d forth back).values = (addEnds g d).graph.values := by
    unfold addEdges
    cases back <;> simp
  rw [hends, addEnds]
  dsimp only
  rw [Graph.mem_values_addNode, Graph.mem_values_addNode]
  tauto

include hg

theorem links_addEdges (forth : Weight) (back : Option Weight) :
    (addEdges g d forth back).links.Perm (definitionLinks d forth back ++ g.links) := by
  have hsource := hg.addNode d.source
  have hends : (addEnds g d).graph.Coherent := hsource.addNode d.target
  have hsame : (addEnds g d).graph.links = g.links := (hsource.links_addNode d.target).trans (hg.links_addNode d.source)
  obtain ⟨hs, ht⟩ := indexOf?_addEnds g d
  have hforth := hends.links_link hs ht forth
  rw [hsame] at hforth
  unfold addEdges definitionLinks
  cases back with
  | none => exact hforth
  | some w =>
    have hext := Graph.Extends.link (addEnds g d).graph (addEnds g d).source (addEnds g d).target forth
    have hback := (hends.link (addEnds g d).source (addEnds g d).target forth).links_link
      ((hext.indexOf?_eq _).trans ht) ((hext.indexOf?_eq _).trans hs) w
    exact hback.trans ((hforth.cons _).trans (List.Perm.swap _ _ _))

theorem weightBetween?_addEnds {source target : String} {w : Weight} (h : g.weightBetween? source target = some w) :
    (addEnds g d).graph.weightBetween? source target = some w :=
  (hg.addNode d.source).weightBetween?_addNode (hg.weightBetween?_addNode h d.source) d.target

theorem weightBetween?_addEdges {source target : String} {w : Weight} (forth : Weight) (back : Option Weight)
    (h : g.weightBetween? source target = some w) :
    (addEdges g d forth back).weightBetween? source target = some w := by
  have hends : (addEnds g d).graph.Coherent := (hg.addNode d.source).addNode d.target
  have hlink := hends.link (addEnds g d).source (addEnds g d).target forth
  have hforth := (Graph.Extends.link _ _ _ forth).weightBetween? hends hlink (weightBetween?_addEnds hg d h)
  unfold addEdges
  cases back with
  | none => exact hforth
  | some w => exact (Graph.Extends.link _ _ _ w).weightBetween? hlink (hlink.link _ _ w) hforth

/-- The first definition of a pair decides the weight between its units. -/
theorem weightBetween?_addEdges_self (forth : Weight) (back : Option Weight)
    (hnone : ∀ w, (⟨d.source, d.target, w⟩ : Graph.Link Weight) ∉ g.links) :
    (addEdges g d forth back).weightBetween? d.source d.target = some forth := by
  have hsource := hg.addNode d.source
  have hends : (addEnds g d).graph.Coherent := hsource.addNode d.target
  have hlink := hends.link (addEnds g d).source (addEnds g d).target forth
  have hsame : (addEnds g d).graph.links = g.links := (hsource.links_addNode d.target).trans (hg.links_addNode d.source)
  obtain ⟨hs, ht⟩ := indexOf?_addEnds g d
  have hforth := hends.weightBetween?_link hs ht (by rwa [hsame]) forth
  unfold addEdges
  cases back with
  | none => exact hforth
  | some w => exact (Graph.Extends.link _ _ _ w).weightBetween? hlink (hlink.link _ _ w) hforth

end

section

variable {b : Builder} {ds : List Definition} (hok : ∀ d ∈ ds, ∃ w, b.weights d = .ok w) {g : UnitGraph}
include hok

theorem mem_values_foldl {v : String} :
    v ∈ (ds.foldl b.addDefinition g).values ↔ v ∈ g.values ∨ ∃ d ∈ ds, v = d.source ∨ v = d.target := by
  induction ds generalizing g with
  | nil => simp
  | cons d rest ih =>
    obtain ⟨⟨forth, back⟩, hd⟩ := hok d List.mem_cons_self
    have hadd : b.addDefinition g d = addEdges g d forth back := by rw [addDefinition, hd]
    rw [List.foldl_cons, ih fun d' hd' => hok d' (List.mem_cons_of_mem _ hd'), hadd, mem_values_addEdges]
    simp only [List.exists_mem_cons_iff, or_assoc, or_left_comm]

theorem links_foldl (hg : g.Coherent) :
    (ds.foldl b.addDefinition g).Coherent ∧
        (ds.foldl b.addDefinition g).links.Perm (ds.flatMap b.linksOf ++ g.links) := by
  induction ds generalizing g with
  | nil => exact ⟨hg, List.Perm.refl _⟩
  | cons d rest ih =>
    obtain ⟨⟨forth, back⟩, hd⟩ := hok d List.mem_cons_self
    have hadd : b.addDefinition g d = addEdges g d forth back := by rw [addDefinition, hd]
    have hlinks := links_addEdges hg d forth back
    rw [← linksOf_eq_of_weights hd] at hlinks
    obtain ⟨hrest, hperm⟩ := ih (fun d' hd' => hok d' (List.mem_cons_of_mem _ hd')) (coherent_addEdges hg d forth back)
    rw [List.foldl_cons, hadd]
    refine ⟨hrest, hperm.trans ((hlinks.append_left _).trans ?_)⟩
    rw [List.flatMap_cons, ← List.append_assoc]
    exact List.perm_append_comm.append_right _

theorem weightBetween?_foldl (hg : g.Coherent) {source target : String} {w : Weight}
    (h : g.weightBetween? source target = some w) :
    (ds.foldl b.addDefinition g).weightBetween? source target = some w := by
  induction ds generalizing g with
  | nil => exact h
  | cons d rest ih =>
    obtain ⟨⟨forth, back⟩, hd⟩ := hok d List.mem_cons_self
    have hadd : b.addDefinition g d = addEdges g d forth back := by rw [addDefinition, hd]
    rw [List.foldl_cons, hadd]
    exact ih (fun d' hd' => hok d' (List.mem_cons_of_mem _ hd')) (coherent_addEdges hg d forth back)
      (weightBetween?_addEdges hg d forth back h)

end

theorem mem_linksOf {b : Builder} {d : Definition} {source target : String} {w : Weight}
    (h : (⟨source, target, w⟩ : Graph.Link Weight) ∈ b.linksOf d) :
    (d.source = source ∧ d.target = target) ∨
      (d.target = source ∧ d.source = target ∧ b.declares d.category source target = false) := by
  rcases List.mem_append.mp h with h | h
  · obtain ⟨w', -, hlink⟩ := List.mem_map.mp h
    obtain ⟨hsource, htarget, -⟩ := Graph.Link.mk.inj hlink
    exact Or.inl ⟨hsource, htarget⟩
  · obtain ⟨w', hw, hlink⟩ := List.mem_map.mp h
    obtain ⟨rfl, rfl, -⟩ := Graph.Link.mk.inj hlink
    exact Or.inr ⟨rfl, rfl, declares_eq_false_of_derived? (Option.mem_toList.mp hw)⟩

def first? (b : Builder) (category source target : String) : Option Definition :=
  b.definitions.find? fun d => d.category == category && d.source == source && d.target == target

/-- Before the first definition of a pair no link joins it, not even a derived one. -/
theorem weightBetween?_first {b : Builder} {category source target : String} {d : Definition}
    (hfirst : b.first? category source target = some d) {g : UnitGraph} (hg : g.Coherent) (hlinks : g.links = [])
    (hok : ∀ d ∈ b.definitions.filter fun d => d.category == category, ∃ w, b.weights d = .ok w) :
    ((b.definitions.filter fun d => d.category == category).foldl b.addDefinition g).weightBetween? source target =
      b.declared? d := by
  obtain ⟨hd, before, after, hsplit, hbefore⟩ := List.find?_eq_some_iff_append.mp hfirst
  simp only [Bool.and_eq_true, beq_iff_eq] at hd
  obtain ⟨⟨rfl, rfl⟩, rfl⟩ := hd
  have hfilter : (b.definitions.filter fun d' => d'.category == d.category) =
      (before.filter fun d' => d'.category == d.category) ++ d :: after.filter fun d' => d'.category == d.category := by
    rw [hsplit, List.filter_append, List.filter_cons, if_pos (beq_self_eq_true _)]
  rw [hfilter] at hok ⊢
  rw [List.foldl_append, List.foldl_cons]
  obtain ⟨⟨forth, back⟩, hweights⟩ := hok d (List.mem_append_right _ List.mem_cons_self)
  obtain ⟨hstart, hperm⟩ := links_foldl (fun d' hd' => hok d' (List.mem_append_left _ hd')) hg
  have hadd : ∀ g, b.addDefinition g d = addEdges g d forth back := fun g => by rw [addDefinition, hweights]
  rw [hadd, (weights_eq_ok hweights).1]
  refine weightBetween?_foldl (fun d' hd' => hok d' (List.mem_append_right _ (List.mem_cons_of_mem _ hd')))
    (coherent_addEdges hstart d forth back) (weightBetween?_addEdges_self hstart d forth back fun w hw => ?_)
  rw [hperm.mem_iff, hlinks, List.append_nil] at hw
  obtain ⟨d', hd', hlink⟩ := List.mem_flatMap.mp hw
  obtain ⟨hmem, hcategory⟩ := List.mem_filter.mp hd'
  rcases mem_linksOf hlink with ⟨hsource, htarget⟩ | ⟨-, -, hundeclared⟩
  · have hno := hbefore d' hmem
    simp [eq_of_beq hcategory, hsource, htarget] at hno
  · have hmem : d ∈ b.definitions := by simp [hsplit]
    rw [eq_of_beq hcategory] at hundeclared
    have hno := List.any_eq_false.mp hundeclared d hmem
    simp at hno

def assembled (b : Builder) : Converter where
  graphs := b.unitGraphs.map fun g => (b.definitions.filter fun d => d.category == g.id).foldl b.addDefinition g
  table := b.units
  caching := b.policy.caching
  channel := b.channel

theorem build_eq_ok {b : Builder} {c : Converter} : b.build = .ok c ↔
    (∀ d ∈ b.definitions, (b.unitGraphs.any fun g => g.id == d.category) = true → ∃ w, b.weights d = .ok w) ∧
      c = b.assembled := by
  unfold build
  cases h : b.linkDefinitions b.unitGraphs b.definitions with
  | error e =>
    constructor
    · intro hc
      cases hc
    · rintro ⟨hok, -⟩
      rw [linkDefinitions_eq_ok.mpr ⟨hok, rfl⟩] at h
      cases h
  | ok graphs =>
    obtain ⟨hok, rfl⟩ := linkDefinitions_eq_ok.mp h
    simp only [Except.ok.injEq]
    exact ⟨fun hc => ⟨hok, hc.symm⟩, fun hc => hc.2.symm⟩

theorem build_of_isTame {b : Builder} (h : b.definitions.all b.isTame = true) : b.build = .ok b.assembled :=
  build_eq_ok.mpr ⟨fun d hd _ => exists_weights_of_isTame (List.all_eq_true.mp h d hd), rfl⟩

theorem id_foldl (b : Builder) (ds : List Definition) (g : UnitGraph) : (ds.foldl b.addDefinition g).id = g.id := by
  induction ds generalizing g with
  | nil => rfl
  | cons d rest ih => rw [List.foldl_cons, ih, id_addDefinition]

/-- The graph of a category is the one of its units with the definitions of the category added. -/
theorem graph?_build {b : Builder} {c : Converter} (hb : b.build = .ok c) (category : String) :
    c.graph? category = (b.unitGraphs.find? fun g => g.id == category).map fun g =>
      (b.definitions.filter fun d => d.category == category).foldl b.addDefinition g := by
  obtain ⟨-, rfl⟩ := build_eq_ok.mp hb
  rw [Converter.graph?, assembled, List.find?_map]
  have hid : ((fun g : UnitGraph => g.id == category) ∘ fun g =>
      (b.definitions.filter fun d => d.category == g.id).foldl b.addDefinition g) = fun g => g.id == category := by
    funext g
    simp only [Function.comp_apply, id_foldl]
  rw [hid]
  cases hg : b.unitGraphs.find? fun g => g.id == category with
  | none => rfl
  | some g =>
    have hname : g.id = category := by simpa using List.find?_some hg
    rw [Option.map_some, Option.map_some, hname]

theorem isSome_graph?_build {b : Builder} {c : Converter} (hb : b.build = .ok c) (category : String) :
    (c.graph? category).isSome ↔ ∃ u ∈ b.units, u.category = category := by
  rw [graph?_build hb, Option.isSome_map, (lists_unitGraphs b).isSome]

theorem weights_ok_of_build {b : Builder} {c : Converter} (hb : b.build = .ok c) {category : String} {g : UnitGraph}
    (hg : (b.unitGraphs.find? fun g => g.id == category) = some g) :
    ∀ d ∈ b.definitions.filter fun d => d.category == category, ∃ w, b.weights d = .ok w := by
  intro d hd
  obtain ⟨hmem, hcategory⟩ := List.mem_filter.mp hd
  have hid : (g.id == category) = true := List.find?_some (p := fun g : UnitGraph => g.id == category) hg
  refine (build_eq_ok.mp hb).1 d hmem (List.any_eq_true.mpr ⟨g, List.mem_of_find?_eq_some hg, ?_⟩)
  rw [eq_of_beq hcategory, hid]

/-- The graph of a category has the links of its definitions and no others. -/
theorem links_build {b : Builder} {c : Converter} (hb : b.build = .ok c) {category : String} {g : UnitGraph}
    (hg : c.graph? category = some g) :
    g.links.Perm ((b.definitions.filter fun d => d.category == category).flatMap b.linksOf) := by
  rw [graph?_build hb] at hg
  obtain ⟨g₀, hg₀, rfl⟩ := Option.map_eq_some_iff.mp hg
  have hstart := coherentAll_unitGraphs b g₀ (List.mem_of_find?_eq_some hg₀)
  have hlinks := (links_foldl (weights_ok_of_build hb hg₀) hstart).2
  rwa [(lists_unitGraphs b).links category g₀ hg₀, List.append_nil] at hlinks

/-- A builder that has been given the same in another order builds the same graphs, but for the numbers in
them. -/
theorem Agrees.build {b b' : Builder} (h : Agrees b b') {c : Converter} (hb : b.build = .ok c) :
    ∃ c', b'.build = .ok c' ∧ c'.categories = c.categories ∧ ∀ category,
      Option.Rel (fun g g' : UnitGraph => (∀ v, v ∈ g'.values ↔ v ∈ g.values) ∧ g'.links.Perm g.links)
        (c.graph? category) (c'.graph? category) := by
  have hgraphs : b'.unitGraphs = b.unitGraphs := by rw [unitGraphs, unitGraphs, h.units]
  obtain ⟨hok, hc⟩ := build_eq_ok.mp hb
  have hb' : b'.build = .ok b'.assembled := by
    refine build_eq_ok.mpr ⟨fun d hd hplaced => ?_, rfl⟩
    rw [hgraphs] at hplaced
    rw [h.weights_eq]
    exact hok d (h.definitions.mem_iff.mp hd) hplaced
  refine ⟨_, hb', ?_, fun category => ?_⟩
  · subst hc
    simp only [Converter.categories, assembled, hgraphs, List.map_map]
    refine List.map_congr_left fun g _ => ?_
    simp only [Function.comp_apply, id_foldl]
  · rw [graph?_build hb, graph?_build hb', hgraphs]
    cases hg : b.unitGraphs.find? fun g => g.id == category with
    | none => exact .none
    | some g =>
      have hcoherent := coherentAll_unitGraphs b g (List.mem_of_find?_eq_some hg)
      have hdefinitions := h.definitions.filter fun d => d.category == category
      have hweights := weights_ok_of_build hb hg
      have hweights' := weights_ok_of_build hb' (hgraphs ▸ hg)
      refine .some ⟨fun v => ?_, ?_⟩
      · rw [mem_values_foldl hweights, mem_values_foldl hweights']
        simp only [hdefinitions.mem_iff]
      · have hlinks := (links_foldl hweights hcoherent).2
        have hlinks' := (links_foldl hweights' hcoherent).2
        have hsame : b'.linksOf = b.linksOf := funext h.linksOf_eq
        rw [hsame] at hlinks'
        exact hlinks'.trans (((hdefinitions.flatMap_right _).append_right _).trans hlinks.symm)

/-- What a builder makes of its units and definitions, and that it makes the same of them in whatever order
and portions the definitions come. -/
theorem build_spec {b : Builder} {c : Converter} (hb : b.build = .ok c) :
    (∀ category, (c.graph? category).isSome ↔ ∃ u ∈ b.units, u.category = category) ∧
    (∀ category g, c.graph? category = some g →
      g.values.Nodup ∧
      (∀ v, v ∈ g.values ↔ (∃ u ∈ b.units, u.category = category ∧ u.unit = v) ∨
        ∃ d ∈ b.definitions, d.category = category ∧ (v = d.source ∨ v = d.target)) ∧
      g.links.Perm ((b.definitions.filter fun d => d.category == category).flatMap b.linksOf) ∧
      (∀ d ∈ b.definitions, d.category = category → (b.declared? d).isSome) ∧
      (∀ d ∈ b.definitions, (b.derived? d).isSome → ∀ d' ∈ b.definitions,
        ¬ (d'.category = d.category ∧ d'.source = d.target ∧ d'.target = d.source)) ∧
      ∀ source target d, b.first? category source target = some d → c.weight? category source target = b.declared? d) ∧
    ∀ calls, Supply.allUnits calls = b.units → (Supply.allDefinitions calls).Perm b.definitions →
      ∃ c', ((empty b.policy b.channel).supplyAll calls).build = .ok c' ∧ c'.categories = c.categories ∧ ∀ category,
        Option.Rel (fun g g' : UnitGraph => (∀ v, v ∈ g'.values ↔ v ∈ g.values) ∧ g'.links.Perm g.links)
          (c.graph? category) (c'.graph? category) := by
  have hlists := lists_unitGraphs b
  refine ⟨fun category => ?_, fun category g hg => ?_, fun calls hunits hdefinitions => ?_⟩
  · exact isSome_graph?_build hb category
  · have hcoherent := coherent_build hb category g hg
    have hgraph := hg
    rw [graph?_build hb] at hgraph
    obtain ⟨g₀, hg₀, rfl⟩ := Option.map_eq_some_iff.mp hgraph
    have hstart := coherentAll_unitGraphs b g₀ (List.mem_of_find?_eq_some hg₀)
    have hweights := weights_ok_of_build hb hg₀
    have hempty := hlists.links category g₀ hg₀
    refine ⟨hcoherent.values, fun v => ?_, links_build hb hg, ?_, ?_, ?_⟩
    · rw [mem_values_foldl hweights, hlists.values category g₀ hg₀]
      simp only [List.mem_filter, beq_iff_eq, and_assoc]
    · intro d hd hcategory
      obtain ⟨⟨forth, back⟩, hd⟩ := hweights d (List.mem_filter.mpr ⟨hd, by simp [hcategory]⟩)
      rw [(weights_eq_ok hd).1]
      rfl
    · rintro d - hback d' hd' ⟨hcategory, hsource, htarget⟩
      obtain ⟨w, hw⟩ := Option.isSome_iff_exists.mp hback
      have hno := List.any_eq_false.mp (declares_eq_false_of_derived? hw) d' hd'
      simp [hcategory, hsource, htarget] at hno
    · intro source target d hfirst
      rw [Converter.weight?, hg, Option.bind_some]
      exact weightBetween?_first hfirst hstart hempty hweights
  · refine Agrees.build ⟨?_, ?_, ?_⟩ hb
    · rw [supplyAll_eq]
      rfl
    · rw [supplyAll_eq, ← hunits]
      rfl
    · rw [supplyAll_eq]
      exact hdefinitions

/-- Fahrenheit from Celsius, whose first names are `c` and `f`. -/
def toFahrenheit : Definition := ⟨"Temperature", "Celsius", "Fahrenheit", .formula "{c} * 1.8 + 32"⟩

def fahrenheitFormula : Formula := (Formula.read "{c} * 1.8 + 32").toOption.getD ⟨"", .number 0⟩

def celsiusFormula : Formula := .ofTree ((⟨9 / 5, 32⟩ : Algebra.Affine).inverse.toTree "f")

theorem read_toFahrenheit : ∃ f, Formula.read "{c} * 1.8 + 32" = .ok f ∧ f.vars = ["c"] ∧
    Algebra.Affine.ofTree? "c" f.tree = some ⟨9 / 5, 32⟩ := by
  have haffine : (Formula.read "{c} * 1.8 + 32").toOption.map (fun f => (f.vars, Algebra.Affine.ofTree? "c" f.tree)) =
      some (["c"], some ⟨9 / 5, 32⟩) := by decide +kernel
  obtain ⟨f, hf, hfound⟩ := Option.map_eq_some_iff.mp haffine
  obtain ⟨hvars, ha⟩ := Prod.mk.inj hfound
  exact ⟨f, toOption_eq_some.mp hf, hvars, ha⟩

theorem weights_toFahrenheit {b : Builder} (hsource : b.namesFor "Celsius" "Temperature" = ["c", "Celsius"])
    (htarget : b.namesFor "Fahrenheit" "Temperature" = ["f", "Fahrenheit"]) (hback : b.derivesBack toFahrenheit = true)
    (hpolicy : b.policy.invert = true) : b.weights toFahrenheit =
      .ok (.formula fahrenheitFormula ["c", "Celsius"], some (.formula celsiusFormula ["f", "Fahrenheit"])) := by
  obtain ⟨f, hf, hvars, ha⟩ := read_toFahrenheit
  have hformula : fahrenheitFormula = f := by
    rw [fahrenheitFormula, hf]
    rfl
  have hread : b.readFormula toFahrenheit "{c} * 1.8 + 32" = .ok f := by
    unfold readFormula
    rw [hf]
    simp [hvars, toFahrenheit, hsource]
  have hname : b.backName toFahrenheit = "f" := by
    rw [backName]
    exact congrArg (List.headD · "Fahrenheit") htarget
  have hweights := weights_of_affine rfl hread hvars ha (by norm_num) (by rw [hname]; decide) hback hpolicy
  rw [hweights, hname, hformula]
  simp only [toFahrenheit, hsource, htarget, celsiusFormula]

/-- A pair that is defined twice, its way back, a unit without an entry, a unit and itself, a formula, and a
category without units. -/
def mixed : Builder :=
  ((empty ⟨true, true, true⟩ converterChannel).addUnits
    [⟨"Yard", "yd", "Length"⟩, ⟨"Foot", "ft", "Length"⟩, ⟨"Celsius", "c", "Temperature"⟩,
      ⟨"Fahrenheit", "f", "Temperature"⟩]).addDefinitions
    [⟨"Length", "Yard", "Foot", .factor 3⟩, ⟨"Length", "Yard", "Foot", .factor 3.5⟩,
      ⟨"Length", "Foot", "Yard", .factor 0.25⟩,
      ⟨"Length", "Foot", "Inch", .factor 12⟩, ⟨"Length", "Foot", "Foot", .factor 1⟩, toFahrenheit,
      ⟨"Time", "Hour", "Minute", .factor 60⟩]

/-- The same in portions: some definitions first, then the units one by one with other definitions between
them. -/
def mixedPortions : List Supply :=
  [.definitions [⟨"Time", "Hour", "Minute", .factor 60⟩, toFahrenheit, ⟨"Length", "Foot", "Foot", .factor 1⟩],
    .units [⟨"Yard", "yd", "Length"⟩],
    .definitions [⟨"Length", "Foot", "Inch", .factor 12⟩, ⟨"Length", "Foot", "Yard", .factor 0.25⟩,
      ⟨"Length", "Yard", "Foot", .factor 3.5⟩],
    .units [⟨"Foot", "ft", "Length"⟩, ⟨"Celsius", "c", "Temperature"⟩, ⟨"Fahrenheit", "f", "Temperature"⟩],
    .definitions [⟨"Length", "Yard", "Foot", .factor 3⟩]]

theorem build_spec_mixed : ∃ c g t, mixed.build = .ok c ∧ c.graph? "Length" = some g ∧ c.graph? "Temperature" = some t ∧
    g.links.Perm [⟨"Yard", "Foot", .multiplier 3⟩, ⟨"Yard", "Foot", .multiplier 3.5⟩,
      ⟨"Foot", "Yard", .multiplier 0.25⟩,
      ⟨"Foot", "Inch", .multiplier 12⟩, ⟨"Inch", "Foot", .multiplier (1.0 / 12)⟩, ⟨"Foot", "Foot", .multiplier 1⟩] ∧
    t.links.Perm [⟨"Celsius", "Fahrenheit", .formula fahrenheitFormula ["c", "Celsius"]⟩,
      ⟨"Fahrenheit", "Celsius", .formula celsiusFormula ["f", "Fahrenheit"]⟩] ∧
    c.weight? "Length" "Yard" "Foot" = some (.multiplier 3) ∧ "Inch" ∈ g.values ∧ c.graph? "Time" = none ∧
    Supply.allUnits mixedPortions = mixed.units ∧ (Supply.allDefinitions mixedPortions).Perm mixed.definitions ∧
    ∃ c' g', ((empty mixed.policy mixed.channel).supplyAll mixedPortions).build = .ok c' ∧
      c'.graph? "Length" = some g' ∧ g'.links.Perm g.links := by
  have hb : mixed.build = .ok mixed.assembled := build_of_isTame (by decide +kernel)
  have hweights := weights_toFahrenheit (b := mixed) (by decide +kernel) (by decide +kernel) (by decide +kernel) rfl
  have hformula : mixed.linksOf toFahrenheit = [⟨"Celsius", "Fahrenheit", .formula fahrenheitFormula ["c", "Celsius"]⟩,
      ⟨"Fahrenheit", "Celsius", .formula celsiusFormula ["f", "Fahrenheit"]⟩] := linksOf_eq_of_weights hweights
  have hdefinitions : (Supply.allDefinitions mixedPortions).Perm mixed.definitions :=
    List.reverse_perm mixed.definitions
  obtain ⟨hcategories, hgraphs, hportions⟩ := build_spec hb
  obtain ⟨g, hg⟩ := Option.isSome_iff_exists.mp ((hcategories "Length").mpr ⟨⟨"Yard", "yd", "Length"⟩, by decide, rfl⟩)
  obtain ⟨t, ht⟩ := Option.isSome_iff_exists.mp
    ((hcategories "Temperature").mpr ⟨⟨"Celsius", "c", "Temperature"⟩, by decide, rfl⟩)
  have htime : ¬ (mixed.assembled.graph? "Time").isSome := by
    rw [hcategories]
    decide
  obtain ⟨-, hvalues, hlinks, -, -, hfirst⟩ := hgraphs "Length" g hg
  obtain ⟨-, -, hlinks', -⟩ := hgraphs "Temperature" t ht
  have htemperature : mixed.definitions.filter (fun d => d.category == "Temperature") = [toFahrenheit] := rfl
  rw [htemperature, List.flatMap_singleton, hformula] at hlinks'
  obtain ⟨c', hc', -, hgraphs'⟩ := hportions mixedPortions rfl hdefinitions
  have hlength := hgraphs' "Length"
  rw [hg] at hlength
  generalize hfound : c'.graph? "Length" = found at hlength
  cases hlength with
  | @some _ g' h =>
    refine ⟨mixed.assembled, g, t, hb, hg, ht, hlinks, hlinks',
      hfirst "Yard" "Foot" ⟨"Length", "Yard", "Foot", .factor 3⟩ rfl,
      ?_, ?_, rfl, hdefinitions, c', g', hc', hfound, h.2⟩
    · exact (hvalues "Inch").mpr (Or.inr ⟨⟨"Length", "Foot", "Inch", .factor 12⟩, by simp [mixed, addDefinitions], rfl,
        Or.inr rfl⟩)
    · exact Option.not_isSome_iff_eq_none.mp htime

end Builder

end Metrology
