import Metrology.Proofs.Service.Shapes
import Metrology.Proofs.UnitTable.Rows

/-! # The listing of units

A converter has one graph for each category of its units, in the order in which the table comes to the
categories, and keeps them whatever is converted. So the service lists the categories of its catalog, and
tells of a unit what the row of the unit says.
-/
namespace Metrology

namespace Builder

theorem ids_insertUnit (graphs : List UnitGraph) (u : UnitEntry) : (insertUnit graphs u).map Graph.id =
    if u.category ∈ graphs.map Graph.id then graphs.map Graph.id else graphs.map Graph.id ++ [u.category] := by
  induction graphs with
  | nil => simp [insertUnit, Graph.id_addNode, Graph.empty]
  | cons g rest ih =>
    unfold insertUnit
    by_cases hg : g.id = u.category
    · simp [hg, Graph.id_addNode]
    · have hne : u.category ≠ g.id := Ne.symm hg
      rw [if_neg hg, List.map_cons, List.map_cons, ih]
      by_cases hrest : u.category ∈ rest.map Graph.id
      · rw [if_pos hrest, if_pos (List.mem_cons_of_mem _ hrest)]
      · rw [if_neg hrest, if_neg (List.not_mem_cons_of_ne_of_not_mem hne hrest), List.cons_append]

theorem ids_unitGraphs (b : Builder) : b.unitGraphs.map Graph.id = b.units.categories := by
  unfold unitGraphs
  generalize b.units = table
  induction table using List.reverseRecOn with
  | nil => rfl
  | append_singleton table u ih =>
    rw [List.foldl_concat, ids_insertUnit, ih]
    simp only [UnitTable.categories, List.map_append, List.map_cons, List.map_nil, eraseDups_concat, List.mem_eraseDups]

theorem categories_build {b : Builder} {c : Converter} (hb : b.build = .ok c) : c.categories = b.units.categories := by
  obtain ⟨-, rfl⟩ := build_eq_ok.mp hb
  rw [← ids_unitGraphs, Converter.categories, assembled, List.map_map]
  exact List.map_congr_left fun g _ => id_foldl b _ g

theorem table_build {b : Builder} {c : Converter} (hb : b.build = .ok c) : c.table = b.units := by
  obtain ⟨-, rfl⟩ := build_eq_ok.mp hb
  rfl

end Builder

namespace Converter

theorem categories_remember (c : Converter) (ends : Endpoints) (x : Float) :
    (c.remember ends x).categories = c.categories := by
  rw [categories, categories, remember, List.map_map]
  refine List.map_congr_left fun g _ => ?_
  dsimp only [Function.comp_apply]
  split
  · exact g.id_link _ _ _
  · rfl

theorem categories_next (c : Converter) (k : Call) : (c.next k).categories = c.categories := by
  cases hconvert : c.convert k.category k.source k.target k.value with
  | error e => simp only [next, hconvert]
  | ok o =>
    simp only [next, hconvert]
    obtain ⟨ends, r, w, -, -, -, -, ⟨-, hsame⟩ | ⟨-, hremembers⟩⟩ := convert_eq_ok hconvert
    · rw [hsame]
    · rw [hremembers]
      exact c.categories_remember _ _

theorem categories_after (c : Converter) (calls : List Call) : (c.after calls).categories = c.categories := by
  induction calls generalizing c with
  | nil => rfl
  | cons k rest ih => exact (ih (c.next k)).trans (c.categories_next k)

end Converter

namespace Service

open UnitTable (Row)

theorem unitInfo_eq_ok {c : Converter} {name : String} {u : UnitEntry} (h : c.unitInfo name = .ok u) : u ∈ c.table := by
  unfold Converter.unitInfo at h
  dsimp only at h
  split at h
  · next hfound =>
    cases h
    exact Converter.mem_of_resolve? hfound
  · cases h

/-- What calls leave of a service that has been built: everything but edges of the graphs. -/
theorem after_build {catalog : Catalog} {b : Builder} {c : Converter} (hunits : b.units = catalog.units)
    (hb : b.build = .ok c) (calls : List Call) : (after ⟨catalog, c⟩ calls).catalog = catalog ∧
      (after ⟨catalog, c⟩ calls).converter.table = catalog.units ∧
      (after ⟨catalog, c⟩ calls).converter.categories = catalog.units.categories := by
  obtain ⟨asked, hasked⟩ := exists_asked (s := ⟨catalog, c⟩) (Converter.ready_build hb) calls
  obtain ⟨conversions, hconversions⟩ := c.exists_after asked
  rw [hasked, hconversions]
  refine ⟨rfl, ?_, ?_⟩
  · rw [Converter.table_after, Builder.table_build hb, hunits]
  · rw [Converter.categories_after, Builder.categories_build hb, hunits]

def unitBody (u : UnitEntry) (r : Row) : Payload :=
  .record [("unit", .text r.unit), ("abbrev", .text u.symbol), ("category", .text r.category),
    ("abbreviations", .texts r.abbreviations)]

/-- The rows cut the table of a catalog into its units: they come in the order of the first entries, each with
the symbols of its unit in table order, and every entry is in one row only. The categories of a converter are
those of the table, whatever has been asked of the service, which lists these and the rows. Of a name it tells
what the row of the unit says that the name stands for, or that there is no such unit. -/
theorem listing_partitions (catalog : Catalog) :
    FirstAppearances (catalog.units.map UnitTable.key) (catalog.units.rows.map Row.key) ∧
    (∀ r ∈ catalog.units.rows, r.abbreviations = catalog.units.abbreviationsFor r.unit r.category ∧
      r.entries.Sublist catalog.units) ∧
    (catalog.units.rows.flatMap Row.entries).Perm catalog.units ∧
    (∀ e ∈ catalog.units, ∃! r, r ∈ catalog.units.rows ∧ e ∈ r.entries) ∧
    FirstAppearances (catalog.units.map UnitEntry.category) catalog.units.categories ∧
    ∀ (b : Builder) (c : Converter), b.units = catalog.units → b.build = .ok c → ∀ calls,
      (after ⟨catalog, c⟩ calls).converter.categories = catalog.units.categories ∧
      answer (after ⟨catalog, c⟩ calls) .units = (.body (.record [("categories", .texts catalog.units.categories),
        ("count", .count catalog.units.rows.length), ("items", .list (catalog.units.rows.map .ofRow))]),
          after ⟨catalog, c⟩ calls) ∧
      ∀ name,
        (∃ u r, (after ⟨catalog, c⟩ calls).converter.unitInfo name = .ok u ∧ r ∈ catalog.units.rows ∧ u ∈ r.entries ∧
          answer (after ⟨catalog, c⟩ calls) (.unit name) = (.body (unitBody u r), after ⟨catalog, c⟩ calls)) ∨
        ∃ e : ConversionError, (after ⟨catalog, c⟩ calls).converter.unitInfo name = .error e ∧
          answer (after ⟨catalog, c⟩ calls) (.unit name) = (.refused 404 e.message, after ⟨catalog, c⟩ calls) := by
  refine ⟨?_, fun r hr => ?_, UnitTable.entries_perm _, fun e => UnitTable.existsUnique_row,
    firstAppearances_eraseDups _, ?_⟩
  · rw [UnitTable.map_key_rows]
    exact UnitTable.firstAppearances_keys _
  · obtain ⟨-, hrow⟩ := UnitTable.mem_rows hr
    refine ⟨congrArg Row.abbreviations hrow, ?_⟩
    rw [hrow, UnitTable.entries_row]
    exact List.filter_sublist
  · intro b c hunits hb calls
    obtain ⟨hcatalog, htable, hcategories⟩ := after_build hunits hb calls
    generalize after ⟨catalog, c⟩ calls = s at hcatalog htable hcategories ⊢
    refine ⟨hcategories, ?_, fun name => ?_⟩
    · rw [answer, units, hcategories, hcatalog]
    · cases hname : s.converter.unitInfo name with
      | error e => exact .inr ⟨e, rfl, by simp only [answer, unit, hname]⟩
      | ok u =>
        have hu : u ∈ catalog.units := htable ▸ unitInfo_eq_ok hname
        have hrow := UnitTable.row_mem hu
        refine .inl ⟨u, _, rfl, hrow, (UnitTable.mem_entries_iff hrow).mpr ⟨hu, rfl⟩, ?_⟩
        simp only [answer, unit, hname, htable]
        rfl

/-- The entries of one unit are scattered and one of them is there twice; its name is that of a unit of
another category. -/
def scattered : Catalog where
  units :=
    [⟨"Pound", "lb", "Weight"⟩, ⟨"Pound", "quid", "Money"⟩, ⟨"Ounce", "oz", "Weight"⟩,
    ⟨"Pound", "lbs", "Weight"⟩,
    ⟨"Pound", "lb", "Weight"⟩]
  definitions := [⟨"Weight", "Pound", "Ounce", .factor 16⟩]

theorem listing_partitions_scattered :
    (⟨"Pound", "Weight", ["lb", "lbs", "lb"]⟩ ∈ scattered.units.rows ∧
      (["lb", "lbs", "lb"] : List String) = scattered.units.abbreviationsFor "Pound" "Weight") ∧
    (∃! r, r ∈ scattered.units.rows ∧ (⟨"Pound", "quid", "Money"⟩ : UnitEntry) ∈ r.entries) ∧
    ∃ c, (scattered.builder ⟨true, true, true⟩ converterChannel).build = .ok c ∧
      (after ⟨scattered, c⟩ [.convert ⟨some "1lb -> oz", none, none, none, none⟩]).converter.categories =
        ["Weight", "Money"] ∧
      ∃ u r, c.unitInfo " LBS " = .ok u ∧ r ∈ scattered.units.rows ∧ u ∈ r.entries ∧
        answer ⟨scattered, c⟩ (.unit " LBS ") = (.body (unitBody u r), ⟨scattered, c⟩) := by
  obtain ⟨-, hrows, -, hunique, -, hserved⟩ := listing_partitions scattered
  have hmem : ⟨"Pound", "Weight", ["lb", "lbs", "lb"]⟩ ∈ scattered.units.rows := by decide +kernel
  refine ⟨⟨hmem, (hrows _ hmem).1⟩, hunique _ (by decide +kernel), ?_⟩
  have hfound : ((scattered.builder ⟨true, true, true⟩ converterChannel).build.toOption.map fun c =>
      (c.unitInfo " LBS ").toOption) = some (some ⟨"Pound", "lbs", "Weight"⟩) := by decide +kernel
  obtain ⟨c, hb, hinfo⟩ := Option.map_eq_some_iff.mp hfound
  have hb := Builder.toOption_eq_some.mp hb
  have hinfo := Builder.toOption_eq_some.mp hinfo
  have hlater := (hserved _ c rfl hb [.convert ⟨some "1lb -> oz", none, none, none, none⟩]).1
  have hcategories : scattered.units.categories = ["Weight", "Money"] := by decide +kernel
  rw [hcategories] at hlater
  refine ⟨c, hb, hlater, ?_⟩
  rcases (hserved _ c rfl hb []).2.2 " LBS " with hknown | ⟨e, he, -⟩
  · exact hknown
  · rw [show (after ⟨scattered, c⟩ []).converter = c from rfl, hinfo] at he
    cases he

end Service

end Metrology
