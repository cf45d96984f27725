import Metrology.Program.Basic
import Metrology.Proofs.Catalog.Reading
import Metrology.Proofs.Converter.Failure

/-! # Loading a catalog

A converter is built from a document value by reading a catalog and building what it declares. What goes wrong
is an error of the catalog, which a run reports before it ends in order, or it escapes and breaks the run off.
What escapes has a cause in the document: an integer that is too large for a factor or too long to be written
out, or a formula whose inverse has no answer.
-/
namespace Metrology

open Yaml (Value)

namespace Catalog

def declaring (category source target : String) (rule : Value) : Value :=
  .map [(.text "conversions", .map [(.text category, .map [(.text source, .map [(.text target, rule)])])])]

theorem at_declaring (category source target : String) (rule : Value) :
    (declaring category source target rule).At [.text "conversions", .text category, .text source, .text target] rule :=
  .entry List.mem_cons_self
    (.entry List.mem_cons_self (.entry List.mem_cons_self (.entry List.mem_cons_self (.here rule))))

theorem get_text (key : String) (v : Value) : Value.get [(.text key, v)] key = v := by
  simp [Value.get, Value.sameKey, Value.rational?]

theorem get_other {key other : String} (hne : key ≠ other) (v : Value) : Value.get [(.text key, v)] other = .null := by
  simp [Value.get, Value.sameKey, Value.rational?, hne]

theorem nameOf_text (s : String) : nameOf (.text s) = .ok s := rfl

theorem collect_single {α β : Type} (read : α → Except ReadError (List β)) (a : α) : collect read [a] = read a := by
  unfold collect
  cases read a with
  | error e => rfl
  | ok found =>
    dsimp only [collect]
    rw [List.append_nil]

theorem ofValue_declaring (category source target : String) (rule : Value) :
    ofValue (declaring category source target rule) =
    (readRule ["conversions", category, source, target] rule).map fun r => ⟨[], [⟨category, source, target, r⟩]⟩ := by
  have hunits : readUnits
      [(.text "conversions", .map [(.text category, .map [(.text source, .map [(.text target, rule)])])])] =
        .ok [] := by
    rw [readUnits, get_other (by decide)]
    rfl
  have htarget : readTarget category source (.text target, rule) =
      (readRule ["conversions", category, source, target] rule).map fun r => [⟨category, source, target, r⟩] := by
    simp only [readTarget, nameOf_text]
    cases readRule ["conversions", category, source, target] rule <;> rfl
  have hsource : readSource category (.text source, .map [(.text target, rule)]) =
      readTarget category source (.text target, rule) := by
    simp only [readSource, nameOf_text, entriesOf, collect_single]
  have hcategory : readConversionCategory (.text category, .map [(.text source, .map [(.text target, rule)])]) =
      readSource category (.text source, .map [(.text target, rule)]) := by
    simp only [readConversionCategory, nameOf_text, entriesOf, collect_single]
  simp only [declaring, ofValue, hunits, readDefinitions, get_text, entriesOf, collect_single,
    hcategory, hsource, htarget]
  cases readRule ["conversions", category, source, target] rule <;> rfl

end Catalog

namespace Program

namespace Plan

variable {p : Plan} {v : Value} {f : Fault}

/-- A fault that is no error of the catalog, with its cause in the document. -/
inductive Escapes (p : Plan) (v : Value) : Fault → Prop
  | reading {e : ReadError} (h : Catalog.Breaks v e) : Escapes p v (.load (.read e))
  | inversion {catalog : Catalog} {d : Definition} {x : Algebra.Dilemma} (hread : Catalog.ofValue v = .ok catalog)
      (hd : d ∈ catalog.definitions)
      (hunits : (catalog.builder p.settings.policy channel).HasUnits d.category)
      (hstuck : (catalog.builder p.settings.policy channel).Stuck d x) : Escapes p v (.inversion x)

theorem escapes_of_construct (h : p.construct v = .error f) : (∃ e, f = .load (.refused e)) ∨ p.Escapes v f := by
  unfold construct build at h
  cases hread : Catalog.ofValue v with
  | error e =>
    simp only [hread] at h
    cases h
    rcases Catalog.explained_ofValue hread with ⟨reason, rfl⟩ | hbreaks
    · exact .inl ⟨reason, rfl⟩
    · exact .inr (.reading hbreaks)
  | ok catalog =>
    simp only [hread] at h
    cases hbuild : (catalog.builder p.settings.policy channel).build with
    | ok c =>
      simp only [hbuild] at h
      cases h
    | error e =>
      obtain ⟨before, d, after, hsplit, -, hunits, hweights⟩ := Builder.build_eq_error.mp hbuild
      have hdefinitions : catalog.definitions = (catalog.builder p.settings.policy channel).definitions := rfl
      rcases Builder.weights_eq_error hweights with ⟨reason, rfl⟩ | ⟨x, hstuck, rfl⟩
      · simp only [hbuild] at h
        cases h
        exact .inl ⟨reason, rfl⟩
      · simp only [hbuild] at h
        cases h
        refine .inr (.inversion hread ?_ hunits hstuck)
        rw [hdefinitions, hsplit]
        simp

theorem Escapes.withoutConverter_eq (h : p.Escapes v f) : withoutConverter f = .error f := by
  cases h with
  | reading hbreaks => cases hbreaks <;> rfl
  | inversion => rfl

/-- Nothing in a document escapes: its integers have nearest doubles, and the inverses of its formulas have
answers. -/
structure Tame (p : Plan) (v : Value) : Prop where
  integers : ∀ n, v.Holds n → |(n : ℚ)| < Decimal.overflow
  formulas : ∀ catalog, Catalog.ofValue v = .ok catalog → ∀ d ∈ catalog.definitions, ∀ x,
    ¬ (catalog.builder p.settings.policy channel).Stuck d x

theorem Tame.not_escapes (ht : p.Tame v) : ¬ p.Escapes v f := by
  intro h
  cases h with
  | reading hbreaks =>
    obtain ⟨n, hn, hlarge⟩ := hbreaks.exists_large
    exact absurd (ht.integers n hn) (not_lt.mpr hlarge)
  | inversion hread hd _ hstuck => exact ht.formulas _ hread _ hd _ hstuck

theorem Escapes.not_ok_of_inversion {x : Algebra.Dilemma} (h : p.Escapes v (.inversion x)) (c : Converter) :
    p.construct v ≠ .ok c := by
  intro hmade
  cases h with
  | @inversion catalog d _ hread hd hunits hstuck =>
    simp only [construct, build, hread] at hmade
    cases hbuild : (catalog.builder p.settings.policy channel).build with
    | error e => cases e <;> simp [hbuild] at hmade
    | ok c' =>
      -- If building succeeds then all definitions that it looks at have weights, so those before this one do
      -- not matter.
      have hplaced := (Builder.any_unitGraphs_iff _ _).mpr hunits
      obtain ⟨w, hw⟩ := (Builder.build_eq_ok.mp hbuild).1 d hd hplaced
      rw [hstuck.weights_eq] at hw
      cases hw

theorem buildConverter_eq {fetch : String → Except Obstacle String} {path text : String} {w : Value}
    (hpath : p.settings.catalog = some path) (hfetch : fetch path = .ok text) (hread : Yaml.readDocument text = .ok w) :
    p.buildConverter fetch = p.construct (Catalog.document w) := by
  have hdocument : Catalog.readDocument text = .ok (Catalog.document w) := by rw [Catalog.readDocument, hread]
  simp only [buildConverter, hpath, hfetch, hdocument]

theorem construct_of_large {category source target : String} {n : Int} (h : Decimal.overflow ≤ |(n : ℚ)|) :
    p.construct (Catalog.declaring category source target (.int n)) = .error (.load (.read .integerTooLarge)) := by
  have hrule : Catalog.readRule ["conversions", category, source, target] (.int n) = .error .integerTooLarge := by
    simp only [Catalog.readRule, Decimal.ofInt?_eq_none_iff.mpr h]
  rw [construct, Catalog.ofValue_declaring, hrule]
  rfl

theorem exists_construct_of_small {category source target : String} {n : Int} (h : |(n : ℚ)| < Decimal.overflow) :
    ∃ c, p.construct (Catalog.declaring category source target (.int n)) = .ok c := by
  cases hx : Decimal.ofInt? n with
  | none => exact absurd h (not_lt.mpr (Decimal.ofInt?_eq_none_iff.mp hx))
  | some x =>
    have hrule : Catalog.readRule ["conversions", category, source, target] (.int n) = .ok (.factor x) := by
      simp only [Catalog.readRule, hx]
    -- The category has no units, so that the definition is left out.
    refine ⟨⟨[], [], p.settings.policy.caching, channel⟩, ?_⟩
    rw [construct, Catalog.ofValue_declaring, hrule]
    rfl

/-- Building a converter from a document fails with an error of the catalog or with a fault that escapes, so a
tame document gives a converter or an error of the catalog. A stuck formula or a factor beyond the doubles
rules a converter out, and where there is nothing else in the document the integer alone decides. A run with
the document as its catalog answers with the converter; it reports an error of the catalog and ends in order,
and what escapes breaks it off. -/
theorem construct_faults (p : Plan) (v : Value) :
    (∀ f, p.construct v = .error f → (∃ e, f = .load (.refused e)) ∨ p.Escapes v f) ∧
    (p.Tame v → (∃ c, p.construct v = .ok c) ∨ ∃ e, p.construct v = .error (.load (.refused e))) ∧
    (∀ x, p.Escapes v (.inversion x) → ∀ c, p.construct v ≠ .ok c) ∧
    (∀ entries, v = .map entries → Catalog.Distinct entries → Catalog.Breaks v .integerTooLarge →
      ∀ c, p.construct v ≠ .ok c) ∧
    (∀ category source target n, v = Catalog.declaring category source target (.int n) →
      if |(n : ℚ)| < Decimal.overflow then ∃ c, p.construct v = .ok c
      else p.construct v = .error (.load (.read .integerTooLarge))) ∧
    ∀ fetch input path text w, p.settings.catalog = some path → fetch path = .ok text → Yaml.readDocument text = .ok w →
      v = Catalog.document w →
      (∀ c, p.construct v = .ok c → p.carryOut fetch input = p.answer c input) ∧
      (∀ e, p.construct v = .error (.load (.refused e)) →
        p.carryOut fetch input = .ok (misconfigured ("Failed to load catalog: " ++ e.message))) ∧
      ∀ f, p.Escapes v f → p.construct v = .error f → p.carryOut fetch input = .error f := by
  refine ⟨fun f => escapes_of_construct, fun ht => ?_, fun x hescapes => hescapes.not_ok_of_inversion, ?_, ?_, ?_⟩
  · cases hmade : p.construct v with
    | ok c => exact .inl ⟨c, rfl⟩
    | error f =>
      rcases escapes_of_construct hmade with ⟨e, rfl⟩ | hescapes
      · exact .inr ⟨e, rfl⟩
      · exact absurd hescapes ht.not_escapes
  · rintro entries rfl hdistinct hbreaks c hmade
    cases hread : Catalog.ofValue (.map entries) with
    | ok catalog => exact hbreaks.not_ok_of_large hdistinct catalog hread
    | error e =>
      rw [construct, hread] at hmade
      cases hmade
  · rintro category source target n rfl
    split
    · next hsmall => exact exists_construct_of_small hsmall
    · next hlarge => exact construct_of_large (not_lt.mp hlarge)
  · rintro fetch input path text w hpath hfetch hread rfl
    have hbuild := buildConverter_eq hpath hfetch hread
    refine ⟨fun c hmade => ?_, fun e hmade => ?_, fun f hescapes hmade => ?_⟩
    · rw [carryOut, hbuild, hmade]
    · rw [carryOut, hbuild, hmade]
      rfl
    · rw [carryOut, hbuild, hmade]
      exact hescapes.withoutConverter_eq

def own : Plan := ⟨⟨some "catalog.yaml", ⟨true, true, true⟩, .warning⟩, ["1"]⟩

def power (k : Nat) : Int := (Nat.pow 10 k : Nat)

theorem overflow_le_power {k : Nat} (h : 400 ≤ k) : Decimal.overflow ≤ |(power k : ℚ)| := by
  rw [power, Int.cast_natCast, abs_of_nonneg (Nat.cast_nonneg _)]
  exact Decimal.overflow_le_ten_pow h

/-- Such an integer is no factor under any circumstances, and an empty document is an empty catalog. -/
theorem construct_faults_own :
    (∀ c, own.construct (Catalog.declaring "Length" "Mile" "Inch" (.int (power 400))) ≠ .ok c) ∧
      ∃ c, ∀ input, own.carryOut (fun _ => .ok "") input = own.answer c input := by
  constructor
  · obtain ⟨-, -, -, hnever, -, -⟩ := construct_faults own (Catalog.declaring "Length" "Mile" "Inch" (.int (power 400)))
    refine hnever _ rfl (List.pairwise_singleton _ _) ?_
    exact .factor (Catalog.at_declaring _ _ _ _) (overflow_le_power (le_refl 400))
  · -- Values have no decidable equality, but that this one is void is all that counts.
    have hread : (Yaml.readDocument "").toOption.map Value.isVoid = some true := by decide +kernel
    obtain ⟨w, hw, hvoid⟩ := Option.map_eq_some_iff.mp hread
    have hw := Builder.toOption_eq_some.mp hw
    obtain ⟨-, htame, -, -, -, hrun⟩ := construct_faults own (Catalog.document w)
    have hdocument : Catalog.document w = .map [] := by rw [Catalog.document, if_pos hvoid]
    have hsafe : own.Tame (Catalog.document w) := by
      rw [hdocument]
      refine ⟨fun n hn => ?_, fun catalog hcatalog d hd => ?_⟩
      · cases hn with
        | key he => cases he
        | entry he => cases he
      · cases hcatalog
        cases hd
    rcases htame hsafe with ⟨c, hc⟩ | ⟨e, he⟩
    · refine ⟨c, fun input => ?_⟩
      exact (hrun (fun _ => .ok "") input "catalog.yaml" "" w rfl rfl hw rfl).1 c hc
    · rw [hdocument] at he
      cases he

theorem construct_escapes : ¬ ∀ (p : Plan) (v : Value), (∃ c, p.construct v = .ok c) ∨
    ∃ e, p.construct v = .error (.load (.refused e)) := by
  intro hall
  have hmade : own.construct (Catalog.declaring "Length" "Mile" "Inch" (.int (power 400))) =
      .error (.load (.read .integerTooLarge)) := construct_of_large (overflow_le_power (le_refl 400))
  rcases hall own (Catalog.declaring "Length" "Mile" "Inch" (.int (power 400))) with ⟨c, hc⟩ | ⟨e, he⟩
  · rw [hmade] at hc
    cases hc
  · rw [hmade] at he
    cases he

end Plan

end Program

end Metrology
