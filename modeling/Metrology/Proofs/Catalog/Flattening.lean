import Metrology.Proofs.Catalog.Reading
import Metrology.Proofs.Text.Characters

/-! # What a document declares

A document is looked at from its sections down, at every place before those below it and at the units before
the conversions. Each place either offends or contributes what stands there, and so does a list of places:
reading two lists one after the other is refused at the first offending place of both, and otherwise has what
the first contributes before what the second does. The readers follow the places level by level, which leaves
one equation for each kind of leaf. All integers have to be doubles, so that every name can be written out and
every number is a factor.
-/
namespace Metrology

namespace Yaml.Value

def InRange (v : Value) : Prop := ∀ n, v.Holds n → |(n : ℚ)| < Decimal.overflow

def isMap : Value → Bool
  | .map _ => true
  | _ => false

def entries : Value → List (Value × Value)
  | .map entries => entries
  | _ => []

def field (v : Value) (key : String) : Value := get v.entries key

def Maps (P : Value → Prop) (v : Value) : Prop := v.isVoid = true ∨ ∃ entries, v = .map entries ∧ ∀ e ∈ entries, P e.2

variable {v : Value}

theorem maps_iff {P : Value → Prop} : v.Maps P ↔ (v.isMap || v.isVoid) = true ∧ ∀ e ∈ v.entries, P e.2 := by
  constructor
  · rintro (hvoid | ⟨entries, rfl, h⟩)
    · refine ⟨by rw [hvoid, Bool.or_true], ?_⟩
      cases v with
      | map entries =>
        obtain rfl : entries = [] := List.isEmpty_iff.mp hvoid
        exact List.forall_mem_nil _
      | _ => exact List.forall_mem_nil _
    · exact ⟨rfl, h⟩
  · rintro ⟨hkind, h⟩
    cases v with
    | map entries => exact .inr ⟨entries, rfl, h⟩
    | _ => exact .inl hkind

theorem inRange_map {entries : List (Value × Value)} :
    (Value.map entries).InRange ↔ ∀ e ∈ entries, e.1.InRange ∧ e.2.InRange := by
  constructor
  · intro h e he
    exact ⟨fun n hn => h n (.key he hn), fun n hn => h n (.entry he hn)⟩
  · intro h n hn
    cases hn with
    | key he hn => exact (h _ he).1 n hn
    | entry he hn => exact (h _ he).2 n hn

theorem inRange_list {items : List Value} : (Value.list items).InRange ↔ ∀ v ∈ items, v.InRange := by
  constructor
  · intro h v hv n hn
    exact h n (.item hv hn)
  · intro h n hn
    cases hn with
    | item hv hn => exact h _ hv n hn

theorem InRange.isWritable (h : v.InRange) : v.isWritable = true := by
  cases hwritable : v.isWritable with
  | true => rfl
  | false =>
    obtain ⟨n, hn, hlong⟩ := long_of_isWritable hwritable
    exact absurd (h n hn) (not_lt.mpr (Catalog.overflow_le_of_long hlong))

theorem InRange.entry (h : v.InRange) {e : Value × Value} (he : e ∈ v.entries) : e.1.InRange ∧ e.2.InRange := by
  cases v with
  | map entries => exact inRange_map.mp h e he
  | _ => cases he

theorem InRange.field (h : v.InRange) (key : String) : (v.field key).InRange := by
  intro n hn
  cases v with
  | map entries =>
    rcases Catalog.at_get entries key with hat | hnull
    · exact h n (hat.holds hn)
    · rw [Value.field, Value.entries, hnull] at hn
      cases hn
  | _ => cases hn

end Yaml.Value

namespace Catalog

open Yaml (Value)

/-! ## The form of a document -/

def isAbbreviation : Value → Bool
  | .text s => !s.isEmpty
  | _ => false

def areAbbreviations : Value → Bool
  | .text s => !s.isEmpty
  | .list items => items.all isAbbreviation
  | _ => false

/-- A number, which a truth value is not, or a text that is not blank. -/
def isRule : Value → Bool
  | .int _ | .float _ => true
  | .text s => s.toList.any fun c => !Text.isBlank c
  | _ => false

/-- Units by category with their abbreviations, and conversions by category, source and target. -/
structure WellFormed (v : Value) : Prop where
  isMap : v.isMap = true
  units : (v.field "units").Maps (Value.Maps fun w => areAbbreviations w = true)
  conversions : (v.field "conversions").Maps (Value.Maps (Value.Maps fun w => isRule w = true))

def abbreviations : Value → List String
  | .text s => [s]
  | .list items => items.map Value.label
  | _ => []

def ruleOf : Value → Rule
  | .int n => .factor (Decimal.ofRat n)
  | .float x => .factor x
  | v => .formula v.label

def unitsOf (v : Value) : UnitTable :=
  (v.field "units").entries.flatMap fun category => category.2.entries.flatMap fun unit =>
    (abbreviations unit.2).map fun symbol => ⟨unit.1.label, symbol, category.1.label⟩

def definitionsOf (v : Value) : List Definition :=
  (v.field "conversions").entries.flatMap fun category => category.2.entries.flatMap fun source =>
    source.2.entries.map fun target => ⟨category.1.label, source.1.label, target.1.label, ruleOf target.2⟩

/-! ## The places of a document -/

/-- The keys that lead to a place, and what stands there. -/
abbrev Place := List Value × Value

/-- A place and those below it to some depth, each one before those below it. -/
def places : Nat → List Value → Value → List Place
  | 0, path, v => [(path, v)]
  | depth + 1, path, v => (path, v) :: v.entries.flatMap fun e => places depth (path ++ [e.1]) e.2

def unitPlaces (v : Value) : List Place := places 2 [.text "units"] (v.field "units")

def definitionPlaces (v : Value) : List Place := places 3 [.text "conversions"] (v.field "conversions")

/-- Why a place offends. Behind more keys than `depth` stand leaves, which have to fit, and before them void
values and mappings. -/
def faultAt (depth : Nat) (fits : Value → Bool) (unfit : List String → Value → CatalogError) (p : Place) :
    Option CatalogError :=
  if p.1.length ≤ depth then
    if p.2.isMap || p.2.isVoid then none else some (.notAMapping (p.1.map Value.label))
  else if fits p.2 then none
  else some (unfit (p.1.map Value.label) p.2)

def unitFault : Place → Option CatalogError := faultAt 2 areAbbreviations fun place _ => .notAbbreviations place

def definitionFault : Place → Option CatalogError := faultAt 3 isRule .notARule

/-- Why a document is no catalog: what its first offending place says. -/
def firstFault (v : Value) : Option CatalogError :=
  if v.isMap then ((unitPlaces v).findSome? unitFault).or ((definitionPlaces v).findSome? definitionFault)
  else some .notACatalog

section

variable {depth d : Nat} {fits : Value → Bool} {unfit : List String → Value → CatalogError}
  {path : List Value} {v : Value}

theorem faultAt_above (h : path.length ≤ depth) : faultAt depth fits unfit (path, v) =
    if v.isMap || v.isVoid then none else some (.notAMapping (path.map Value.label)) := if_pos h

theorem faultAt_leaf (h : depth < path.length) : faultAt depth fits unfit (path, v) =
    if fits v then none else some (unfit (path.map Value.label) v) := if_neg (Nat.not_le.mpr h)

theorem no_fault_leaf (h : depth < path.length) :
    (places 0 path v).findSome? (faultAt depth fits unfit) = none ↔ fits v = true := by
  rw [places, List.findSome?_singleton, faultAt_leaf h]
  cases fits v <;> simp

theorem no_fault_level {P : Value → Prop} (h : path.length ≤ depth)
    (hbelow : ∀ key w, (places d (path ++ [key]) w).findSome? (faultAt depth fits unfit) = none ↔ P w) :
    (places (d + 1) path v).findSome? (faultAt depth fits unfit) = none ↔ v.Maps P := by
  simp only [List.findSome?_eq_none_iff] at hbelow ⊢
  rw [places, List.forall_mem_cons, faultAt_above h, Value.maps_iff]
  apply and_congr
  · cases v.isMap || v.isVoid <;> simp
  · constructor
    · intro hall e he
      exact (hbelow e.1 e.2).mp fun p hp => hall p (List.mem_flatMap.mpr ⟨e, he, hp⟩)
    · intro hall p hp
      obtain ⟨e, he, hp⟩ := List.mem_flatMap.mp hp
      exact (hbelow e.1 e.2).mpr (hall e he) p hp

end

theorem firstFault_eq_none_iff {v : Value} : firstFault v = none ↔ WellFormed v := by
  have hunits : (unitPlaces v).findSome? unitFault = none ↔
      (v.field "units").Maps (Value.Maps fun w => areAbbreviations w = true) := by
    apply no_fault_level (by decide)
    intro category w
    apply no_fault_level (by simp)
    intro unit w
    exact no_fault_leaf (by simp)
  have hdefinitions : (definitionPlaces v).findSome? definitionFault = none ↔
      (v.field "conversions").Maps (Value.Maps (Value.Maps fun w => isRule w = true)) := by
    apply no_fault_level (by decide)
    intro category w
    apply no_fault_level (by simp)
    intro source w
    apply no_fault_level (by simp)
    intro target w
    exact no_fault_leaf (by simp)
  unfold firstFault
  split
  · next hmap =>
    rw [Option.or_eq_none_iff, hunits, hdefinitions]
    exact ⟨fun h => ⟨hmap, h.1, h.2⟩, fun h => ⟨h.units, h.conversions⟩⟩
  · next hmap =>
    constructor
    · intro h
      cases h
    · intro h
      exact absurd h.isMap hmap

/-! ## Reading place by place -/

section

variable {β : Type} {fault : Place → Option CatalogError} {found : Place → List β}

/-- The first fault of some places, or what all of them contribute. -/
def outcome (fault : Place → Option CatalogError) (found : Place → List β) (ps : List Place) :
    Except ReadError (List β) :=
  match ps.findSome? fault with
  | some e => .error (.refused e)
  | none => .ok (ps.flatMap found)

theorem outcome_append (ps qs : List Place) : outcome fault found (ps ++ qs) =
    (outcome fault found ps).bind fun before => (outcome fault found qs).map fun after => before ++ after := by
  unfold outcome
  rw [List.findSome?_append, List.flatMap_append]
  cases ps.findSome? fault with
  | some e => rfl
  | none => cases qs.findSome? fault <;> rfl

theorem collect_cons {α : Type} (read : α → Except ReadError (List β)) (x : α) (rest : List α) :
    collect read (x :: rest) = (read x).bind fun before => (collect read rest).map fun after => before ++ after := by
  rw [collect]
  cases read x with
  | error e => rfl
  | ok before => cases collect read rest <;> rfl

theorem collect_eq_outcome {α : Type} {read : α → Except ReadError (List β)} {below : α → List Place} {xs : List α}
    (h : ∀ x ∈ xs, read x = outcome fault found (below x)) :
    collect read xs = outcome fault found (xs.flatMap below) := by
  induction xs with
  | nil => rfl
  | cons x rest ih =>
    obtain ⟨hx, hrest⟩ := List.forall_mem_cons.mp h
    rw [collect_cons, hx, ih hrest, List.flatMap_cons, outcome_append]

theorem entriesOf_eq (v : Value) (place : List String) :
    entriesOf v place = if v.isMap || v.isVoid then .ok v.entries else .error (.refused (.notAMapping place)) := by
  cases v with
  | map entries => rfl
  | _ => rfl

/-- A level is read place by place if the entries below it are. -/
theorem read_below {read : Value × Value → Except ReadError (List β)} {d : Nat} (path : List Value) {v : Value}
    (hfault : fault (path, v) = if v.isMap || v.isVoid then none else some (.notAMapping (path.map Value.label)))
    (hfound : found (path, v) = [])
    (hread : ∀ e ∈ v.entries, read e = outcome fault found (places d (path ++ [e.1]) e.2)) :
    (entriesOf v (path.map Value.label)).bind (collect read) = outcome fault found (places (d + 1) path v) := by
  rw [entriesOf_eq, places]
  unfold outcome
  rw [List.findSome?_cons, hfault, List.flatMap_cons, hfound, List.nil_append]
  split
  · exact collect_eq_outcome hread
  · rfl

end

variable {path : List Value} {e : Value × Value} {v : Value}

theorem nameOf_eq (h : v.InRange) : nameOf v = .ok v.label := if_pos h.isWritable

theorem readLevel_eq {β : Type} {place : String → List String}
    {read : String → Value × Value → Except ReadError (List β)} (h : e.1.InRange) :
    readLevel place read e = (entriesOf e.2 (place e.1.label)).bind (collect (read e.1.label)) := by
  rw [readLevel, nameOf_eq h]
  rfl

def unitsAt : Place → List UnitEntry
  | ([_, category, unit], w) => (abbreviations w).map fun symbol => ⟨unit.label, symbol, category.label⟩
  | _ => []

def definitionsAt : Place → List Definition
  | ([_, category, source, target], w) => [⟨category.label, source.label, target.label, ruleOf w⟩]
  | _ => []

theorem symbol?_eq (v : Value) : symbol? v = if isAbbreviation v then some v.label else none := by
  cases v with
  | text s =>
    rw [symbol?, isAbbreviation, Value.label]
    cases s.isEmpty <;> rfl
  | _ => rfl

theorem mapM_symbol? (items : List Value) :
    items.mapM symbol? = if items.all isAbbreviation then some (items.map Value.label) else none := by
  induction items with
  | nil => rfl
  | cons v rest ih =>
    rw [List.mapM_cons, ih, symbol?_eq, List.all_cons, List.map_cons]
    cases isAbbreviation v <;> cases rest.all isAbbreviation <;> rfl

theorem symbols?_eq (v : Value) : symbols? v = if areAbbreviations v then some (abbreviations v) else none := by
  cases v with
  | text s =>
    rw [symbols?, symbol?_eq, areAbbreviations, isAbbreviation]
    cases s.isEmpty <;> rfl
  | list items => exact mapM_symbol? items
  | _ => rfl

theorem readUnit_eq {category : Value} (h : e.1.InRange) :
    readUnit category.label e = outcome unitFault unitsAt (places 0 [.text "units", category, e.1] e.2) := by
  have hfault : unitFault ([.text "units", category, e.1], e.2) =
      if areAbbreviations e.2 then none else some (.notAbbreviations ["units", category.label, e.1.label]) :=
    faultAt_leaf (Nat.lt_succ_self 2)
  rw [readUnit, symbols?_eq, nameOf_eq h, outcome, places, List.findSome?_singleton, hfault]
  cases areAbbreviations e.2 with
  | false => rfl
  | true =>
    have hfound : [([.text "units", category, e.1], e.2)].flatMap unitsAt =
        (abbreviations e.2).map fun symbol => ⟨e.1.label, symbol, category.label⟩ := List.append_nil _
    rw [hfound]
    cases abbreviations e.2 <;> rfl

theorem readRule_eq {place : List String} (h : v.InRange) :
    readRule place v = if isRule v then .ok (ruleOf v) else .error (.refused (.notARule place v)) := by
  have hrefuse : notARule place v = .refused (.notARule place v) := if_pos h.isWritable
  cases v with
  | int n =>
    rw [readRule, Decimal.ofInt?_eq (h n (.int n))]
    rfl
  | float x => rfl
  | text s =>
    rw [readRule, isRule, hrefuse, Text.isEmpty_strip]
    cases s.toList.any fun c => !Text.isBlank c <;> rfl
  | _ => exact congrArg Except.error hrefuse

theorem readTarget_eq {category source : Value} (h : e.1.InRange) (hvalue : e.2.InRange) :
    readTarget category.label source.label e =
      outcome definitionFault definitionsAt (places 0 [.text "conversions", category, source, e.1] e.2) := by
  have hfault : definitionFault ([.text "conversions", category, source, e.1], e.2) =
      if isRule e.2 then none
      else some (.notARule ["conversions", category.label, source.label, e.1.label] e.2) :=
    faultAt_leaf (Nat.lt_succ_self 3)
  rw [readTarget, nameOf_eq h]
  dsimp only
  rw [readRule_eq hvalue, outcome, places, List.findSome?_singleton, hfault]
  cases isRule e.2 <;> rfl

variable {entries : List (Value × Value)}

theorem readUnits_eq (h : (Value.map entries).InRange) :
    readUnits entries = outcome unitFault unitsAt (unitPlaces (.map entries)) := by
  have hread : readUnits entries = (entriesOf ((Value.map entries).field "units") ["units"]).bind
      (collect readUnitCategory) := by
    rw [readUnits]
    change _ = (entriesOf (Value.get entries "units") ["units"]).bind (collect readUnitCategory)
    cases entriesOf (Value.get entries "units") ["units"] <;> rfl
  rw [hread]
  apply read_below [.text "units"] (faultAt_above (by simp)) rfl
  intro category hcategory
  obtain ⟨hname, hvalue⟩ := (h.field "units").entry hcategory
  rw [readUnitCategory_eq, readLevel_eq hname]
  apply read_below [.text "units", category.1] (faultAt_above (by simp)) rfl
  intro unit hunit
  exact readUnit_eq (hvalue.entry hunit).1

theorem readDefinitions_eq (h : (Value.map entries).InRange) :
    readDefinitions entries = outcome definitionFault definitionsAt (definitionPlaces (.map entries)) := by
  have hread : readDefinitions entries =
      (entriesOf ((Value.map entries).field "conversions") ["conversions"]).bind (collect readConversionCategory) := by
    rw [readDefinitions]
    change _ = (entriesOf (Value.get entries "conversions") ["conversions"]).bind (collect readConversionCategory)
    cases entriesOf (Value.get entries "conversions") ["conversions"] <;> rfl
  rw [hread]
  apply read_below [.text "conversions"] (faultAt_above (by simp)) rfl
  intro category hcategory
  obtain ⟨hcategoryName, hsources⟩ := (h.field "conversions").entry hcategory
  rw [readConversionCategory_eq, readLevel_eq hcategoryName]
  apply read_below [.text "conversions", category.1] (faultAt_above (by simp)) rfl
  intro source hsource
  obtain ⟨hsourceName, htargets⟩ := hsources.entry hsource
  rw [readSource_eq, readLevel_eq hsourceName]
  apply read_below [.text "conversions", category.1, source.1] (faultAt_above (by simp)) rfl
  intro target htarget
  obtain ⟨htargetName, hvalue⟩ := htargets.entry htarget
  exact readTarget_eq htargetName hvalue

theorem unitsAt_places (v : Value) : (unitPlaces v).flatMap unitsAt = unitsOf v := by
  simp [unitPlaces, places, unitsAt, unitsOf, List.flatMap_assoc]

theorem definitionsAt_places (v : Value) : (definitionPlaces v).flatMap definitionsAt = definitionsOf v := by
  simp [definitionPlaces, places, definitionsAt, definitionsOf, List.flatMap_assoc, List.map_eq_flatMap]

/-- A document is read to the first fault in it, and if it has none to all its units and conversions. -/
theorem ofValue_eq {v : Value} (h : v.InRange) : ofValue v =
    match firstFault v with
    | some e => .error (.refused e)
    | none => .ok ⟨unitsOf v, definitionsOf v⟩ := by
  cases v with
  | map entries =>
    have hfault : firstFault (.map entries) = ((unitPlaces (.map entries)).findSome? unitFault).or
        ((definitionPlaces (.map entries)).findSome? definitionFault) := rfl
    rw [ofValue, readUnits_eq h, readDefinitions_eq h, hfault, ← unitsAt_places, ← definitionsAt_places]
    unfold outcome
    -- The conversions are read only where no unit is refused.
    cases (unitPlaces (.map entries)).findSome? unitFault with
    | some e => rfl
    | none => cases (definitionPlaces (.map entries)).findSome? definitionFault <;> rfl
  | _ => rfl

/-- A document whose integers are all doubles is read exactly if it is well-formed. It then has its units and
conversions in the order in which they stand there, one for each abbreviation and one for each rule; otherwise
it is refused for the first of its places that offends. -/
theorem ofValue_flattens {v : Value} (h : v.InRange) :
    ((∃ catalog, ofValue v = .ok catalog) ↔ WellFormed v) ∧
      (WellFormed v → ofValue v = .ok ⟨unitsOf v, definitionsOf v⟩) ∧
      (¬WellFormed v → ∃ e, firstFault v = some e ∧ ofValue v = .error (.refused e)) := by
  rw [← firstFault_eq_none_iff, ofValue_eq h]
  cases firstFault v with
  | none => simp
  | some e => simp

/-- A document whose conversions come before its units and whose keys are no texts. -/
def truths (symbol rule : Value) : Value :=
  .map [(.text "conversions", .map [(.text "Truth", .map [(.bool true, .map [(.bool false, rule)])])]),
    (.text "units", .map [(.null, .bool false),
      (.text "Truth", .map [(.bool true, .text "t"), (.bool false, .list [symbol])])])]

theorem inRange_truths {symbol rule : Value} (hsymbol : symbol.InRange) (hrule : rule.InRange) :
    (truths symbol rule).InRange := by
  have hnull : Value.null.InRange := fun n hn => by cases hn
  have hbool (b : Bool) : (Value.bool b).InRange := fun n hn => by cases hn
  have htext (s : String) : (Value.text s).InRange := fun n hn => by cases hn
  simp [truths, Value.inRange_map, Value.inRange_list, hnull, hbool, htext, hsymbol, hrule]

theorem ofValue_flattens_truths :
    ofValue (truths (.text "f") (.int 1000)) = .ok ⟨[⟨"True", "t", "Truth"⟩, ⟨"False", "f", "Truth"⟩],
      [⟨"Truth", "True", "False", .factor (Decimal.ofRat 1000)⟩]⟩ ∧
    ofValue (truths (.text "") (.bool true)) = .error (.refused (.notAbbreviations ["units", "Truth", "False"])) ∧
    ofValue (truths (.text "f") (.bool true)) =
      .error (.refused (.notARule ["conversions", "Truth", "True", "False"] (.bool true))) := by
  have htext (s : String) : (Value.text s).InRange := fun n hn => by cases hn
  have hbool : (Value.bool true).InRange := fun n hn => by cases hn
  have hint : (Value.int 1000).InRange := by
    intro n hn
    cases hn
    calc |((1000 : Int) : ℚ)| < (2 ^ 53 - 1 / 2) * 1 := by norm_num
      _ ≤ (2 ^ 53 - 1 / 2) * 2 ^ (971 : Int) :=
        mul_le_mul_of_nonneg_left (one_le_zpow₀ (by norm_num) (by norm_num)) (by norm_num)
      _ = Decimal.overflow := Decimal.overflow_eq.symm
  have hrefused {symbol rule : Value} {e : CatalogError} (hsymbol : symbol.InRange) (hrule : rule.InRange)
      (he : firstFault (truths symbol rule) = some e) : ofValue (truths symbol rule) = .error (.refused e) := by
    obtain ⟨-, -, hrefused⟩ := ofValue_flattens (inRange_truths hsymbol hrule)
    obtain ⟨e', he', hread⟩ := hrefused (by rw [← firstFault_eq_none_iff, he]; exact Option.some_ne_none e)
    rw [he] at he'
    cases he'
    exact hread
  refine ⟨?_, hrefused (htext "") hbool rfl, hrefused (htext "f") hbool rfl⟩
  obtain ⟨-, hread, -⟩ := ofValue_flattens (inRange_truths (htext "f") hint)
  exact hread (firstFault_eq_none_iff.mp rfl)

end Catalog

end Metrology
