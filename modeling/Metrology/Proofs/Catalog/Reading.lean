import Metrology.Catalog.Reading
import Metrology.Proofs.Decimal.Value

/-! # What reading a catalog breaks off at

A document that is no catalog is refused, with one kind of exception: an integer can be too large for a
factor, or too long to be written out in a name or in a message. Where reading breaks off, such an integer
stands on the path or at the end of it.
-/
namespace Metrology

namespace Yaml.Value

inductive Holds : Value → Int → Prop
  | int (n : Int) : Holds (.int n) n
  | item {items : List Value} {v : Value} {n : Int} (hv : v ∈ items) (h : Holds v n) : Holds (.list items) n
  | element {elements : List Value} {v : Value} {n : Int} (hv : v ∈ elements) (h : Holds v n) : Holds (.set elements) n
  | key {entries : List (Value × Value)} {e : Value × Value} {n : Int} (he : e ∈ entries) (h : Holds e.1 n) :
      Holds (.map entries) n
  | entry {entries : List (Value × Value)} {e : Value × Value} {n : Int} (he : e ∈ entries) (h : Holds e.2 n) :
      Holds (.map entries) n
  | first {a b : Value} {n : Int} (h : Holds a n) : Holds (.pair a b) n
  | second {a b : Value} {n : Int} (h : Holds b n) : Holds (.pair a b) n

inductive At : Value → List Value → Value → Prop
  | here (v : Value) : At v [] v
  | entry {entries : List (Value × Value)} {e : Value × Value} {path : List Value} {v : Value} (he : e ∈ entries)
      (h : At e.2 path v) : At (.map entries) (e.1 :: path) v

variable {v w : Value} {path : List Value} {entries : List (Value × Value)} {n : Int}

theorem At.append_entry (h : At v path (.map entries)) {e : Value × Value} (he : e ∈ entries) :
    At v (path ++ [e.1]) e.2 := by
  generalize hw : Value.map entries = w at h
  induction h with
  | here v =>
    subst hw
    exact .entry he (.here e.2)
  | entry he' _ ih => exact .entry he' (ih hw)

theorem At.exists_entry {k : Value} (h : At v (k :: path) w) :
    ∃ entries e, v = .map entries ∧ e ∈ entries ∧ e.1 = k ∧ At e.2 path w := by
  cases h with
  | entry he h => exact ⟨_, _, rfl, he, rfl, h⟩

theorem At.eq_of_nil (h : At v [] w) : v = w := by
  cases h
  rfl

theorem At.holds (h : At v path w) (hw : w.Holds n) : v.Holds n := by
  induction h with
  | here v => exact hw
  | entry he _ ih => exact .entry he (ih hw)

theorem At.holds_key {k : Value} (h : At v (path ++ [k]) w) (hk : k.Holds n) : v.Holds n := by
  generalize hkeys : path ++ [k] = keys at h
  induction h generalizing path with
  | here v => simp at hkeys
  | @entry entries e rest v he h ih =>
    cases path with
    | nil =>
      obtain ⟨rfl, -⟩ := List.cons.inj hkeys
      exact .key he hk
    | cons first more =>
      obtain ⟨-, hmore⟩ := List.cons.inj hkeys
      exact .entry he (ih hmore)

/-- What cannot be written out has an integer in it that is too long. -/
def Long (v : Value) : Prop := ∃ n, v.Holds n ∧ writtenBound ≤ n.natAbs

theorem Long.of_holds (h : Long w) (hholds : ∀ n, w.Holds n → v.Holds n) : Long v := by
  obtain ⟨n, hn, hlong⟩ := h
  exact ⟨n, hholds n hn, hlong⟩

mutual

theorem long_of_isWritable : ∀ {v : Value}, v.isWritable = false → Long v
  | .int n, h => by
    rw [isWritable] at h
    exact ⟨n, .int n, not_lt.mp (of_decide_eq_false h)⟩
  | .list items, h => by
    rw [isWritable] at h
    obtain ⟨v, hv, hlong⟩ := exists_long_item h
    exact hlong.of_holds fun n hn => .item hv hn
  | .set elements, h => by
    rw [isWritable] at h
    obtain ⟨v, hv, hlong⟩ := exists_long_item h
    exact hlong.of_holds fun n hn => .element hv hn
  | .map entries, h => by
    rw [isWritable] at h
    obtain ⟨e, he, hlong | hlong⟩ := exists_long_entry h
    · exact hlong.of_holds fun n hn => .key he hn
    · exact hlong.of_holds fun n hn => .entry he hn
  | .pair a b, h => by
    rw [isWritable, Bool.and_eq_false_iff] at h
    rcases h with h | h
    · exact (long_of_isWritable h).of_holds fun n hn => .first hn
    · exact (long_of_isWritable h).of_holds fun n hn => .second hn
  | .null, h | .bool _, h | .float _, h | .text _, h | .bytes _, h | .moment _, h | .loop _, h => by cases h

theorem exists_long_item : ∀ {vs : List Value}, allWritable vs = false → ∃ v ∈ vs, Long v
  | v :: rest, h => by
    rw [allWritable, Bool.and_eq_false_iff] at h
    rcases h with h | h
    · exact ⟨v, List.mem_cons_self, long_of_isWritable h⟩
    · obtain ⟨w, hw, hlong⟩ := exists_long_item h
      exact ⟨w, List.mem_cons_of_mem v hw, hlong⟩

theorem exists_long_entry : ∀ {es : List (Value × Value)}, entriesWritable es = false → ∃ e ∈ es, Long e.1 ∨ Long e.2
  | (k, v) :: rest, h => by
    rw [entriesWritable, Bool.and_eq_false_iff, Bool.and_eq_false_iff] at h
    rcases h with (h | h) | h
    · exact ⟨(k, v), List.mem_cons_self, .inl (long_of_isWritable h)⟩
    · exact ⟨(k, v), List.mem_cons_self, .inr (long_of_isWritable h)⟩
    · obtain ⟨e, he, hlong⟩ := exists_long_entry h
      exact ⟨e, List.mem_cons_of_mem _ he, hlong⟩

end

end Yaml.Value

namespace Catalog

open Yaml (Value)

variable {v w : Value} {path : List Value} {place : List String} {e : Value × Value} {x : ReadError}

/-- The paths behind which the keys are names, of categories and of units. -/
inductive Named : List Value → Prop
  | unitCategory : Named [.text "units"]
  | unit (category : Value) : Named [.text "units", category]
  | conversionCategory : Named [.text "conversions"]
  | source (category : Value) : Named [.text "conversions", category]
  | target (category source : Value) : Named [.text "conversions", category, source]

/-- What reading a document breaks off at: a factor beyond the doubles, or something too long to be written
out, a name or a value that is no rule. -/
inductive Breaks (v : Value) : ReadError → Prop
  | factor {category source target : Value} {n : Int}
      (hat : v.At [.text "conversions", category, source, target] (.int n)) (hlarge : Decimal.overflow ≤ |(n : ℚ)|) :
      Breaks v .integerTooLarge
  | name {path : List Value} {key w : Value} (hnamed : Named path) (hat : v.At (path ++ [key]) w) (hlong : key.Long) :
      Breaks v .integerTooLong
  | value {category source target w : Value} (hat : v.At [.text "conversions", category, source, target] w)
      (hlong : w.Long) :
      Breaks v .integerTooLong

/-- Reading has been refused or breaks off. -/
def Explained (v : Value) (x : ReadError) : Prop := (∃ e, x = .refused e) ∨ Breaks v x

/-- Reading a list fails at its first element that cannot be read. -/
theorem collect_eq_error {α β : Type} {read : α → Except ReadError (List β)} {xs : List α}
    (h : collect read xs = .error x) :
    ∃ before a after, xs = before ++ a :: after ∧ (∀ b ∈ before, ∃ found, read b = .ok found) ∧ read a = .error x := by
  induction xs with
  | nil => cases h
  | cons a rest ih =>
    rw [collect] at h
    cases ha : read a with
    | error e =>
      rw [ha] at h
      cases h
      exact ⟨[], a, rest, rfl, by simp, ha⟩
    | ok found =>
      cases hrest : collect read rest with
      | error e =>
        rw [ha, hrest] at h
        cases h
        obtain ⟨before, b, after, rfl, hbefore, hb⟩ := ih hrest
        exact ⟨a :: before, b, after, rfl, List.forall_mem_cons.mpr ⟨⟨found, ha⟩, hbefore⟩, hb⟩
      | ok more =>
        rw [ha, hrest] at h
        cases h

theorem collect_eq_ok {α β : Type} {read : α → Except ReadError (List β)} {xs : List α} {found : List β}
    (h : collect read xs = .ok found) : ∀ a ∈ xs, ∃ part, read a = .ok part := by
  induction xs generalizing found with
  | nil => simp
  | cons a rest ih =>
    rw [collect] at h
    cases ha : read a with
    | error e =>
      rw [ha] at h
      cases h
    | ok part =>
      cases hrest : collect read rest with
      | error e =>
        rw [ha, hrest] at h
        cases h
      | ok more => exact List.forall_mem_cons.mpr ⟨⟨part, ha⟩, ih hrest⟩

theorem nameOf_eq_error {k : Value} (h : nameOf k = .error x) : k.Long ∧ x = .integerTooLong := by
  unfold nameOf at h
  split at h
  · cases h
  · next hwritable =>
    cases h
    exact ⟨Value.long_of_isWritable (by simpa using hwritable), rfl⟩

theorem entriesOf_eq_ok {entries : List (Value × Value)} (h : entriesOf v place = .ok entries) :
    v = .map entries ∨ entries = [] := by
  unfold entriesOf at h
  split at h
  · cases h
    exact .inl rfl
  · split at h
    · cases h
      exact .inr rfl
    · cases h

theorem entriesOf_eq_error (h : entriesOf v place = .error x) : ∃ e, x = .refused e := by
  unfold entriesOf at h
  split at h
  · cases h
  · split at h
    · cases h
    · cases h
      exact ⟨_, rfl⟩

theorem explained_entries {β : Type} {read : Value × Value → Except ReadError (List β)} {entries : List (Value × Value)}
    (hat : v.At path w) (hentries : entriesOf w place = .ok entries) (hcollect : collect read entries = .error x)
    (hread : ∀ e, v.At (path ++ [e.1]) e.2 → read e = .error x → Explained v x) : Explained v x := by
  obtain ⟨before, e, after, hsplit, -, he⟩ := collect_eq_error hcollect
  rcases entriesOf_eq_ok hentries with rfl | rfl
  · exact hread e (hat.append_entry (by simp [hsplit])) he
  · simp at hsplit

theorem explained_name (hnamed : Named path) (hat : v.At (path ++ [e.1]) e.2) (h : nameOf e.1 = .error x) :
    Explained v x := by
  obtain ⟨hlong, rfl⟩ := nameOf_eq_error h
  exact .inr (.name hnamed hat hlong)

/-- The levels of a document are read alike: a name, and the entries below it one by one. -/
def readLevel {β : Type} (place : String → List String) (read : String → Value × Value → Except ReadError (List β))
    (e : Value × Value) : Except ReadError (List β) :=
  (nameOf e.1).bind fun name => (entriesOf e.2 (place name)).bind fun entries => collect (read name) entries

theorem readUnitCategory_eq : readUnitCategory = readLevel (fun category => ["units", category]) readUnit := by
  funext e
  unfold readUnitCategory readLevel
  cases nameOf e.1 with
  | error x => rfl
  | ok category =>
    dsimp only [Except.bind]
    cases entriesOf e.2 ["units", category] <;> rfl

theorem readSource_eq (category : String) :
    readSource category = readLevel (fun source => ["conversions", category, source]) (readTarget category) := by
  funext e
  unfold readSource readLevel
  cases nameOf e.1 with
  | error x => rfl
  | ok source =>
    dsimp only [Except.bind]
    cases entriesOf e.2 ["conversions", category, source] <;> rfl

theorem readConversionCategory_eq :
    readConversionCategory = readLevel (fun category => ["conversions", category]) readSource := by
  funext e
  unfold readConversionCategory readLevel
  cases nameOf e.1 with
  | error x => rfl
  | ok category =>
    dsimp only [Except.bind]
    cases entriesOf e.2 ["conversions", category] <;> rfl

section

variable {β : Type} {placeOf : String → List String} {read : String → Value × Value → Except ReadError (List β)}

theorem explained_level (hnamed : Named path) (hat : v.At (path ++ [e.1]) e.2) (h : readLevel placeOf read e = .error x)
    (hread : ∀ name e', v.At (path ++ [e.1] ++ [e'.1]) e'.2 → read name e' = .error x → Explained v x) :
    Explained v x := by
  unfold readLevel at h
  cases hname : nameOf e.1 with
  | error x' =>
    rw [hname] at h
    cases h
    exact explained_name hnamed hat hname
  | ok name =>
    rw [hname] at h
    dsimp only [Except.bind] at h
    cases hentries : entriesOf e.2 (placeOf name) with
    | error x' =>
      rw [hentries] at h
      cases h
      exact .inl (entriesOf_eq_error hentries)
    | ok entries =>
      rw [hentries] at h
      exact explained_entries hat hentries h fun e' he' => hread name e' he'

/-- A level that has been read has had all its entries read. -/
theorem exists_of_readLevel {found : List β} {entries : List (Value × Value)} (h : readLevel placeOf read e = .ok found)
    (he : e.2 = .map entries) : ∀ e' ∈ entries, ∃ name part, read name e' = .ok part := by
  intro e' he'
  unfold readLevel at h
  cases hname : nameOf e.1 with
  | error x =>
    rw [hname] at h
    cases h
  | ok name =>
    rw [hname, he] at h
    exact ⟨name, collect_eq_ok h e' he'⟩

end

theorem explained_unit {category : Value} {categoryName : String} (hat : v.At ([.text "units", category] ++ [e.1]) e.2)
    (h : readUnit categoryName e = .error x) : Explained v x := by
  unfold readUnit at h
  split at h
  · cases h
  · cases hname : nameOf e.1 with
    | error e' =>
      rw [hname] at h
      cases h
      exact explained_name (.unit category) hat hname
    | ok unit =>
      rw [hname] at h
      dsimp only at h
      split at h
      · cases h
      · cases h
        exact .inl ⟨_, rfl⟩

theorem explained_unitCategory (hat : v.At ([.text "units"] ++ [e.1]) e.2) (h : readUnitCategory e = .error x) :
    Explained v x := by
  rw [readUnitCategory_eq] at h
  apply explained_level .unitCategory hat h
  intro category unit hunit herror
  exact explained_unit hunit herror

theorem explained_notARule {category source target : Value}
    (hat : v.At [.text "conversions", category, source, target] w) : Explained v (notARule place w) := by
  unfold notARule
  split
  · exact .inl ⟨_, rfl⟩
  · next hwritable => exact .inr (.value hat (Value.long_of_isWritable (by simpa using hwritable)))

theorem explained_rule {category source target : Value} (hat : v.At [.text "conversions", category, source, target] w)
    (h : readRule place w = .error x) : Explained v x := by
  unfold readRule at h
  split at h
  · next n =>
    split at h
    · cases h
    · next hnone =>
      cases h
      exact .inr (.factor hat (Decimal.ofInt?_eq_none_iff.mp hnone))
  · cases h
  · split at h
    · cases h
      exact explained_notARule hat
    · cases h
  · cases h
    exact explained_notARule hat

theorem explained_target {category source : Value} {categoryName sourceName : String}
    (hat : v.At ([.text "conversions", category, source] ++ [e.1]) e.2)
    (h : readTarget categoryName sourceName e = .error x) :
    Explained v x := by
  unfold readTarget at h
  cases hname : nameOf e.1 with
  | error e' =>
    rw [hname] at h
    cases h
    exact explained_name (.target category source) hat hname
  | ok target =>
    rw [hname] at h
    cases hrule : readRule ["conversions", categoryName, sourceName, target] e.2 with
    | error e' =>
      simp only [hrule] at h
      cases h
      exact explained_rule hat hrule
    | ok rule =>
      simp only [hrule] at h
      cases h

theorem explained_source {category : Value} {categoryName : String}
    (hat : v.At ([.text "conversions", category] ++ [e.1]) e.2)
    (h : readSource categoryName e = .error x) : Explained v x := by
  rw [readSource_eq] at h
  apply explained_level (.source category) hat h
  intro source target htarget herror
  exact explained_target htarget herror

theorem explained_conversionCategory (hat : v.At ([.text "conversions"] ++ [e.1]) e.2)
    (h : readConversionCategory e = .error x) : Explained v x := by
  rw [readConversionCategory_eq] at h
  apply explained_level .conversionCategory hat h
  intro category source hsource herror
  exact explained_source hsource herror

theorem eq_text_of_sameKey {k : Value} {key : String} (h : Value.sameKey k (.text key) = true) : k = .text key := by
  cases k with
  | text s =>
    have hs : s = key := by simpa [Value.sameKey, Value.rational?] using h
    rw [hs]
  | float x => cases hx : Decimal.Double.ofFloat x <;> simp [Value.sameKey, Value.rational?, hx] at h
  | _ => simp [Value.sameKey, Value.rational?] at h

theorem at_get (entries : List (Value × Value)) (key : String) :
    (Value.map entries).At [.text key] (Value.get entries key) ∨ Value.get entries key = .null := by
  unfold Value.get
  cases hfind : entries.find? fun e => Value.sameKey e.1 (.text key) with
  | none => exact .inr rfl
  | some e =>
    left
    have hsame : Value.sameKey e.1 (.text key) = true :=
      List.find?_some (p := fun e : Value × Value => Value.sameKey e.1 (.text key)) hfind
    have hkey : e.1 = .text key := eq_text_of_sameKey hsame
    rw [← hkey]
    exact .entry (List.mem_of_find?_eq_some hfind) (.here e.2)

theorem explained_section {β : Type} {read : Value × Value → Except ReadError (List β)}
    {entries found : List (Value × Value)}
    {key : String} (hfound : entriesOf (Value.get entries key) place = .ok found)
    (hcollect : collect read found = .error x)
    (hread : ∀ e, (Value.map entries).At ([.text key] ++ [e.1]) e.2 → read e = .error x → Explained (.map entries) x) :
    Explained (.map entries) x := by
  -- An absent section has no place in the document, but then it has no entries either.
  rcases at_get entries key with hat | hnull
  · exact explained_entries hat hfound hcollect hread
  · rw [hnull] at hfound
    cases hfound
    cases hcollect

theorem explained_units {entries : List (Value × Value)} (h : readUnits entries = .error x) :
    Explained (.map entries) x := by
  unfold readUnits at h
  cases hentries : entriesOf (Value.get entries "units") ["units"] with
  | error e' =>
    rw [hentries] at h
    cases h
    exact .inl (entriesOf_eq_error hentries)
  | ok categories =>
    rw [hentries] at h
    exact explained_section hentries h fun category hcategory => explained_unitCategory hcategory

theorem explained_definitions {entries : List (Value × Value)} (h : readDefinitions entries = .error x) :
    Explained (.map entries) x := by
  unfold readDefinitions at h
  cases hentries : entriesOf (Value.get entries "conversions") ["conversions"] with
  | error e' =>
    rw [hentries] at h
    cases h
    exact .inl (entriesOf_eq_error hentries)
  | ok categories =>
    rw [hentries] at h
    exact explained_section hentries h fun category hcategory => explained_conversionCategory hcategory

/-- A document value that no catalog comes out of is refused, or reading breaks off at an integer in it. -/
theorem explained_ofValue (h : ofValue v = .error x) : Explained v x := by
  unfold ofValue at h
  split at h
  · next entries =>
    cases hunits : readUnits entries with
    | error e' =>
      simp only [hunits] at h
      cases h
      exact explained_units hunits
    | ok units =>
      cases hdefinitions : readDefinitions entries with
      | error e' =>
        simp only [hunits, hdefinitions] at h
        cases h
        exact explained_definitions hdefinitions
      | ok definitions =>
        simp only [hunits, hdefinitions] at h
        cases h
  · cases h
    exact .inl ⟨_, rfl⟩

def Distinct (entries : List (Value × Value)) : Prop := entries.Pairwise fun e e' => Value.sameKey e.1 e'.1 = false

theorem get_eq {entries : List (Value × Value)} (hdistinct : Distinct entries) {key : String} (he : e ∈ entries)
    (hkey : e.1 = .text key) : Value.get entries key = e.2 := by
  have hsame : Value.sameKey (.text key) (.text key) = true := by simp [Value.sameKey, Value.rational?]
  induction entries with
  | nil => cases he
  | cons first rest ih =>
    obtain ⟨hfirst, hrest⟩ := List.pairwise_cons.mp hdistinct
    rcases List.mem_cons.mp he with rfl | he
    · rw [Value.get, List.find?_cons_of_pos (by rw [hkey, hsame])]
    · have hother : Value.sameKey first.1 (.text key) = false := by
        rw [← hkey]
        exact hfirst e he
      rw [Value.get, List.find?_cons_of_neg (by simp [hother])]
      exact ih hrest he

theorem readDefinitions_of_ofValue {entries : List (Value × Value)} {catalog : Catalog}
    (h : ofValue (.map entries) = .ok catalog) :
    readDefinitions entries = .ok catalog.definitions := by
  unfold ofValue at h
  cases hunits : readUnits entries with
  | error x =>
    simp only [hunits] at h
    cases h
  | ok units =>
    cases hdefinitions : readDefinitions entries with
    | error x =>
      simp only [hunits, hdefinitions] at h
      cases h
    | ok definitions =>
      simp only [hunits, hdefinitions] at h
      cases h
      rfl

/-- Where reading succeeds, every rule of the document has been read. -/
theorem exists_readRule {entries : List (Value × Value)} (hdistinct : Distinct entries) {catalog : Catalog}
    (h : ofValue (.map entries) = .ok catalog) {category source target : Value}
    (hat : (Value.map entries).At [.text "conversions", category, source, target] w) :
    ∃ place rule, readRule place w = .ok rule := by
  -- The path is followed down first, then the readers are opened along it.
  obtain ⟨_, e, ⟨⟩, he, hkey, hat⟩ := hat.exists_entry
  obtain ⟨categories, c, hcategories, hc, -, hat⟩ := hat.exists_entry
  obtain ⟨sources, s, hsources, hs, -, hat⟩ := hat.exists_entry
  obtain ⟨targets, t, htargets, ht, -, hat⟩ := hat.exists_entry
  obtain rfl := hat.eq_of_nil
  have hread := readDefinitions_of_ofValue h
  simp only [readDefinitions, get_eq hdistinct he hkey, hcategories, entriesOf] at hread
  obtain ⟨_, hcategory⟩ := collect_eq_ok hread c hc
  rw [readConversionCategory_eq] at hcategory
  obtain ⟨_, _, hsource⟩ := exists_of_readLevel hcategory hsources s hs
  rw [readSource_eq] at hsource
  obtain ⟨_, _, htarget⟩ := exists_of_readLevel hsource htargets t ht
  unfold readTarget at htarget
  split at htarget
  · cases htarget
  · split at htarget
    · cases htarget
    · next rule hrule => exact ⟨_, rule, hrule⟩

/-- A document with a factor beyond the doubles is never read. -/
theorem Breaks.not_ok_of_large {entries : List (Value × Value)} (hdistinct : Distinct entries)
    (h : Breaks (.map entries) .integerTooLarge) (catalog : Catalog) : ofValue (.map entries) ≠ .ok catalog := by
  intro hok
  cases h with
  | factor hat hlarge =>
    obtain ⟨place, rule, hrule⟩ := exists_readRule hdistinct hok hat
    simp only [readRule, Decimal.ofInt?_eq_none_iff.mpr hlarge] at hrule
    cases hrule

/-- Integers that are too long are beyond the doubles by far. -/
theorem overflow_le_of_long {n : Int} (h : Value.writtenBound ≤ n.natAbs) : Decimal.overflow ≤ |(n : ℚ)| := by
  have hdigits : 400 ≤ Yaml.digitLimit := by decide
  have hbound : Decimal.overflow ≤ (Value.writtenBound : ℚ) := by
    unfold Value.writtenBound
    generalize Yaml.digitLimit = k at hdigits
    exact Decimal.overflow_le_ten_pow hdigits
  have hcast : (Value.writtenBound : ℚ) ≤ (n.natAbs : ℚ) := by exact_mod_cast h
  calc Decimal.overflow ≤ (Value.writtenBound : ℚ) := hbound
    _ ≤ (n.natAbs : ℚ) := hcast
    _ = |(n : ℚ)| := by rw [Nat.cast_natAbs, Int.cast_abs]

/-- Nothing is broken off at in a document whose integers all have nearest doubles. -/
theorem Breaks.exists_large (h : Breaks v x) : ∃ n, v.Holds n ∧ Decimal.overflow ≤ |(n : ℚ)| := by
  cases h with
  | factor hat hlarge => exact ⟨_, hat.holds (.int _), hlarge⟩
  | name _ hat hlong =>
    obtain ⟨n, hn, hbound⟩ := hlong
    exact ⟨n, hat.holds_key hn, overflow_le_of_long hbound⟩
  | value hat hlong =>
    obtain ⟨n, hn, hbound⟩ := hlong
    exact ⟨n, hat.holds hn, overflow_le_of_long hbound⟩

end Catalog

end Metrology
