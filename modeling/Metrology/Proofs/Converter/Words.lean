import Metrology.Proofs.Converter.Component
import Metrology.Proofs.Converter.Record
import Metrology.Proofs.Request.Resolution

/-! # Requests in words at a converter

The table of units and the graphs are made from the same units, so what the table resolves a name to is a node
of the graph of its category, and stays one. A request whose names have been resolved can then only fail for
want of a way, and whether there is one can be read off the graph that was built.
-/
namespace Metrology

open Request

def ResolvedRequest.call (r : ResolvedRequest) : Call := ⟨r.category, r.source.unit, r.target.unit, r.value⟩

namespace Converter

variable {b : Builder} {c c' : Converter} {text : String} {e : ConversionError} {r : ResolvedRequest}

inductive Asked where
  | between (k : Call)
  | words (text : String)

/-- The converter after a conversion, whether it succeeds or not. -/
def serve (c : Converter) : Asked → Converter
  | .between k => c.next k
  | .words text =>
    match c.convertText text with
    | .ok o => o.outcome.converter
    | .error _ => c

def serveAll (c : Converter) (asked : List Asked) : Converter := asked.foldl serve c

theorem convertText_of_error (h : resolveRequest c.table text = .error e) : c.convertText text = .error e := by
  rw [convertText, h]

theorem convertText_of_ok (h : resolveRequest c.table text = .ok r) : c.convertText text =
    (c.convert r.call.category r.call.source r.call.target r.call.value).map fun o => ⟨r, o⟩ := by
  simp only [convertText, h, ResolvedRequest.call]
  cases c.convert r.category r.source.unit r.target.unit r.value with
  | error e => rfl
  | ok o => rfl

/-- A request in words leaves the converter as it is or does to it what a conversion between two units
does. -/
theorem serve_words (c : Converter) (text : String) :
    c.serve (.words text) = c ∨ ∃ k, c.serve (.words text) = c.next k := by
  unfold serve
  cases h : resolveRequest c.table text with
  | error e =>
    left
    simp only [convertText_of_error h]
  | ok r =>
    right
    refine ⟨r.call, ?_⟩
    simp only [convertText_of_ok h, next]
    cases c.convert r.call.category r.call.source r.call.target r.call.value with
    | error e => rfl
    | ok o => rfl

theorem exists_after (c : Converter) (asked : List Asked) : ∃ calls, c.serveAll asked = c.after calls := by
  induction asked generalizing c with
  | nil => exact ⟨[], rfl⟩
  | cons a rest ih =>
    obtain ⟨calls, hcalls⟩ := ih (c.serve a)
    have hserve : c.serve a = c ∨ ∃ k, c.serve a = c.next k := by
      cases a with
      | between k => exact .inr ⟨k, rfl⟩
      | words text => exact c.serve_words text
    change ∃ calls, (c.serve a).serveAll rest = c.after calls
    rcases hserve with hsame | ⟨k, hnext⟩
    · exact ⟨calls, by rw [hcalls, hsame]⟩
    · exact ⟨k :: calls, by rw [hcalls, hnext]; rfl⟩

/-- Why a request in words is refused: the text itself, or no way between two different units. -/
inductive WordsRefusal (c : Converter) (text : String) : ConversionError → Prop
  | unresolved {e : ConversionError} (h : Unresolved c.table text e) : WordsRefusal c text e
  | noPath {p : Parts} {r : ResolvedRequest} {g : UnitGraph} (hp : Cuts p text) (hr : Resolves c.table p r)
      (hg : c.graph? r.category = some g) (hne : r.source.unit ≠ r.target.unit)
      (hno : ¬ g.Reaches r.source.unit r.target.unit) : WordsRefusal c text (.noPath r.source.unit r.target.unit)

def Covered (c : Converter) : Prop := ∀ u ∈ c.table, ∃ g, c.graph? u.category = some g ∧ u.unit ∈ g.values

theorem covered_build (hb : b.build = .ok c) : c.Covered := by
  intro u hu
  obtain ⟨-, rfl⟩ := Builder.build_eq_ok.mp hb
  refine (Builder.mem_values_build hb).mpr ⟨⟨u, hu, rfl⟩, ?_⟩
  exact .inl ⟨u, hu, rfl, rfl⟩

theorem Covered.extends (h : c.Covered) (hext : c.Extends c') (htable : c'.table = c.table) : c'.Covered := by
  intro u hu
  rw [htable] at hu
  obtain ⟨g, hg, hmem⟩ := h u hu
  obtain ⟨g', hg', hlarger⟩ := hext.exists_larger hg
  refine ⟨g', hg', ?_⟩
  rwa [Graph.values, hlarger.values]

/-- What building establishes and no conversion undoes. -/
structure Ready (c : Converter) : Prop where
  coherent : c.Coherent
  total : c.Total
  covered : c.Covered

theorem ready_build (hb : b.build = .ok c) : c.Ready where
  coherent := Builder.coherent_build hb
  total := fun _ _ => Builder.total_build hb
  covered := covered_build hb

theorem Ready.serveAll (h : c.Ready) (asked : List Asked) :
    (c.serveAll asked).Ready ∧ c.Extends (c.serveAll asked) ∧ (c.serveAll asked).table = c.table := by
  obtain ⟨calls, hcalls⟩ := c.exists_after asked
  rw [hcalls]
  obtain ⟨hafter, hext⟩ := h.coherent.after calls
  have htable := c.table_after calls
  exact ⟨⟨hafter, h.total.after h.coherent calls, h.covered.extends hext htable⟩, hext, htable⟩

theorem mem_of_resolve? {table : UnitTable} {name : String} {u : UnitEntry}
    (h : table.resolve? name = some u) : u ∈ table := by
  unfold UnitTable.resolve? at h
  cases hexact : table.find? fun e => e.symbol == name with
  | some u' =>
    rw [hexact] at h
    cases h
    exact List.mem_of_find?_eq_some hexact
  | none =>
    cases hsymbol : table.find? fun e => Text.fold e.symbol == Text.fold name with
    | some u' =>
      rw [hexact, hsymbol] at h
      cases h
      exact List.mem_of_find?_eq_some hsymbol
    | none =>
      rw [hexact, hsymbol] at h
      exact List.mem_of_find?_eq_some h

theorem Covered.exists_graph (h : c.Covered) {p : Parts} (hr : Resolves c.table p r) :
    ∃ g, c.graph? r.category = some g ∧ r.source.unit ∈ g.values ∧ r.target.unit ∈ g.values := by
  obtain ⟨g, hg, hsource⟩ := h r.source (mem_of_resolve? hr.source)
  obtain ⟨g', hg', htarget⟩ := h r.target (mem_of_resolve? hr.target)
  rw [← hr.same, hg] at hg'
  cases hg'
  exact ⟨g, hg, hsource, htarget⟩

theorem wordsRefusal_iff_eq {e' : ConversionError} (h : Unresolved c.table text e') :
    WordsRefusal c text e ↔ e' = e := by
  have herror := resolveRequest_eq_error_iff.mpr h
  constructor
  · intro hrefusal
    cases hrefusal with
    | unresolved hunresolved =>
      cases herror.symm.trans (resolveRequest_eq_error_iff.mpr hunresolved)
      rfl
    | noPath hp hr => cases herror.symm.trans (resolveRequest_eq_ok_of_resolves hp hr)
  · rintro rfl
    exact .unresolved h

/-- The units that names are resolved to are nodes of the graph, so a conversion between them fails for want
of a way only. -/
theorem Covered.refusal_iff (h : c.Covered) {p : Parts} (hp : Cuts p text) (hr : Resolves c.table p r) :
    Refusal r.call (c.graph? r.category) e ↔ WordsRefusal c text e := by
  obtain ⟨g, hg, hsource, htarget⟩ := h.exists_graph hr
  have hresolved := resolveRequest_eq_ok_of_resolves hp hr
  rw [hg]
  constructor
  · intro hrefusal
    cases hrefusal with
    | source hno => exact absurd hsource hno
    | target _ hno => exact absurd htarget hno
    | path _ _ hne hno => exact .noPath hp hr hg hne hno
  · intro hrefusal
    cases hrefusal with
    | unresolved hunresolved =>
      cases hresolved.symm.trans (resolveRequest_eq_error_iff.mpr hunresolved)
    | noPath hp' hr' hg' hne hno =>
      cases hresolved.symm.trans (resolveRequest_eq_ok_of_resolves hp' hr')
      cases hg.symm.trans hg'
      exact .path (k := r.call) hsource htarget hne hno

theorem Ready.convertText_eq_error_iff (h : c.Ready) :
    c.convertText text = .error e ↔ WordsRefusal c text e := by
  rcases unresolved_or_resolves c.table text with ⟨e', he'⟩ | ⟨p, r, hp, hr⟩
  · rw [convertText_of_error (resolveRequest_eq_error_iff.mpr he'), Except.error.injEq, wordsRefusal_iff_eq he']
  · rw [← h.covered.refusal_iff hp hr, convertText_of_ok (resolveRequest_eq_ok_of_resolves hp hr)]
    refine Iff.trans ?_ (convert_eq_error_iff (k := r.call) h.coherent h.total)
    cases c.convert r.call.category r.call.source r.call.target r.call.value with
    | error e' => simp [Except.map]
    | ok o => simp [Except.map]

theorem convertText_eq_ok {o : RequestOutcome} (h : c.convertText text = .ok o) :
    ∃ p, Cuts p text ∧ Resolves c.table p o.request ∧
      c.convert o.request.category o.request.source.unit o.request.target.unit o.request.value = .ok o.outcome := by
  cases hresolved : resolveRequest c.table text with
  | error e =>
    rw [convertText_of_error hresolved] at h
    cases h
  | ok r =>
    rw [convertText_of_ok hresolved] at h
    obtain ⟨p, hp, hr⟩ := resolveRequest_eq_ok_iff.mp hresolved
    cases hconvert : c.convert r.call.category r.call.source r.call.target r.call.value with
    | error e =>
      rw [hconvert] at h
      cases h
    | ok outcome =>
      rw [hconvert] at h
      cases h
      exact ⟨p, hp, hr, hconvert⟩

theorem wordsRefusal_iff (hext : c.Extends c') (htable : c'.table = c.table) (h : c.Covered) :
    WordsRefusal c' text e ↔ WordsRefusal c text e := by
  rcases unresolved_or_resolves c.table text with ⟨e', he'⟩ | ⟨p, r, hp, hr⟩
  · have he : Unresolved c'.table text e' := by rwa [htable]
    rw [wordsRefusal_iff_eq he, wordsRefusal_iff_eq he']
  · have hr' : Resolves c'.table p r := by rwa [htable]
    rw [← h.refusal_iff hp hr, ← (h.extends hext htable).refusal_iff hp hr']
    exact hext.refusal_iff (k := r.call)

theorem WordsRefusal.front (h : WordsRefusal c text e) :
    (∀ category, e ≠ .unknownCategory category) ∧ (∀ unit category, e ≠ .notInCategory unit category) ∧
      ∀ e', e ≠ .formula e' := by
  cases h with
  | unresolved h => cases h <;> simp
  | noPath => simp

/-- After any conversions a request in words is refused exactly if its text is no request, a name is unknown,
the units are of two categories or the graph that was built has no way between them, in this order. It then
fails with the error for that cause, and with its own units of one category otherwise. All units of the table
are nodes of the graph of their category, so no request in words is refused for a category or a unit that the
graphs do not have. -/
theorem words_outcome (hb : b.build = .ok c) (earlier : List Asked) (text : String) :
    (∀ e, (c.serveAll earlier).convertText text = .error e ↔ WordsRefusal c text e) ∧
    (∀ e, (c.serveAll earlier).convertText text = .error e → (∀ category, e ≠ .unknownCategory category) ∧
      (∀ unit category, e ≠ .notInCategory unit category) ∧ ∀ e', e ≠ .formula e') ∧
    ((∀ e, ¬ WordsRefusal c text e) → ∃ o, (c.serveAll earlier).convertText text = .ok o) ∧
    (∀ o, (c.serveAll earlier).convertText text = .ok o → ∃ p, Cuts p text ∧ Resolves c.table p o.request ∧
      (c.serveAll earlier).convert o.request.category o.request.source.unit o.request.target.unit o.request.value =
        .ok o.outcome) ∧
    ∀ u ∈ c.table, ∃ g, (c.serveAll earlier).graph? u.category = some g ∧ u.unit ∈ g.values := by
  have hready := ready_build hb
  obtain ⟨hlater, hext, htable⟩ := hready.serveAll earlier
  have hiff : ∀ e, (c.serveAll earlier).convertText text = .error e ↔ WordsRefusal c text e := by
    intro e
    rw [hlater.convertText_eq_error_iff]
    exact wordsRefusal_iff hext htable hready.covered
  refine ⟨hiff, ?_, ?_, ?_, ?_⟩
  · intro e he
    exact ((hiff e).mp he).front
  · intro hnone
    cases hconvert : (c.serveAll earlier).convertText text with
    | error e => exact absurd ((hiff e).mp hconvert) (hnone e)
    | ok o => exact ⟨o, rfl⟩
  · intro o ho
    obtain ⟨p, hp, hr, hconvert⟩ := convertText_eq_ok ho
    rw [htable] at hr
    exact ⟨p, hp, hr, hconvert⟩
  · intro u hu
    exact hlater.covered u (by rwa [htable])

/-- What the first request is refused for, all later ones are. -/
theorem words_outcome_islands : ∃ c, islands.build = .ok c ∧ ∀ earlier,
    (c.serveAll earlier).convertText "2 yd" = .error (.notARequest "2 yd") ∧
    (c.serveAll earlier).convertText "2 yd -> mi" = .error (.unknownUnit "mi") ∧
    (c.serveAll earlier).convertText "2 yd to PC" = .error (.noPath "Yard" "Parsec") ∧
    ∃ o, (c.serveAll earlier).convertText "2 yd -> Inch" = .ok o := by
  have hstart : (islands.build.toOption.map fun c =>
      ["2 yd", "2 yd -> mi", "2 yd to PC", "2 yd -> Inch"].map fun text => (c.convertText text).map fun _ => ()) =
      some [.error (.notARequest "2 yd"), .error (.unknownUnit "mi"), .error (.noPath "Yard" "Parsec"), .ok ()] := by
    decide +kernel
  obtain ⟨c, hb, hstart⟩ := Option.map_eq_some_iff.mp hstart
  have hb := Builder.toOption_eq_some.mp hb
  refine ⟨c, hb, ?_⟩
  intro earlier
  have hkept : ∀ text e, (c.convertText text).map (fun _ => ()) = .error e →
      (c.serveAll earlier).convertText text = .error e := by
    intro text e he
    cases hconvert : c.convertText text with
    | error e' =>
      rw [hconvert] at he
      cases he
      exact ((words_outcome hb earlier text).1 e).mpr (((words_outcome hb [] text).1 e).mp hconvert)
    | ok o =>
      rw [hconvert] at he
      cases he
  simp only [List.map_cons, List.map_nil, List.cons.injEq, and_true] at hstart
  obtain ⟨hshape, hunknown, hpath, hinch⟩ := hstart
  refine ⟨hkept _ _ hshape, hkept _ _ hunknown, hkept _ _ hpath, (words_outcome hb earlier _).2.2.1 ?_⟩
  intro e he
  have herror : c.convertText "2 yd -> Inch" = .error e := ((words_outcome hb [] _).1 e).mpr he
  rw [herror] at hinch
  cases hinch

end Converter

end Metrology
