import Metrology.Proofs.Decimal.Value
import Metrology.Proofs.Request.Grammar

/-! # What becomes of a text as a request

A text that cannot be cut into the parts of a request is no request. With the parts at hand the names are
looked up, the source first, and both have to be of one category.
-/
namespace Metrology

open Decimal Request

variable {table : UnitTable} {text : String}

def Request.Cuts (p : Parts) (text : String) : Prop := p.text = text.toList

theorem Request.Cuts.read? {p : Parts} (h : Cuts p text) : read? text = some p.request :=
  read?_eq_some_iff.mpr ⟨p, h, rfl⟩

theorem Request.read?_eq_none_iff : read? text = none ↔ ∀ p, ¬ Cuts p text := by
  constructor
  · intro h p hp
    rw [hp.read?] at h
    cases h
  · intro h
    cases hread : Request.read? text with
    | none => rfl
    | some r =>
      obtain ⟨p, hp, -⟩ := read?_eq_some_iff.mp hread
      exact absurd hp (h p)

theorem looksLikeRequest_iff : looksLikeRequest text = true ↔ ∃ p, Cuts p text := by
  rw [looksLikeRequest, Option.isSome_iff_ne_none, ne_eq, read?_eq_none_iff]
  simp only [not_forall, not_not]

inductive Request.Unresolved (table : UnitTable) (text : String) : ConversionError → Prop
  | notARequest (hshape : ∀ p, ¬ Cuts p text) : Unresolved table text (.notARequest text)
  | unknownSource {p : Parts} (hp : Cuts p text) (hsource : table.resolve? p.request.source = none) :
      Unresolved table text (.unknownUnit p.request.source)
  | unknownTarget {p : Parts} {source : UnitEntry} (hp : Cuts p text)
      (hsource : table.resolve? p.request.source = some source)
      (htarget : table.resolve? p.request.target = none) : Unresolved table text (.unknownUnit p.request.target)
  | categoryMismatch {p : Parts} {source target : UnitEntry} (hp : Cuts p text)
      (hsource : table.resolve? p.request.source = some source)
      (htarget : table.resolve? p.request.target = some target)
      (hne : source.category ≠ target.category) : Unresolved table text (.categoryMismatch source target)

structure Request.Resolves (table : UnitTable) (p : Parts) (r : ResolvedRequest) : Prop where
  value : r.value = p.numeral.value
  source : table.resolve? p.request.source = some r.source
  target : table.resolve? p.request.target = some r.target
  same : r.source.category = r.target.category

theorem resolveRequest_eq_error_of_unresolved {e : ConversionError} (h : Unresolved table text e) :
    resolveRequest table text = .error e := by
  cases h with
  | notARequest hshape => simp only [resolveRequest, read?_eq_none_iff.mpr hshape]
  | unknownSource hp hsource => simp only [resolveRequest, hp.read?, hsource]
  | unknownTarget hp hsource htarget => simp only [resolveRequest, hp.read?, hsource, htarget]
  | categoryMismatch hp hsource htarget hne => simp only [resolveRequest, hp.read?, hsource, htarget, hne, if_false]

theorem resolveRequest_eq_ok_of_resolves {p : Parts} {r : ResolvedRequest} (hp : Cuts p text) (h : Resolves table p r) :
    resolveRequest table text = .ok r := by
  obtain ⟨value, source, target⟩ := r
  obtain rfl : value = p.numeral.value := h.value
  have hsame : source.category = target.category := h.same
  simp only [resolveRequest, hp.read?, h.source, h.target, hsame, if_true]
  rfl

/-- Every text is refused or resolved. -/
theorem Request.unresolved_or_resolves (table : UnitTable) (text : String) :
    (∃ e, Unresolved table text e) ∨ ∃ p r, Cuts p text ∧ Resolves table p r := by
  by_cases hshape : ∃ p, Cuts p text
  · obtain ⟨p, hp⟩ := hshape
    cases hsource : table.resolve? p.request.source with
    | none => exact .inl ⟨_, .unknownSource hp hsource⟩
    | some source =>
      cases htarget : table.resolve? p.request.target with
      | none => exact .inl ⟨_, .unknownTarget hp hsource htarget⟩
      | some target =>
        by_cases hsame : source.category = target.category
        · exact .inr ⟨p, ⟨p.numeral.value, source, target⟩, hp, rfl, hsource, htarget, hsame⟩
        · exact .inl ⟨_, .categoryMismatch hp hsource htarget hsame⟩
  · exact .inl ⟨_, .notARequest fun p hp => hshape ⟨p, hp⟩⟩

theorem resolveRequest_eq_error_iff {e : ConversionError} :
    resolveRequest table text = .error e ↔ Unresolved table text e := by
  constructor
  · intro h
    rcases unresolved_or_resolves table text with ⟨e', he'⟩ | ⟨p, r, hp, hr⟩
    · have heq := resolveRequest_eq_error_of_unresolved he'
      rw [h] at heq
      cases heq
      exact he'
    · rw [resolveRequest_eq_ok_of_resolves hp hr] at h
      cases h
  · exact resolveRequest_eq_error_of_unresolved

theorem resolveRequest_eq_ok_iff {r : ResolvedRequest} :
    resolveRequest table text = .ok r ↔ ∃ p, Cuts p text ∧ Resolves table p r := by
  constructor
  · intro h
    rcases unresolved_or_resolves table text with ⟨e, he⟩ | ⟨p, r', hp, hr⟩
    · rw [resolveRequest_eq_error_of_unresolved he] at h
      cases h
    · have heq := resolveRequest_eq_ok_of_resolves hp hr
      rw [h] at heq
      cases heq
      exact ⟨p, hp, hr⟩
  · rintro ⟨p, hp, hr⟩
    exact resolveRequest_eq_ok_of_resolves hp hr

theorem resolveRequest_ne_notARequest_iff :
    (∀ written, resolveRequest table text ≠ .error (.notARequest written)) ↔ ∃ p, Cuts p text := by
  constructor
  · intro h
    by_contra hshape
    apply h text
    exact resolveRequest_eq_error_of_unresolved (.notARequest fun p hp => hshape ⟨p, hp⟩)
  · rintro ⟨p, hp⟩ written h
    cases resolveRequest_eq_error_iff.mp h with
    | notARequest hshape => exact hshape p hp

/-- The grammar of requests. A text is a request if and only if it is a numeral, a name, a separator and a
name among blanks, in one way at most. Its value is the double nearest to its numeral, and its units are the
ones that its names are resolved to. -/
theorem request_grammar (text : String) :
    (looksLikeRequest text = true ↔ ∃ p, Cuts p text) ∧
    (∀ table, (∀ written, resolveRequest table text ≠ .error (.notARequest written)) ↔ ∃ p, Cuts p text) ∧
    (∀ p q, Cuts p text → Cuts q text → p = q) ∧
    ∀ p, Cuts p text → Numeral.read? p.amount = some p.numeral ∧ Nearest p.numeral.rational p.numeral.value ∧
      ∀ table r, resolveRequest table text = .ok r ↔ Resolves table p r := by
  have hunique : ∀ p q, Cuts p text → Cuts q text → p = q := fun p q hp hq => Parts.text_injective (hp.trans hq.symm)
  refine ⟨looksLikeRequest_iff, fun table => resolveRequest_ne_notARequest_iff, hunique, ?_⟩
  intro p hp
  refine ⟨Numeral.read?_eq_some_iff.mpr p.amount_spells, Numeral.nearest_value p.amount_spells.lt_ten, ?_⟩
  intro table r
  rw [resolveRequest_eq_ok_iff]
  constructor
  · rintro ⟨q, hq, hr⟩
    rwa [hunique p q hp hq]
  · intro hr
    exact ⟨p, hp, hr⟩

/-- One `E` opens an exponent and the next letter a name; the first `to` is the separator and the second one a
unit. -/
theorem request_grammar_letters : ∃ p, Cuts p "-5.6E-5e to to" ∧ p.amount = "-5.6E-5".toList ∧ p.source = ['e'] ∧
    p.target = ['t', 'o'] ∧ (∀ q, Cuts q "-5.6E-5e to to" → q = p) ∧
    Nearest (-56 / 1000000) (Numeral.value ⟨true, [5, 6], -6⟩) ∧
    resolveRequest [⟨"Euro", "e", "Money"⟩, ⟨"Tonne", "to", "Mass"⟩] "-5.6E-5e to to" ≠
        .error (.notARequest "-5.6E-5e to to") := by
  obtain ⟨-, hpasses, hunique, hvalue⟩ := request_grammar "-5.6E-5e to to"
  have hamount : Numeral.Spells ⟨true, [5, 6], -6⟩ "-5.6E-5".toList := Numeral.read?_eq_some_iff.mp (by decide +kernel)
  have hblanks : Blanks [' '] := by simp [Blanks]; rfl
  have hseparator : Separator ([' '] ++ 't' :: 'o' :: [' ']) :=
    .word hblanks (by simp) (.inl rfl) (.inl rfl) hblanks (by simp)
  have hname : IsName ['e'] := ⟨by simp, List.all_eq_true.mp (by decide +kernel)⟩
  have hname' : IsName ['t', 'o'] := ⟨by simp, List.all_eq_true.mp (by decide +kernel)⟩
  have hp : ∃ p, Cuts p "-5.6E-5e to to" ∧ p.amount = "-5.6E-5".toList ∧ p.source = ['e'] ∧ p.target = ['t', 'o'] ∧
      p.numeral = ⟨true, [5, 6], -6⟩ :=
    ⟨⟨[], _, _, [], ['e'], [' ', 't', 'o', ' '], ['t', 'o'], [], .nil, hamount, .nil, hname,
      hseparator, hname', .nil⟩,
      rfl, rfl, rfl, rfl, rfl⟩
  obtain ⟨p, hp, htext, hsource, htarget, hnumeral⟩ := hp
  obtain ⟨-, hnearest, -⟩ := hvalue p hp
  rw [hnumeral] at hnearest
  have hrational : Numeral.rational ⟨true, [5, 6], -6⟩ = -56 / 1000000 := by
    norm_num [Numeral.rational, natOfDigits]
  rw [hrational] at hnearest
  exact ⟨p, hp, htext, hsource, htarget, fun q hq => hunique q p hq hp, hnearest, (hpasses _).mpr ⟨p, hp⟩ _⟩

end Metrology
