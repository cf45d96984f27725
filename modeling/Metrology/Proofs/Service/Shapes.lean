import Metrology.Proofs.Service.Calls

/-! # The two shapes of a conversion

A conversion in words whose names are resolved is the conversion between the units that they stand for: both
shapes of the call get the same reply and leave the service in the same state. So a client can write its
conversions either way, one by one.
-/
namespace Metrology.Service

open Decimal Request

variable {s : State} {words between : Call}

def unitsCall (r : ResolvedRequest) : Call :=
  .convert ⟨none, some r.category, some r.source.unit, some r.target.unit, some r.value⟩

theorem convertText_of_resolves {c : Converter} {query : String} {r : ResolvedRequest}
    (h : resolveRequest c.table query = .ok r) :
    convertText c query = convertBetween c r.category r.source.unit r.target.unit r.value := by
  unfold convertText convertBetween
  rw [Converter.convertText_of_ok h, ResolvedRequest.call]
  cases c.convert r.category r.source.unit r.target.unit r.value with
  | error e => rfl
  | ok o => rfl

theorem answer_words {query : String} {p : Parts} {r : ResolvedRequest} (hp : Cuts p query)
    (hr : Resolves s.converter.table p r) (category source target : Option String) (value : Option Float) :
    answer s (.convert ⟨some query, category, source, target, value⟩) = answer s (unitsCall r) := by
  have htext := convertText_of_resolves (resolveRequest_eq_ok_of_resolves hp hr)
  simp only [answer, convert, unitsCall, htext]

theorem convertText_state (c : Converter) (query : String) : (convertText c query).2 = c.serve (.words query) := by
  simp only [convertText, Converter.serve]
  cases c.convertText query <;> rfl

theorem convertBetween_state (c : Converter) (category source target : String) (value : Float) :
    (convertBetween c category source target value).2 = c.next ⟨category, source, target, value⟩ := by
  simp only [convertBetween, Converter.next]
  cases c.convert category source target value <;> rfl

/-- No call changes the table that names are looked up in. -/
theorem table_answer (s : State) (call : Call) : (answer s call).2.converter.table = s.converter.table := by
  cases call with
  | convert c =>
    change (convert s.converter c).2.table = s.converter.table
    unfold convert
    split
    · next query _ _ _ _ =>
      rw [convertText_state]
      rcases s.converter.serve_words query with hsame | ⟨k, hnext⟩
      · rw [hsame]
      · rw [hnext, Converter.table_next]
    · rw [convertBetween_state, Converter.table_next]
    · rfl
  | _ => rfl

/-- Another shape of the same call: a conversion in words, whatever its other fields are, may be asked for by
its units. -/
inductive Rephrases (table : UnitTable) : Call → Call → Prop
  | same (call : Call) : Rephrases table call call
  | words {amount a separator b : List Char} {n : Numeral} {r t : UnitEntry} {category source target : Option String}
      {value : Option Float} (hn : n.Spells amount) (ha : IsName a) (hseparator : Separator separator) (hb : IsName b)
      (hr : table.resolve? (String.ofList a) = some r) (ht : table.resolve? (String.ofList b) = some t)
      (hsame : r.category = t.category) :
      Rephrases table (.convert ⟨some (String.ofList (amount ++ a ++ separator ++ b)), category, source, target, value⟩)
        (.convert ⟨none, some r.category, some r.unit, some t.unit, some n.value⟩)

theorem Rephrases.answer_eq (h : Rephrases s.converter.table words between) : answer s words = answer s between := by
  cases h with
  | same => rfl
  | @words amount a separator b n r t category source target value hn ha hseparator hb hr ht hsame =>
    let p : Parts := ⟨[], amount, n, [], a, separator, b, [], .nil, hn, .nil, ha, hseparator, hb, .nil⟩
    have hp : Cuts p (String.ofList (amount ++ a ++ separator ++ b)) := by
      simp [Cuts, p, Parts.text, Parts.afterAmount, Parts.afterSource]
    have hresolves : Resolves s.converter.table p ⟨n.value, r, t⟩ := ⟨rfl, hr, ht, hsame⟩
    exact answer_words hp hresolves category source target value

/-- Rephrasing any of the calls of a client changes no reply and no later state. -/
theorem answers_rephrased {calls calls' : List Call} (h : List.Forall₂ (Rephrases s.converter.table) calls calls') :
    answers s calls = answers s calls' ∧ after s calls = after s calls' := by
  generalize htable : s.converter.table = table at h
  induction h generalizing s with
  | nil => exact ⟨rfl, rfl⟩
  | @cons call call' rest rest' hcall _ ih =>
    rw [← htable] at hcall
    have hanswer := hcall.answer_eq
    obtain ⟨hanswers, hafter⟩ := ih (s := (answer s call).2) ((table_answer s call).trans htable)
    constructor
    · change (answer s call).1 :: answers (answer s call).2 rest =
        (answer s call').1 :: answers (answer s call').2 rest'
      rw [hanswers, hanswer]
    · change after (answer s call).2 rest = after (answer s call').2 rest'
      rw [hafter, hanswer]

theorem isName_of_letters {cs : List Char} (hne : cs ≠ []) (h : ∀ c ∈ cs, Text.isLetter c = true) : IsName cs :=
  ⟨hne, fun c hc => isNameChar_of_isLetter (h c hc)⟩

/-- The two shapes of a conversion agree in every state. A numeral and two names, which may be any letters,
with a separator between them make a call that has the same reply and the same state after it as the call with
the value of the numeral and the units that the names are resolved to. The same holds for any number of calls,
each in one shape or the other. -/
theorem shapes_agree :
    (∀ cs : List Char, cs ≠ [] → (∀ c ∈ cs, Text.isLetter c = true) → IsName cs) ∧
    (∀ (s : State) (amount a separator b : List Char) (n : Numeral) (r t : UnitEntry)
      (category source target : Option String)
      (value : Option Float), n.Spells amount → IsName a → Separator separator → IsName b →
      s.converter.table.resolve? (String.ofList a) = some r → s.converter.table.resolve? (String.ofList b) = some t →
      r.category = t.category →
        answer s (.convert ⟨some (String.ofList (amount ++ a ++ separator ++ b)), category, source, target, value⟩) =
          answer s (.convert ⟨none, some r.category, some r.unit, some t.unit, some n.value⟩)) ∧
    ∀ (s : State) (calls calls' : List Call), List.Forall₂ (Rephrases s.converter.table) calls calls' →
      answers s calls = answers s calls' ∧ after s calls = after s calls' := by
  refine ⟨fun cs => isName_of_letters, ?_, fun s calls calls' => answers_rephrased⟩
  intro s amount a separator b n r t category source target value hn ha hseparator hb hr ht hsame
  exact Rephrases.answer_eq (.words hn ha hseparator hb hr ht hsame)

/-- Two lengths whose symbols are the letter of an exponent and the word of a separator. -/
def ells : Catalog where
  units := [⟨"Ell", "e", "Length"⟩, ⟨"Toise", "to", "Length"⟩]
  definitions := [⟨"Length", "Toise", "Ell", .factor 1.7⟩]

theorem shapes_agree_letters : ∃ c, (ells.builder ⟨true, true, true⟩ converterChannel).build = .ok c ∧ IsName ['e'] ∧
    answer ⟨ells, c⟩ (.convert ⟨some "-5.6E-5e to to", none, none, none, none⟩) =
      answer ⟨ells, c⟩
        (.convert ⟨none, some "Length", some "Ell", some "Toise", some (Numeral.value ⟨true, [5, 6], -6⟩)⟩) ∧
    answers ⟨ells, c⟩ [.convert ⟨some "-5.6E-5e to to", none, none, none, none⟩, .health] = answers ⟨ells, c⟩
      [.convert ⟨none, some "Length", some "Ell", some "Toise", some (Numeral.value ⟨true, [5, 6], -6⟩)⟩, .health] := by
  obtain ⟨hletters, hagree, hrun⟩ := shapes_agree
  have hfound : ((ells.builder ⟨true, true, true⟩ converterChannel).build.toOption.map fun c =>
      (c.table.resolve? "e", c.table.resolve? "to")) =
      some (some ⟨"Ell", "e", "Length"⟩, some ⟨"Toise", "to", "Length"⟩) := by decide +kernel
  obtain ⟨c, hb, hfound⟩ := Option.map_eq_some_iff.mp hfound
  obtain ⟨he, hto⟩ := Prod.mk.inj hfound
  have hamount : Numeral.Spells ⟨true, [5, 6], -6⟩ "-5.6E-5".toList := Numeral.read?_eq_some_iff.mp (by decide +kernel)
  have hblank : Blanks [' '] := by simp [Blanks]; rfl
  have hseparator : Separator ([' '] ++ 't' :: 'o' :: [' ']) :=
    .word hblank (by simp) (.inl rfl) (.inl rfl) hblank (by simp)
  have hsource : IsName ['e'] := hletters ['e'] (by simp) (List.all_eq_true.mp (by decide +kernel))
  have htarget : IsName ['t', 'o'] := hletters ['t', 'o'] (by simp) (List.all_eq_true.mp (by decide +kernel))
  have hquery : String.ofList ("-5.6E-5".toList ++ ['e'] ++ ([' '] ++ 't' :: 'o' :: [' ']) ++ ['t', 'o']) =
      "-5.6E-5e to to" := by
    decide +kernel
  have hsame := hagree ⟨ells, c⟩ _ _ _ _ _ _ _ none none none none hamount hsource hseparator htarget he hto rfl
  have hwords : Rephrases c.table (.convert ⟨some _, none, none, none, none⟩) _ :=
    .words hamount hsource hseparator htarget he hto rfl
  rw [hquery] at hsame hwords
  exact ⟨c, Builder.toOption_eq_some.mp hb, hsource, hsame,
    (hrun ⟨ells, c⟩ _ _ (.cons hwords (.cons (.same _) .nil))).1⟩

end Metrology.Service
