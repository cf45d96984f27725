import Metrology.Proofs.Converter.Outcome
import Metrology.Proofs.Converter.Record
import Metrology.Proofs.Converter.Transparency
import Metrology.Proofs.Converter.Words
import Metrology.Proofs.Formula.Names
import Metrology.Proofs.Session.RequestText
import Metrology.Session.Line

/-! # Where queries go

A query is taken for the name of a unit, for an unknown word, for a request or for a formula. Each of them
ends in an answer or in a refusal, since neither a formula nor a conversion can fail in any other way. A text
that has a value is never taken for anything but a formula: an unknown word has names only, and a request has
an arrow.
-/
namespace Metrology.Session

inductive Asks (c : Converter) (query : String) : Answer → Converter → Prop
  | named {u : UnitEntry} (hu : namedUnit? c.table query = some u) : Asks c query (.shown (unitText u)) c
  | unreadable {e : Formula.LexError} (he : Formula.tokenize query.toList = .error e) :
      Asks c query (.refused (Formula.ParseError.lexical e).message) c
  | unknownWord {ts : List Formula.Token} (hts : Formula.tokenize query.toList = .ok ts) (hall : ts.all isName = true) :
      Asks c query (.refused ("Unknown command " ++ query)) c
  | failed {e : ConversionError} (hrequest : looksLikeRequest query = true) (he : c.convertText query = .error e) :
      Asks c query (.ofConversionError e) c
  | converted {r : RequestOutcome} (hrequest : looksLikeRequest query = true) (hr : c.convertText query = .ok r) :
      Asks c query (.shown (conversionText r)) r.outcome.converter
  | formula (hrequest : looksLikeRequest query = false) : Asks c query (evaluate query) c

theorem asks (c : Converter) (query : String) : Asks c query (ask c query).1 (ask c query).2 := by
  unfold ask
  split
  · next u hu => exact .named hu
  · split
    · next e he =>
      unfold isUnknownWord at he
      split at he
      · split at he
        · next hlex =>
          cases he
          exact .unreadable hlex
        · cases he
      · cases he
    · next htrue =>
      unfold isUnknownWord at htrue
      split at htrue
      · split at htrue
        · cases htrue
        · next ts hts => exact .unknownWord hts (Except.ok.inj htrue)
      · cases htrue
    · split
      · next hrequest =>
        split
        · next e he => exact .failed hrequest he
        · next r hr => exact .converted hrequest hr
      · next hrequest => exact .formula (by simpa using hrequest)

/-- A word of names only has no value, and neither has a request. -/
theorem answer_of_evaluate {c : Converter} {query : String} {x : Float}
    (h : Formula.evaluate query Formula.Bindings.none = .ok x) (hnone : namedUnit? c.table query = none) {a : Answer}
    {c' : Converter} (hasks : Asks c query a c') : a = .shown (valueText x) ∧ c' = c := by
  obtain ⟨ts, hts, hclosed⟩ := Formula.closed_of_evaluate h
  have hrequest : looksLikeRequest query = false := by
    cases hlooks : looksLikeRequest query with
    | false => rfl
    | true =>
      obtain ⟨r, hr⟩ := Option.isSome_iff_exists.mp hlooks
      exact absurd (arrow_mem_of_request hr hts) hclosed.arrow
  cases hasks with
  | named hu =>
    rw [hnone] at hu
    cases hu
  | unreadable he =>
    rw [hts] at he
    cases he
  | unknownWord hts' hall =>
    rw [hts] at hts'
    cases hts'
    cases ts with
    | nil => exact absurd rfl hclosed.nonempty
    | cons t rest =>
      have hname := List.all_eq_true.mp hall t List.mem_cons_self
      cases t with
      | unit name => exact absurd List.mem_cons_self (hclosed.unit name)
      | _ => cases hname
  | failed hlooks =>
    rw [hrequest] at hlooks
    cases hlooks
  | converted hlooks =>
    rw [hrequest] at hlooks
    cases hlooks
  | formula =>
    constructor
    · simp only [evaluate, h]
    · rfl

/-- An answer that has gone to one of two places, the one that its success names. -/
def Answer.Settled (a : Answer) : Prop :=
  (a.succeeded = true ∧ a.output ≠ "" ∧ a.errors = "") ∨ (a.succeeded = false ∧ a.output = "" ∧ a.errors ≠ "")

theorem settled_shown (text : String) : (Answer.shown text).Settled := by
  refine Or.inl ⟨rfl, ?_, rfl⟩
  simp [Answer.output]

theorem settled_refused (message : String) : (Answer.refused message).Settled := by
  refine Or.inr ⟨rfl, rfl, ?_⟩
  simp [Answer.errors]

theorem settled_evaluate (query : String) : (evaluate query).Settled := by
  unfold evaluate
  cases h : Formula.evaluate query Formula.Bindings.none with
  | ok x => exact settled_shown _
  | error e =>
    cases e with
    | parse e => exact settled_refused _
    | eval e =>
      obtain ⟨name, -, rfl⟩ := Formula.evaluate_eq_error h
      exact settled_refused _

/-- A request that fails has named a wrong unit, or its conversion is refused. -/
theorem settled_failure {c : Converter} (hc : c.Coherent) (h : c.Total) {query : String} {e : ConversionError}
    (he : c.convertText query = .error e) : (Answer.ofConversionError e).Settled := by
  cases hresolved : resolveRequest c.table query with
  | error e' =>
    rw [Converter.convertText_of_error hresolved] at he
    cases he
    have hunresolved := resolveRequest_eq_error_iff.mp hresolved
    cases hunresolved <;> exact settled_refused _
  | ok r =>
    rw [Converter.convertText_of_ok hresolved] at he
    cases hconvert : c.convert r.call.category r.call.source r.call.target r.call.value with
    | ok o =>
      rw [hconvert] at he
      cases he
    | error e' =>
      rw [hconvert] at he
      cases he
      have hrefusal := (Converter.convert_eq_error_iff hc h).mp hconvert
      generalize c.graph? r.call.category = found at hrefusal
      cases hrefusal <;> exact settled_refused _

namespace Asks

variable {c c' : Converter} {query : String} {a : Answer}

theorem settled (h : Asks c query a c') (hc : c.Coherent) (htotal : c.Total) : a.Settled := by
  cases h with
  | named => exact settled_shown _
  | unreadable => exact settled_refused _
  | unknownWord => exact settled_refused _
  | failed _ he => exact settled_failure hc htotal he
  | converted => exact settled_shown _
  | formula => exact settled_evaluate query

/-- Only a conversion changes the converter. -/
theorem exists_after (h : Asks c query a c') : ∃ calls, c' = c.after calls := by
  cases h with
  | converted _ hr =>
    obtain ⟨calls, hcalls⟩ := c.exists_after [.words query]
    refine ⟨calls, ?_⟩
    rw [← hcalls, Converter.serveAll, List.foldl_cons, List.foldl_nil, Converter.serve, hr]
  | _ => exact ⟨[], rfl⟩

end Asks

theorem command?_eq_exit {text : String} : command? text = some .exit ↔ text = "exit" := by
  unfold command?
  split <;> simp_all

theorem fault?_of_settled {a : Answer} (h : a.Settled) : (Reply.answer a).fault? = none := by
  cases a with
  | shown text => rfl
  | refused message => rfl
  | fault e =>
    rcases h with ⟨hsucceeded, -⟩ | ⟨-, -, herrors⟩
    · cases hsucceeded
    · exact absurd rfl herrors

inductive Takes (c : Converter) (line : String) : Reply → Converter → Prop
  | blank (hblank : Text.strip line = "") : Takes c line .silence c
  | obeyed {command : Command} (hcommand : command? (Text.strip line) = some command) : Takes c line (obey c command) c
  | asked (hnone : command? (Text.strip line) = none) :
      Takes c line (.answer (ask c (Text.strip line)).1) (ask c (Text.strip line)).2

theorem takes (c : Converter) (line : String) : Takes c line (readLine c line).1 (readLine c line).2 := by
  unfold readLine
  dsimp only
  split
  · next hempty => exact .blank (String.isEmpty_iff.mp hempty)
  · split
    · next command hcommand => exact .obeyed hcommand
    · next hnone =>
      have hasked : Takes c line _ _ := .asked hnone
      generalize ask c (Text.strip line) = asked at hasked ⊢
      exact hasked

/-- Only the command to end ends the session. -/
theorem readLine_of_settled {c : Converter} (hsettled : ∀ query, (ask c query).1.Settled) (line : String) :
    (readLine c line).1.fault? = none ∧ ((readLine c line).1.goesOn = false ↔ Text.strip line = "exit") ∧
      ((readLine c line).2 = c ∨ (readLine c line).2 = (ask c (Text.strip line)).2) := by
  have htakes := takes c line
  have hexit : command? (Text.strip line) = some .exit ↔ Text.strip line = "exit" := command?_eq_exit
  generalize (readLine c line).1 = r, (readLine c line).2 = c' at htakes ⊢
  cases htakes with
  | blank hblank => exact ⟨rfl, by simp [Reply.goesOn, Reply.fault?, hblank], Or.inl rfl⟩
  | @obeyed command hcommand =>
    rw [← hexit, hcommand]
    cases command <;> exact ⟨rfl, by simp [obey, Reply.goesOn, Reply.fault?], Or.inl rfl⟩
  | asked hnone =>
    have hfault := fault?_of_settled (hsettled (Text.strip line))
    refine ⟨hfault, ?_, Or.inr rfl⟩
    rw [← hexit, hnone]
    simp [Reply.goesOn, hfault]

section

variable {b : Builder} {c : Converter} (hb : b.build = .ok c)
include hb

theorem settled_after (calls : List Call) (query : String) : (ask (c.after calls) query).1.Settled := by
  have hc := Builder.coherent_build hb
  have htotal : c.Total := fun _ _ => Builder.total_build hb
  exact (asks _ query).settled (hc.after calls).1 (htotal.after hc calls)

theorem readLine_after (calls : List Call) (line : String) :
    (readLine (c.after calls) line).1.fault? = none ∧
      ((readLine (c.after calls) line).1.goesOn = false ↔ Text.strip line = "exit") ∧
      ∃ more, (readLine (c.after calls) line).2 = c.after (calls ++ more) := by
  obtain ⟨hfault, hends, hstate⟩ := readLine_of_settled (settled_after hb calls) line
  refine ⟨hfault, hends, ?_⟩
  rcases hstate with hsame | hasked
  · exact ⟨[], by rw [hsame, List.append_nil]⟩
  · obtain ⟨more, hmore⟩ := (asks (c.after calls) (Text.strip line)).exists_after
    exact ⟨more, by rw [hasked, hmore, Converter.after_append]⟩

/-- A session replies to all lines up to the first that says `exit`. -/
theorem replies_after (calls : List Call) (lines : List String) :
    (∀ r ∈ replies (c.after calls) lines, r.fault? = none) ∧
      (replies (c.after calls) lines).length =
          min lines.length (lines.findIdx (fun line => Text.strip line == "exit") + 1) := by
  induction lines generalizing calls with
  | nil => simp [replies]
  | cons line rest ih =>
    -- The converter after the line is again one after calls, so the rest of the session is as much of a
    -- session.
    obtain ⟨hfault, hends, more, hmore⟩ := readLine_after hb calls line
    unfold replies
    dsimp only
    split
    · next hgoes =>
      have hline : Text.strip line ≠ "exit" := by
        intro hexit
        rw [hends.mpr hexit] at hgoes
        cases hgoes
      obtain ⟨hfaults, hlength⟩ := ih (calls ++ more)
      rw [← hmore] at hfaults hlength
      refine ⟨List.forall_mem_cons.mpr ⟨hfault, hfaults⟩, ?_⟩
      rw [List.length_cons, hlength, List.findIdx_cons, beq_false_of_ne hline, List.length_cons]
      simp only [cond_false]
      omega
    · next hstops =>
      have hline : Text.strip line = "exit" := hends.mp (by simpa using hstops)
      refine ⟨by simpa using hfault, ?_⟩
      rw [List.findIdx_cons, hline]
      simp

/-- What a session does with any line and any query, whatever has been converted before. No line breaks it
off, and `exit` alone ends it; an answer has a value to show or a refusal to explain; and a text that has a
value, unless it names a unit, is answered with that value. -/
theorem session_answers (calls : List Call) :
    (∀ line, (readLine (c.after calls) line).1.fault? = none ∧
      ((readLine (c.after calls) line).1.goesOn = false ↔ Text.strip line = "exit") ∧
      ∃ more, (readLine (c.after calls) line).2 = c.after (calls ++ more)) ∧
    (∀ query, (ask (c.after calls) query).1.Settled) ∧
    ∀ query x, Formula.evaluate query Formula.Bindings.none = .ok x → namedUnit? c.table query = none →
      (ask (c.after calls) query).1 = .shown (valueText x) := by
  refine ⟨readLine_after hb calls, settled_after hb calls, fun query x hx hnone => ?_⟩
  rw [← Converter.table_after c calls] at hnone
  exact (answer_of_evaluate hx hnone (asks _ query)).1

end

/-- The number that is written with a letter is a word, and yet no unknown one. -/
theorem session_answers_pi : ∃ c, Builder.scales.build = .ok c ∧ ∀ calls,
    (readLine (c.after calls) " exit ").1.goesOn = false ∧
    (∀ line, (readLine (c.after calls) line).1.fault? = none) ∧
    isWord "π" = true ∧ (ask (c.after calls) "π").1 = .shown "3.141592653589793" := by
  have htable : (namedUnit? Builder.scalesConverter.table "π").isSome = false := by decide +kernel
  have hword : isWord "π" = true := by decide +kernel
  have hvalue : Formula.evaluate "π" Formula.Bindings.none = .ok Formula.pi := by decide +kernel
  have htext : valueText Formula.pi = "3.141592653589793" := by decide +kernel
  refine ⟨Builder.scalesConverter, Builder.build_scales, fun calls => ?_⟩
  obtain ⟨hlines, -, hformulas⟩ := session_answers Builder.build_scales calls
  refine ⟨(hlines " exit ").2.1.mpr rfl, fun line => (hlines line).1, hword, ?_⟩
  rw [hformulas "π" Formula.pi hvalue (by simpa using htable), htext]

end Metrology.Session
