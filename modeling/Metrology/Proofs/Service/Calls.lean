import Metrology.Proofs.Converter.Words
import Metrology.Proofs.Formula.Names
import Metrology.Proofs.Service.Payload
import Metrology.Service.Basic

/-! # Calls of the service

A call computes a payload or is refused. `Computes` and `Refuses` list the ways in which each happens; there
are no others, since a formula that has been read fails at names only and the formulas of the graphs have all
their names bound. Only a conversion that succeeds changes the state, and it changes the converter as the same
conversion does outside the service.
-/
namespace Metrology.Service

variable {s : State} {call : Call}

def conversionData (category source target : String) (o : Outcome) : Payload :=
  .record [("ok", .flag true), ("value", .number o.value), ("from_unit", .text source), ("to_unit", .text target),
    ("category", .text category), ("steps", .list (o.trace.map .ofStep))]

def unitData (c : Converter) (u : UnitEntry) : Payload :=
  .record [("unit", .text u.unit), ("abbrev", .text u.symbol), ("category", .text u.category),
    ("abbreviations", .texts (c.table.abbreviationsFor u.unit u.category))]

def valueData (f : Formula) (x : Float) : Payload :=
  .record [("ok", .flag true), ("expression", .text f.text), ("value", .number x), ("variables", .texts f.vars)]

inductive Computes (s : State) : Call → Payload → State → Prop
  | health : Computes s .health (.record [("ok", .flag true)]) s
  | units : Computes s .units (units s) s
  | unit {name : String} {u : UnitEntry} (hu : s.converter.unitInfo name = .ok u) :
      Computes s (.unit name) (unitData s.converter u) s
  | evaluate {expression : String} {bind : Formula.Bindings} {f : Formula} {x : Float}
      (hf : Formula.read expression = .ok f)
      (hx : f.value bind = .ok x) : Computes s (.evaluate expression bind) (valueData f x) s
  | words {query : String} {category source target : Option String} {value : Option Float} {r : RequestOutcome}
      (hr : s.converter.convertText query = .ok r) :
      Computes s (.convert ⟨some query, category, source, target, value⟩)
        (conversionData r.request.category r.request.source.unit r.request.target.unit r.outcome)
        { s with converter := r.outcome.converter }
  | between {category source target : String} {value : Float} {o : Outcome}
      (ho : s.converter.convert category source target value = .ok o) :
      Computes s (.convert ⟨none, some category, some source, some target, some value⟩)
        (conversionData category source target o)
        { s with converter := o.converter }

def status : ConversionError → Nat
  | .unknownUnit _ | .notInCategory _ _ | .unknownCategory _ => 404
  | _ => 400

inductive Refuses (s : State) : Call → Nat → String → Prop
  | unit {name : String} {e : ConversionError} (he : s.converter.unitInfo name = .error e) :
      Refuses s (.unit name) 404 e.message
  | unreadable {expression : String} {bind : Formula.Bindings} {e : Formula.ParseError}
      (he : Formula.read expression = .error e) :
      Refuses s (.evaluate expression bind) 400 e.message
  | unbound {expression : String} {bind : Formula.Bindings} {f : Formula} {name : String}
      (hf : Formula.read expression = .ok f) (hname : name ∈ f.tree.names) (hnone : bind name = none) :
      Refuses s (.evaluate expression bind) 400 (Formula.EvalError.unbound name).message
  | words {query : String} {category source target : Option String} {value : Option Float} {e : ConversionError}
      (he : s.converter.convertText query = .error e) :
      Refuses s (.convert ⟨some query, category, source, target, value⟩) (status e) e.message
  | between {category source target : String} {value : Float} {e : ConversionError}
      (he : s.converter.convert category source target value = .error e) :
      Refuses s (.convert ⟨none, some category, some source, some target, some value⟩) (status e) e.message
  | missing {c : ConversionCall} (hquery : c.query = none) (hfields : missingFields c ≠ []) :
      Refuses s (.convert c) 400 ("Missing field(s): " ++ ", ".intercalate (missingFields c))

/-- The reply to a call with the state after it: what has been computed is sent, and a refusal leaves
everything as it was. -/
inductive Serves (s : State) (call : Call) : Reply → State → Prop
  | answered {raw p : Payload} {s' : State} (hraw : Computes s call raw s') (hsends : raw.Sends p) :
      Serves s call (.body p) s'
  | refused {status : Nat} {reason : String} (h : Refuses s call status reason) :
      Serves s call (.refused status reason) s

theorem Refuses.status_eq {status : Nat} {reason : String} (h : Refuses s call status reason) :
    status = 400 ∨ status = 404 := by
  have hstatus (e : ConversionError) : Service.status e = 400 ∨ Service.status e = 404 := by
    cases e <;> simp [Service.status]
  cases h with
  | unit => exact .inr rfl
  | unreadable => exact .inl rfl
  | unbound => exact .inl rfl
  | words => exact hstatus _
  | between => exact hstatus _
  | missing => exact .inl rfl

theorem Computes.state_eq {raw : Payload} {s' : State} (h : Computes s call raw s')
    (hcall : ∀ c, call ≠ .convert c) : s' = s := by
  cases h with
  | words => exact absurd rfl (hcall _)
  | between => exact absurd rfl (hcall _)
  | _ => rfl

theorem refusal_eq {e : ConversionError} (h : ∀ e', e ≠ .formula e') : refusal e = .refused (status e) e.message := by
  cases e with
  | formula e' => exact absurd rfl (h e')
  | _ => rfl

theorem finite_units (s : State) : (units s).Finite := by
  apply Payload.finite_record
  simp only [List.forall_mem_cons, List.not_mem_nil, IsEmpty.forall_iff, implies_true, and_true]
  refine ⟨Payload.finite_texts _, Payload.finite_count _, Payload.finite_list ?_⟩
  intro p hp
  obtain ⟨r, -, rfl⟩ := List.mem_map.mp hp
  exact Payload.finite_ofRow r

theorem serves_unit (s : State) (name : String) : Serves s (.unit name) (unit s.converter name) s := by
  unfold unit
  cases h : s.converter.unitInfo name with
  | error e => exact .refused (.unit h)
  | ok u =>
    refine .answered (.unit h) (Payload.Finite.sends_self (Payload.finite_record ?_))
    simp [Payload.finite_text, Payload.finite_texts]

/-- A formula that has been read fails at a name that is not bound and nowhere else, so evaluating it comes to
no fault. -/
theorem serves_evaluate (s : State) (expression : String) (bind : Formula.Bindings) :
    Serves s (.evaluate expression bind) (evaluate expression bind) s := by
  unfold evaluate
  cases hf : Formula.read expression with
  | error e => exact .refused (.unreadable hf)
  | ok f =>
    dsimp only
    cases hx : f.value bind with
    | error e =>
      obtain ⟨name, hname, hnone, rfl⟩ := (Formula.over_of_read hf).eval_eq_error hx
      exact .refused (.unbound hf hname hnone)
    | ok x =>
      refine .answered (.evaluate hf hx) (.record rfl ?_)
      have htexts := (Payload.finite_texts f.vars).sends_self
      exact .cons (.flag true) (.cons (.text f.text) (.cons (Payload.sends_ofFloat x) (.cons htexts .nil)))

theorem sends_conversionBody (category source target : String) (o : Outcome) :
    (conversionData category source target o).Sends (conversionBody category source target o) := Payload.sends_safe _

theorem serves_words (h : s.converter.Ready) (query : String) (category source target : Option String)
    (value : Option Float) :
    Serves s (.convert ⟨some query, category, source, target, value⟩) (convertText s.converter query).1
      { s with converter := (convertText s.converter query).2 } := by
  unfold convertText
  cases hr : s.converter.convertText query with
  | error e =>
    have hfront := (h.convertText_eq_error_iff.mp hr).front
    dsimp only
    rw [refusal_eq hfront.2.2]
    exact .refused (.words hr)
  | ok r => exact .answered (.words hr) (sends_conversionBody _ _ _ _)

theorem serves_between (h : s.converter.Ready) (category source target : String) (value : Float) :
    Serves s (.convert ⟨none, some category, some source, some target, some value⟩)
      (convertBetween s.converter category source target value).1
      { s with converter := (convertBetween s.converter category source target value).2 } := by
  unfold convertBetween
  cases ho : s.converter.convert category source target value with
  | error e =>
    have hrefusal := (Converter.convert_eq_error_iff (k := ⟨category, source, target, value⟩) h.coherent h.total).mp ho
    have hformula : ∀ e', e ≠ .formula e' := by
      intro e'
      generalize s.converter.graph? category = found at hrefusal
      cases hrefusal <;> simp
    dsimp only
    rw [refusal_eq hformula]
    exact .refused (.between ho)
  | ok o => exact .answered (.between ho) (sends_conversionBody _ _ _ _)

theorem missingFields_eq_nil {c : ConversionCall} (hquery : c.query = none) (h : missingFields c = []) :
    ∃ category source target value, c = ⟨none, some category, some source, some target, some value⟩ := by
  have given {α : Type} {name : String} {field : Option α} (hfield : missingField name field = []) : ∃ x,
      field = some x := by
    cases field with
    | none => cases hfield
    | some x => exact ⟨x, rfl⟩
  obtain ⟨query, category, source, target, value⟩ := c
  obtain rfl : query = none := hquery
  simp only [missingFields, List.append_eq_nil_iff] at h
  obtain ⟨⟨⟨hcategory, hsource⟩, htarget⟩, hvalue⟩ := h
  obtain ⟨category, rfl⟩ := given hcategory
  obtain ⟨source, rfl⟩ := given hsource
  obtain ⟨target, rfl⟩ := given htarget
  obtain ⟨value, rfl⟩ := given hvalue
  exact ⟨category, source, target, value, rfl⟩

theorem serves_convert (h : s.converter.Ready) (c : ConversionCall) :
    Serves s (.convert c) (convert s.converter c).1 { s with converter := (convert s.converter c).2 } := by
  unfold convert
  split
  · next query category source target value => exact serves_words h query category source target value
  · next category source target value => exact serves_between h category source target value
  · next hwords hbetween =>
    have hquery : c.query = none := by
      cases hq : c.query with
      | none => rfl
      | some query => exact (hwords query c.category c.source c.target c.value (by rw [← hq])).elim
    refine .refused (.missing hquery ?_)
    intro hfields
    obtain ⟨category, source, target, value, rfl⟩ := missingFields_eq_nil hquery hfields
    exact hbetween category source target value rfl

theorem serves_answer (h : s.converter.Ready) (call : Call) : Serves s call (answer s call).1 (answer s call).2 := by
  cases call with
  | health =>
    exact .answered .health (Payload.Finite.sends_self (Payload.finite_record (by simp [Payload.finite_flag])))
  | units => exact .answered .units (finite_units s).sends_self
  | unit name => exact serves_unit s name
  | evaluate expression bind => exact serves_evaluate s expression bind
  | convert c => exact serves_convert h c

theorem Serves.body_or_refused {reply : Reply} {s' : State} (h : Serves s call reply s') :
    (∃ p, reply = .body p ∧ p.Finite) ∨ ∃ reason, reply = .refused 400 reason ∨ reply = .refused 404 reason := by
  cases h with
  | answered _ hsends => exact .inl ⟨_, rfl, hsends.finite⟩
  | refused hrefuses =>
    right
    rcases hrefuses.status_eq with rfl | rfl
    · exact ⟨_, .inl rfl⟩
    · exact ⟨_, .inr rfl⟩

theorem Serves.state_eq {reply : Reply} {s' : State} (h : Serves s call reply s')
    (hkept : (∀ p, reply ≠ .body p) ∨ ∀ conversion, call ≠ .convert conversion) : s' = s := by
  cases h with
  | refused => rfl
  | answered hraw =>
    rcases hkept with hbody | hcall
    · exact absurd rfl (hbody _)
    · exact hraw.state_eq hcall

def after (s : State) (calls : List Call) : State := calls.foldl (fun s call => (answer s call).2) s

theorem answers_append (s : State) (before : List Call) (call : Call) :
    answers s (before ++ [call]) = answers s before ++ [(answer (after s before) call).1] := by
  induction before generalizing s with
  | nil => rfl
  | cons first rest ih => exact congrArg ((answer s first).1 :: ·) (ih (answer s first).2)

theorem Serves.exists_asked {reply : Reply} {s' : State} (h : Serves s call reply s') :
    ∃ asked, s' = { s with converter := s.converter.serveAll asked } := by
  cases h with
  | refused => exact ⟨[], rfl⟩
  | answered hraw =>
    cases hraw with
    | @words query _ _ _ _ r hr =>
      refine ⟨[.words query], ?_⟩
      simp only [Converter.serveAll, List.foldl_cons, List.foldl_nil, Converter.serve, hr]
    | @between category source target value o ho =>
      refine ⟨[.between ⟨category, source, target, value⟩], ?_⟩
      simp only [Converter.serveAll, List.foldl_cons, List.foldl_nil, Converter.serve, Converter.next, ho]
    | _ => exact ⟨[], rfl⟩

/-- Calls do to the converter what conversions outside the service do, and nothing to the catalog. -/
theorem exists_asked (h : s.converter.Ready) (calls : List Call) :
    ∃ asked, after s calls = { s with converter := s.converter.serveAll asked } := by
  induction calls generalizing s with
  | nil => exact ⟨[], rfl⟩
  | cons call rest ih =>
    obtain ⟨asked, hasked⟩ := (serves_answer h call).exists_asked
    have hnext : (answer s call).2.converter.Ready := by
      rw [hasked]
      exact (h.serveAll asked).1
    obtain ⟨later, hlater⟩ := ih hnext
    refine ⟨asked ++ later, ?_⟩
    change after (answer s call).2 rest = _
    rw [hlater, hasked, Converter.serveAll, Converter.serveAll, Converter.serveAll, List.foldl_append]

/-- After any calls every call is answered with a body or refused with one of two statuses. A refusal, and
every call other than a conversion, leaves the state as it was. A body is what has been computed, but for the
texts of its numbers that are not finite. -/
theorem service_safe {catalog : Catalog} {policy : Policy} {channel : String} {c : Converter}
    (hb : (catalog.builder policy channel).build = .ok c) (before : List Call) (call : Call) :
    ∃ s reply s', after ⟨catalog, c⟩ before = s ∧ answer s call = (reply, s') ∧
      answers ⟨catalog, c⟩ (before ++ [call]) = answers ⟨catalog, c⟩ before ++ [reply] ∧
      (∃ asked, s = ⟨catalog, c.serveAll asked⟩) ∧
      Serves s call reply s' ∧
      ((∃ p, reply = .body p ∧ p.Finite) ∨ ∃ reason, reply = .refused 400 reason ∨ reply = .refused 404 reason) ∧
      ((∀ p, reply ≠ .body p) ∨ (∀ conversion, call ≠ .convert conversion) → s' = s) := by
  have hready := Converter.ready_build hb
  obtain ⟨asked, hasked⟩ := exists_asked (s := ⟨catalog, c⟩) hready before
  have hlater : (after ⟨catalog, c⟩ before).converter.Ready := by
    rw [hasked]
    exact (hready.serveAll asked).1
  have hserves := serves_answer hlater call
  exact ⟨_, _, _, rfl, rfl, answers_append _ _ _, ⟨asked, hasked⟩, hserves, hserves.body_or_refused, hserves.state_eq⟩

/-- Three lengths, and factors that lead beyond the largest double. -/
def lengths : Catalog where
  units := [⟨"Kilometer", "km", "Length"⟩, ⟨"Meter", "m", "Length"⟩, ⟨"Millimeter", "mm", "Length"⟩]
  definitions := [⟨"Length", "Kilometer", "Meter", .factor 1000⟩, ⟨"Length", "Meter", "Millimeter", .factor 1000⟩]

def Reply.textOf? (name : String) : Reply → Option String
  | .body (.record fields) =>
    match fields.lookup name with
    | some (.text s) => some s
    | _ => none
  | _ => none

/-- A refusal and a value that is infinite come before a conversion that is, too. -/
theorem service_safe_overflow : ∃ c s reply s', (lengths.builder ⟨true, true, true⟩ converterChannel).build = .ok c ∧
    after ⟨lengths, c⟩ [.unit "furlong", .evaluate "1 / 0" Formula.Bindings.none] = s ∧
    answer s (.convert ⟨some "1e308 km -> mm", none, none, none, none⟩) = (reply, s') ∧
    reply.textOf? "value" = some "inf" ∧ ∃ p, reply = .body p ∧ p.Finite := by
  have hvalue : ((lengths.builder ⟨true, true, true⟩ converterChannel).build.toOption.map fun c =>
      (answer (after ⟨lengths, c⟩ [.unit "furlong", .evaluate "1 / 0" Formula.Bindings.none])
        (.convert ⟨some "1e308 km -> mm", none, none, none, none⟩)).1.textOf? "value") =
          some (some "inf") := by decide +kernel
  obtain ⟨c, hb, hvalue⟩ := Option.map_eq_some_iff.mp hvalue
  have hb := Builder.toOption_eq_some.mp hb
  obtain ⟨s, reply, s', hs, hreply, -, -, -, hends, -⟩ := service_safe hb
    [.unit "furlong", .evaluate "1 / 0" Formula.Bindings.none]
      (.convert ⟨some "1e308 km -> mm", none, none, none, none⟩)
  rw [hs, hreply] at hvalue
  refine ⟨c, s, reply, s', hb, hs, hreply, hvalue, ?_⟩
  rcases hends with hbody | ⟨reason, rfl | rfl⟩
  · exact hbody
  · cases hvalue
  · cases hvalue

end Metrology.Service
