import Metrology.Program.Basic
import Metrology.Proofs.CommandLine.Dashes
import Metrology.Proofs.Formula.Spelling
import Metrology.Proofs.Session.Routing

/-! # One query as an argument

A text that a session answers with success never shows a switch: after its dashes there stands no name, and
every switch is one. So as the only argument of a run it either becomes the query and is answered as in the
session, or it is held against the switches in vain, which happens to every text that starts with a dash, has
no space in it and is no plain number.
-/
namespace Metrology

namespace Formula

open CommandLine

variable {prev : Option Token} {rest : List Char} {ts : List Token}

theorem keyword?_of_scans {c : Char} (hc : isIdentifierChar c = true) (h : Scans prev (c :: rest) ts)
    (hunit : ∀ name, .unit name ∉ ts) : keyword? (String.ofList (c :: rest.takeWhile isIdentifierChar)) ≠ none := by
  intro hnone
  obtain ⟨l, after, ts', hlexeme, -, rfl⟩ := h.exists_lexeme
  rw [lexeme_of_isIdentifierChar hc, readIdentifier, hnone] at hlexeme
  cases hlexeme
  exact hunit _ List.mem_cons_self

theorem scans_of_dash (h : Scans prev ('-' :: rest) ts) (harrow : .operator .convert ∉ ts) :
    ∃ op ts', Scans (some (.operator op)) rest ts' ∧ ts = .operator op :: ts' := by
  obtain ⟨op, hop⟩ := exists_signOperator? prev (c := '-') (by simp [signs])
  obtain ⟨l, after, ts', hlexeme, hrest, rfl⟩ := h.exists_lexeme
  by_cases hhead : rest.head? = some '>'
  · obtain ⟨more, rfl⟩ := List.head?_eq_some_iff.mp hhead
    rw [lexeme_arrow] at hlexeme
    cases hlexeme
    exact absurd List.mem_cons_self harrow
  · rw [lexeme_of_signOperator? hop fun hboth => hhead hboth.2] at hlexeme
    cases hlexeme
    exact ⟨op, ts', hrest, rfl⟩

theorem takeWhile_nameOf (rest : List Char) :
    rest.takeWhile isIdentifierChar = (nameOf rest).takeWhile isIdentifierChar := by
  have hhead := Text.head?_dropWhile (fun c => c != '=') rest
  have hstop : (rest.dropWhile fun c => c != '=').takeWhile isIdentifierChar = [] := by
    cases hdrop : rest.dropWhile fun c => c != '=' with
    | nil => rfl
    | cons c more =>
      rw [hdrop] at hhead
      obtain rfl : c = '=' := by simpa using hhead c rfl
      have hequals : isIdentifierChar '=' = false := by decide +kernel
      rw [List.takeWhile_cons, hequals, if_neg Bool.false_ne_true]
  conv_lhs => rw [← List.takeWhile_append_dropWhile (p := fun c => c != '=') (l := rest), List.takeWhile_append, hstop]
  split
  · next hlength =>
    rw [List.append_nil]
    exact ((List.takeWhile_prefix _).eq_of_length hlength).symm
  · rfl

/-- The front of a switch begins with a name, and with no keyword. -/
theorem not_shortens_of_scans (h : Scans prev rest ts) (hunit : ∀ name, .unit name ∉ ts) (s : Switch) :
    ¬ Shortens rest s := by
  rintro ⟨hne, hprefix⟩
  have hfronts : (switches.all fun s => s.word.inits.all fun front => front.isEmpty ||
      (front.head?.all isIdentifierChar &&
          (keyword? (String.ofList (front.takeWhile isIdentifierChar))).isNone)) = true := by
    decide +kernel
  have hfront :=
    List.all_eq_true.mp (List.all_eq_true.mp hfronts s s.mem_switches) _ (List.mem_inits _ _ |>.mpr hprefix)
  cases rest with
  | nil => exact hne rfl
  | cons c more =>
    have hc : c ≠ '=' := by
      rintro rfl
      exact hne rfl
    have hname : nameOf (c :: more) = c :: nameOf more := by simp [nameOf, hc]
    rw [← takeWhile_nameOf, hname] at hfront
    simp only [List.isEmpty_cons, Bool.false_or, List.head?_cons, Option.all_some, Bool.and_eq_true,
      Option.isNone_iff_eq_none] at hfront
    obtain ⟨hid, hnone⟩ := hfront
    rw [List.takeWhile_cons, if_pos hid] at hnone
    exact keyword?_of_scans hid h hunit hnone

theorem keyword?_help (more : List Char) : keyword? (String.ofList ('h' :: more)) = none := by
  rw [keyword?_eq_none_iff]
  have hlower : (Text.lower (String.ofList ('h' :: more))).toList.head? = some 'h' := by
    simp only [Text.lower, String.toList_ofList]
    rfl
  intro hmem
  have hheads : (keywords.all fun word => word.toList.head? != some 'h') = true := by decide
  have hhead := List.all_eq_true.mp hheads _ hmem
  rw [hlower] at hhead
  cases hhead

theorem plain_of_scans (h : Scans prev ('-' :: rest) ts) (hclosed : Closed ts) (hne : rest ≠ [])
    (hdash : rest ≠ ['-']) :
    Plain rest := by
  obtain ⟨op, ts', hrest, rfl⟩ := scans_of_dash h hclosed.arrow
  have hunit : ∀ name, .unit name ∉ ts' := fun name hname => hclosed.unit name (List.mem_cons_of_mem _ hname)
  refine ⟨hne, ?_, ?_⟩
  · intro hhead
    obtain ⟨more, rfl⟩ := List.head?_eq_some_iff.mp hhead
    exact keyword?_of_scans (by decide +kernel) hrest hunit (keyword?_help _)
  · rintro more rfl
    obtain ⟨op', ts'', hmore, rfl⟩ := scans_of_dash hrest fun harrow => hclosed.arrow (List.mem_cons_of_mem _ harrow)
    refine ⟨fun hnil => hdash (by rw [hnil]), not_shortens_of_scans hmore fun name hname => ?_⟩
    exact hunit name (List.mem_cons_of_mem _ hname)

end Formula

namespace Session

open CommandLine

variable {c : Converter} {rest : List Char} {text : String}

/-- A number with a minus has a digit or its point behind it. -/
theorem plain_of_readFront? {n : Decimal.Numeral} {after : List Char}
    (h : Decimal.Numeral.readFront? ('-' :: rest) = some (n, after)) : Plain rest := by
  cases rest with
  | nil => cases h
  | cons d more =>
    have hfront : (Text.digitValue? d).isSome = true ∨ d = '.' := by
      by_cases hdot : d = '.'
      · exact Or.inr hdot
      · left
        cases hd : Text.digitValue? d with
        | some v => rfl
        | none =>
          simp [Decimal.Numeral.readFront?, Decimal.readSign, Decimal.digitRun, Decimal.readFraction, hd, hdot] at h
    have hhelp : ¬ ((Text.digitValue? 'h').isSome = true ∨ 'h' = '.') := by decide +kernel
    have hdash : ¬ ((Text.digitValue? '-').isSome = true ∨ '-' = '.') := by decide +kernel
    refine ⟨by simp, ?_, ?_⟩
    · rintro ⟨⟩
      exact hhelp hfront
    · rintro more' ⟨⟩
      exact absurd hfront hdash

theorem plain_of_evaluate {query : String} {x : Float} (h : Formula.evaluate query Formula.Bindings.none = .ok x)
    (hquery : query.toList = '-' :: rest) : Plain rest := by
  obtain ⟨ts, hts, hclosed⟩ := Formula.closed_of_evaluate h
  rw [hquery] at hts
  obtain rfl : query = String.ofList ('-' :: rest) := by rw [← hquery, String.ofList_toList]
  -- A dash without an operand, and two of them, have no value.
  have hdash : (Formula.evaluate "-" Formula.Bindings.none).toOption = none := by decide +kernel
  have hdashes : (Formula.evaluate "--" Formula.Bindings.none).toOption = none := by decide +kernel
  refine Formula.plain_of_scans (Formula.tokenize_eq_ok.mp hts) hclosed ?_ ?_
  · rintro rfl
    cases (congrArg Except.toOption h).symm.trans hdash
  · rintro rfl
    cases (congrArg Except.toOption h).symm.trans hdashes

theorem plain_of_request {query : String} {r : Request} (h : Request.read? query = some r)
    (hquery : query.toList = '-' :: rest) : Plain rest := by
  unfold Request.read? Request.readChars? at h
  simp only [Option.bind_eq_bind, Option.bind_eq_some_iff] at h
  obtain ⟨⟨amount, after⟩, hamount, -⟩ := h
  rw [hquery] at hamount
  exact plain_of_readFront? hamount

theorem ofEvalError_ne_shown (e : Formula.EvalError) : Answer.ofEvalError e ≠ .shown text := by
  cases e <;> simp [Answer.ofEvalError]

theorem exists_value {query : String} (h : evaluate query = .shown text) :
    ∃ x, Formula.evaluate query Formula.Bindings.none = .ok x := by
  unfold evaluate at h
  cases hvalue : Formula.evaluate query Formula.Bindings.none with
  | ok x => exact ⟨x, rfl⟩
  | error e =>
    rw [hvalue] at h
    cases e with
    | parse e => cases h
    | eval e => exact absurd h (ofEvalError_ne_shown e)

/-- A query that begins with a dash and is answered is a request for a converted number or a formula with a
value. -/
theorem plain_of_ask {query : String} (h : (ask c query).1 = .shown text) (hquery : query.toList = '-' :: rest) :
    Plain rest := by
  have hasks := asks c query
  generalize (ask c query).1 = a, (ask c query).2 = c' at h hasks
  cases hasks with
  | named hu =>
    have hletter : Text.isLetter '-' = false := by decide +kernel
    simp [namedUnit?, isWord, hquery, hletter] at hu
  | unreadable => cases h
  | unknownWord => cases h
  | @failed e =>
    cases e with
    | formula e => exact absurd h (ofEvalError_ne_shown e)
    | _ => cases h
  | converted hrequest =>
    obtain ⟨r, hr⟩ := Option.isSome_iff_exists.mp hrequest
    exact plain_of_request hr hquery
  | formula =>
    obtain ⟨x, hx⟩ := exists_value h
    exact plain_of_evaluate hx hquery

theorem shown_of_output {r : Reply} (h : r.output ≠ "") : ∃ text, r = .answer (.shown text) := by
  cases r with
  | answer a =>
    cases a with
    | shown text => exact ⟨text, rfl⟩
    | _ => exact absurd rfl h
  | _ => exact absurd rfl h

/-- A line with something to show is a command or a query that is answered. -/
theorem readLine_eq_shown {line : String} (h : (readLine c line).1 = .answer (.shown text)) :
    (∃ command, command? (Text.strip line) = some command ∧ obey c command = .answer (.shown text)) ∨
      (command? (Text.strip line) = none ∧ (ask c (Text.strip line)).1 = .shown text) := by
  have htakes := takes c line
  generalize (readLine c line).1 = r, (readLine c line).2 = c' at h htakes
  cases htakes with
  | blank => cases h
  | obeyed hcommand => exact Or.inl ⟨_, hcommand, h⟩
  | asked hnone => exact Or.inr ⟨hnone, Reply.answer.inj h⟩

theorem command?_of_dash {text : String} (h : text.toList.head? = some '-') : command? text = none := by
  unfold command?
  split
  · cases h
  · cases h
  · cases h
  · rfl

/-- A line with something to show has no switch behind its dash. -/
theorem plain_of_readLine {line : String} (h : (readLine c line).1 = .answer (.shown text))
    (hline : line.toList = '-' :: rest) : Plain rest := by
  -- Nothing is stripped before a dash, so what is stripped off the line is text behind a query without a
  -- switch.
  have hleft : Text.stripChars ('-' :: rest) = Text.stripRight ('-' :: rest) := rfl
  have hprefix := Text.stripRight_front ('-' :: rest)
  have hstrip : (Text.strip line).toList = Text.stripRight ('-' :: rest) := by
    rw [Text.strip, String.toList_ofList, hline, hleft]
  cases hfront : Text.stripRight ('-' :: rest) with
  | nil =>
    have hempty : Text.strip line = "" := by rw [← String.toList_eq_nil_iff, hstrip, hfront]
    simp [readLine, hempty] at h
  | cons d front =>
    rw [hfront, List.cons_prefix_cons] at hprefix
    obtain ⟨rfl, tail, rfl⟩ := hprefix
    rw [hfront] at hstrip
    rcases readLine_eq_shown h with ⟨command, hcommand, -⟩ | ⟨-, hshown⟩
    · rw [command?_of_dash (by rw [hstrip]; rfl)] at hcommand
      cases hcommand
    · exact (plain_of_ask hshown hstrip).append tail

end Session

namespace Program

open CommandLine

variable {query : String} {environment : List (String × String)} {folder : Folder} {input : String}
  {p : Plan} {c : Converter}

/-- The query has no part in the settings. -/
theorem prepare_single (hread : readArguments [query] = .ok { Arguments.empty with query := [query] })
    (hp : prepare [] environment = .ok p) : prepare [query] environment = .ok ⟨p.settings, [query]⟩ := by
  have hempty : readArguments [] = .ok Arguments.empty := rfl
  have hsupplied : suppliedBy { Arguments.empty with query := [query] } = suppliedBy Arguments.empty := by
    funext source
    cases source <;> rfl
  unfold prepare at hp ⊢
  rw [hempty] at hp
  rw [hread]
  dsimp only at hp ⊢
  rw [hsupplied]
  split at hp
  · cases hp
  · cases hp
    rfl

theorem answerOnce_of_readLine {text : String} (h : (Session.readLine c query).1 = .answer (.shown text)) :
    answerOnce c (Text.strip query) = .ok ⟨.finished 0, text ++ "\n", ""⟩ := by
  have hreplies : ofReplies 0 [.answer (.shown text)] = .ok ⟨.finished 0, text ++ "\n", ""⟩ := by
    simp [ofReplies, Session.Reply.fault?, Session.Reply.output, Session.Reply.errors, Session.Answer.output,
      Session.Answer.errors, String.join]
  unfold answerOnce
  rcases Session.readLine_eq_shown h with ⟨command, hcommand, hobey⟩ | ⟨hcommand, hask⟩
  · simp only [hcommand, hobey, hreplies]
  · simp only [hcommand, hask, Session.Answer.succeeded, if_true, hreplies]

/-- A text with something to show in a session, as the only argument of a run: it is shown by the run, which
ends well, unless its dash has it taken for a switch. -/
theorem run_single (hp : prepare [] environment = .ok p) (hc : p.buildConverter folder.read = .ok c)
    (hshows : (Session.readLine c query).1.output ≠ "") : run [query] environment folder input =
      if mistaken query.toList then .ok (stopped (.usage (mistake query)))
      else .ok ⟨.finished 0, (Session.readLine c query).1.output, ""⟩ := by
  obtain ⟨text, htext⟩ := Session.shown_of_output hshows
  have hread := readArguments_single fun rest hrest => Session.plain_of_readLine htext hrest
  by_cases hmistaken : mistaken query.toList = true
  · rw [if_pos hmistaken] at hread ⊢
    simp only [run, prepare, hread]
  · rw [if_neg hmistaken] at hread ⊢
    have hbuild : (⟨p.settings, [query]⟩ : Plan).buildConverter folder.read = .ok c := hc
    simp only [run, prepare_single hread hp, Plan.carryOut, hbuild]
    rw [htext]
    exact answerOnce_of_readLine htext

def plainPlan : Plan := ⟨⟨none, ⟨true, true, true⟩, .warning⟩, []⟩

def standardConverter : Converter := (Catalog.standard.builder ⟨true, true, true⟩ channel).assembled

theorem buildConverter_plainPlan (fetch : String → Except Obstacle String) :
    plainPlan.buildConverter fetch = .ok standardConverter := by
  have htame : (Catalog.standard.builder ⟨true, true, true⟩ channel).definitions.all
      (Catalog.standard.builder ⟨true, true, true⟩ channel).isTame = true := by decide +kernel
  have hbuild := Builder.build_of_isTame htame
  simp only [Plan.buildConverter, plainPlan, Plan.build, hbuild]
  rfl

/-- A sum that begins with a minus: its spaces make it a query, and it is answered as in a session. -/
theorem run_single_sum : ∃ p c, prepare [] [] = .ok p ∧ p.buildConverter (Folder.read []) = .ok c ∧
    (Session.readLine c "-5 + 3").1.output = "-2.0\n" ∧
    run ["-5 + 3"] [] [] "" = .ok ⟨.finished 0, (Session.readLine c "-5 + 3").1.output, ""⟩ := by
  have hshown : (Session.readLine standardConverter "-5 + 3").1.output = "-2.0\n" := by decide +kernel
  have hmistaken : mistaken "-5 + 3".toList = false := by decide +kernel
  have hp : prepare [] [] = .ok plainPlan := rfl
  refine ⟨plainPlan, standardConverter, hp, buildConverter_plainPlan _, hshown, ?_⟩
  rw [run_single hp (buildConverter_plainPlan _) (by rw [hshown]; decide), hmistaken]
  rfl

/-- The same without a space: the session has a value for the text, and the run takes it for a switch. -/
theorem run_single_refused : ∃ p c, prepare [] [] = .ok p ∧ p.buildConverter (Folder.read []) = .ok c ∧
    (Session.readLine c "-max(5.3,3)").1.output = "-5.3\n" ∧ (Session.readLine c "-max(5.3,3)").1.errors = "" ∧
    run ["-max(5.3,3)"] [] [] "" = .ok (stopped (.usage (.unrecognized ["-max(5.3,3)"]))) := by
  have hread : readArguments ["-max(5.3,3)"] = .error (.usage (.unrecognized ["-max(5.3,3)"])) := by decide +kernel
  exact ⟨plainPlan, standardConverter, rfl, buildConverter_plainPlan _, by decide +kernel, by decide +kernel,
    by simp only [run, prepare, hread]⟩

end Program

end Metrology
