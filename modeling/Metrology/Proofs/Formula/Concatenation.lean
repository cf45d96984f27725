import Metrology.Proofs.Formula.Spelling

/-! # Scans of joined texts

A text that has been scanned leaves nothing to the text behind it but its last token, and of that the scan
only asks whether a minus has a left operand. So the tokens of two texts with a blank between them are those
of the one and those of the other, but for the first minus of the second; and a blank can be put wherever a
scan begins a lexeme.
-/
namespace Metrology.Formula

variable {prev prev' : Option Token} {c : Char} {cs rest after : List Char} {l : Lexeme} {ts : List Token}

/-- A token that has been read at the start of a text, as it is read behind another one: a minus with a left
operand subtracts. -/
def Token.behind (prev : Option Token) (t : Token) : Token :=
  if t = .operator .negate ∧ prev.all Token.opensOperand = false then .operator .sub else t

def Lexeme.behind (prev : Option Token) : Lexeme → Lexeme
  | .token t => .token (t.behind prev)
  | l => l

def behind (prev : Option Token) : List Token → List Token
  | [] => []
  | t :: rest => t.behind prev :: rest

def lastToken (prev : Option Token) (ts : List Token) : Option Token := ts.getLast?.or prev

theorem lastToken_lexeme (prev : Option Token) (l : Lexeme) (ts : List Token) :
    lastToken prev (l.tokens ++ ts) = lastToken (l.after prev) ts := by
  cases l with
  | token t =>
    change (t :: ts).getLast?.or prev = ts.getLast?.or (some t)
    rw [List.getLast?_cons]
    cases ts.getLast? <;> rfl
  | blank => rfl
  | unknown c => rfl

theorem Token.behind_of_ne {t : Token} (h : t ≠ .operator .negate) : t.behind prev = t := by
  simp [Token.behind, h]

theorem Token.opensOperand_behind (prev : Option Token) (t : Token) :
    (t.behind prev).opensOperand = t.opensOperand := by
  unfold Token.behind
  split
  · next h =>
    rw [h.1]
    rfl
  · rfl

theorem signOperator?_behind (prev : Option Token) (c : Char) :
    (signOperator? prev c).map Token.operator = (signOperator? none c).map fun op =>
        Token.behind prev (.operator op) := by
  unfold signOperator? Token.behind
  cases hopens : prev.all Token.opensOperand <;> grind

/-! ## One lexeme -/

theorem Reads.behind (h : Reads none c rest l after) (prev : Option Token) :
    Reads prev c rest (l.behind prev) after := by
  have hsame : ∀ {t : Token}, t ≠ .operator .negate → Reads prev c rest (.token t) after →
      Reads prev c rest (Lexeme.behind prev (.token t)) after := by
    intro t hne h
    rwa [Lexeme.behind, Token.behind_of_ne hne]
  cases h with
  | blank hc => exact .blank hc
  | leftParen hc => exact hsame nofun (.leftParen hc)
  | rightParen hc => exact hsame nofun (.rightParen hc)
  | comma hc => exact hsame nofun (.comma hc)
  | braced hc hrest hinside hname => exact hsame nofun (.braced hc hrest hinside hname)
  | arrow hc hrest => exact hsame nofun (.arrow hc hrest)
  | pi hc => exact hsame nofun (.pi hc)
  | sign hop harrow =>
    have hmap := signOperator?_behind prev c
    rw [hop, Option.map_some] at hmap
    obtain ⟨op, hop, heq⟩ := Option.map_eq_some_iff.mp hmap
    rw [Lexeme.behind, ← heq]
    exact .sign hop harrow
  | number hc hrest hmore hafter hn => exact hsame nofun (.number hc hrest hmore hafter hn)
  | @name hc more _ hrest hmore hafter =>
    refine hsame ?_ (.name hc hrest hmore hafter)
    cases hkeyword : keyword? (String.ofList (c :: more)) with
    | none => simp
    | some t =>
      rcases keyword?_eq_some hkeyword with rfl | ⟨f, rfl⟩
      · simp
      · simp
  | unknown hblank hletter hdigit hmark => exact .unknown hblank hletter hdigit hmark

theorem lexeme_of_not_sign (h : c ∉ signs) : lexeme prev c rest = lexeme prev' c rest := by
  unfold lexeme
  rw [signOperator?_eq_none h, signOperator?_eq_none h]

/-- What cannot be read cannot be read behind another token either, for the same reason. -/
theorem lexeme_eq_error {e : LexError} (h : lexeme none c rest = .error e) : lexeme prev c rest = .error e := by
  by_cases hsign : c ∈ signs
  · -- All signs can be read.
    by_cases harrow : c = '-' ∧ rest.head? = some '>'
    · obtain ⟨rfl, hhead⟩ := harrow
      obtain ⟨after, rfl⟩ := List.head?_eq_some_iff.mp hhead
      cases h
    · obtain ⟨op, hop⟩ := exists_signOperator? none hsign
      rw [lexeme_of_signOperator? hop harrow] at h
      cases h
  · rw [lexeme_of_not_sign hsign, h]

theorem lexeme_congr (h : prev.all Token.opensOperand = prev'.all Token.opensOperand) :
    lexeme prev c rest = lexeme prev' c rest := by
  have hsign : signOperator? prev c = signOperator? prev' c := by
    unfold signOperator?
    rw [h]
  unfold lexeme
  rw [hsign]

/-- A lexeme that ends before the end of a text is there without what stands behind it. -/
theorem Reads.front {text kept left more : List Char} (h : Reads prev c text l kept) (htext : text = rest ++ more)
    (hkept : kept = left ++ more) : Reads prev c rest l left := by
  have hcut : ∀ front, text = front ++ kept → rest = front ++ left := by
    intro front hsplit
    rw [htext, hkept, ← List.append_assoc] at hsplit
    exact List.append_cancel_right hsplit
  have hstop : ∀ {p : Char → Bool}, (∀ d ∈ kept.head?, p d = false) → ∀ d ∈ left.head?, p d = false := by
    intro p h d hd
    exact h d (by simp [hkept, List.head?_append, Option.mem_def.mp hd])
  cases h with
  | blank hc =>
    rw [hcut [] rfl]
    exact .blank hc
  | leftParen hc =>
    rw [hcut [] rfl]
    exact .leftParen hc
  | rightParen hc =>
    rw [hcut [] rfl]
    exact .rightParen hc
  | comma hc =>
    rw [hcut [] rfl]
    exact .comma hc
  | @braced hc inside _ hrest hinside hname =>
    have hfront := hcut (inside ++ ['}']) (by simpa using hrest)
    exact .braced hc (by simpa using hfront) hinside hname
  | arrow hc hrest => exact .arrow hc (hcut ['>'] hrest)
  | pi hc =>
    rw [hcut [] rfl]
    exact .pi hc
  | sign hop harrow =>
    rw [hcut [] rfl]
    refine .sign hop fun ⟨hc, hfirst⟩ => harrow ⟨hc, ?_⟩
    have hfirst : left.head? = some '>' := hfirst
    rw [hkept, List.head?_append, hfirst]
    rfl
  | number hc hrest hmore hafter hn => exact .number hc (hcut _ hrest) hmore (hstop hafter) hn
  | name hc hrest hmore hafter => exact .name hc (hcut _ hrest) hmore (hstop hafter)
  | unknown hblank hletter hdigit hmark =>
    rw [hcut [] rfl]
    exact .unknown hblank hletter hdigit hmark

/-! ## Texts -/

theorem scanFrom_congr (h : prev.all Token.opensOperand = prev'.all Token.opensOperand) :
    scanFrom prev cs = scanFrom prev' cs := by
  induction prev, cs using scanFrom_induction generalizing prev' with
  | done prev => rw [scanFrom_nil, scanFrom_nil]
  | failed he =>
    have he' := (lexeme_congr h).symm.trans he
    rw [scanFrom_of_error he, scanFrom_of_error he']
  | @read prev c rest l after hok ih =>
    have hok' := (lexeme_congr h).symm.trans hok
    have hafter : (l.after prev).all Token.opensOperand = (l.after prev').all Token.opensOperand := by
      cases l with
      | token t => rfl
      | blank => exact h
      | unknown d => exact h
    rw [scanFrom_of_ok hok, scanFrom_of_ok hok', ih hafter]

/-- Behind another token a text is scanned as at its start, but for a first minus. -/
theorem scanFrom_behind (prev : Option Token) (cs : List Char) :
    scanFrom prev cs = { scanFrom none cs with tokens := behind prev (scanFrom none cs).tokens } := by
  generalize hstart : (none : Option Token) = start
  induction start, cs using scanFrom_induction with
  | done start => simp [scanFrom_nil, behind]
  | failed he =>
    subst hstart
    rw [scanFrom_of_error he, scanFrom_of_error (lexeme_eq_error he)]
    rfl
  | @read start c rest l after hok ih =>
    subst hstart
    have hok' := lexeme_eq_ok.mpr ((lexeme_eq_ok.mp hok).behind prev)
    rw [scanFrom_of_ok hok, scanFrom_of_ok hok']
    cases l with
    | token t =>
      have hnext : scanFrom (some (t.behind prev)) after = scanFrom (some t) after := by
        apply scanFrom_congr
        simp [Token.opensOperand_behind]
      simp only [Lexeme.behind, Lexeme.after, hnext, Scan.push, behind]
    | blank => exact ih rfl
    | unknown d =>
      have hrest := ih rfl
      simp only [Lexeme.behind, Lexeme.after, hrest, Scan.push]

theorem scanFrom_blanks {gap : List Char} (h : ∀ d ∈ gap, Text.isBlank d = true) :
    scanFrom prev (gap ++ cs) = scanFrom prev cs := by
  induction gap with
  | nil => rfl
  | cons b gap ih =>
    obtain ⟨hb, hgap⟩ := List.forall_mem_cons.mp h
    have hblank : lexeme prev b (gap ++ cs) = .ok (.blank, gap ++ cs) := lexeme_of_isBlank hb
    rw [List.cons_append, scanFrom_of_ok hblank]
    exact ih hgap

/-- A scan that gets from a place in a text, behind a token, to another one, behind another token, and makes
the given tokens. -/
inductive Passes : Option Token → List Char → List Token → Option Token → List Char → Prop
  | stay {prev : Option Token} {cs : List Char} : Passes prev cs [] prev cs
  | read {prev prev' : Option Token} {c : Char} {rest after left : List Char} {l : Lexeme} {ts : List Token}
      (h : Reads prev c rest l after) (hmore : Passes (l.after prev) after ts prev' left) :
      Passes prev (c :: rest) (l.tokens ++ ts) prev' left

namespace Passes

variable {left : List Char}

/-- What a scan has passed is a text that it reads by itself. -/
theorem exists_front (h : Passes prev cs ts prev' left) :
    ∃ front, cs = front ++ left ∧ Scans prev front ts ∧ lastToken prev ts = prev' := by
  induction h with
  | stay => exact ⟨[], rfl, .done, rfl⟩
  | @read prev prev' c rest after left l ts hreads _ ih =>
    obtain ⟨front, rfl, hscans, hlast⟩ := ih
    obtain ⟨passed, rfl⟩ := hreads.suffix
    have hfront : Reads prev c (passed ++ front) l front := hreads.front (List.append_assoc _ _ _).symm rfl
    exact ⟨c :: (passed ++ front), by simp, .read hfront hscans, by rw [lastToken_lexeme, hlast]⟩

theorem scanFrom_eq (h : Passes prev cs ts prev' left) :
    (scanFrom prev cs).failure = (scanFrom prev' left).failure ∧
      (scanFrom prev cs).tokens = ts ++ (scanFrom prev' left).tokens := by
  induction h with
  | stay => exact ⟨rfl, rfl⟩
  | read hreads _ ih =>
    rw [scanFrom_of_ok (lexeme_eq_ok.mpr hreads), Scan.failure_push, Scan.tokens_push, ih.2, List.append_assoc]
    exact ⟨ih.1, rfl⟩

/-- Every scan ends, at the end of the text or before a lexeme that it cannot read. -/
theorem exists_end (prev : Option Token) (cs : List Char) : ∃ ts prev' left, Passes prev cs ts prev' left ∧
    (left = [] ∨ ∃ c rest e, left = c :: rest ∧ lexeme prev' c rest = .error e) := by
  induction prev, cs using scanFrom_induction with
  | done prev => exact ⟨[], prev, [], .stay, .inl rfl⟩
  | @failed prev c rest e he => exact ⟨[], prev, c :: rest, .stay, .inr ⟨c, rest, e, rfl, he⟩⟩
  | read hok ih =>
    obtain ⟨ts, prev', left, hpasses, hend⟩ := ih
    exact ⟨_, prev', left, .read (lexeme_eq_ok.mp hok) hpasses, hend⟩

end Passes

theorem Scans.passes (h : Scans prev cs ts) {b : Char} (hb : Separates b) (more : List Char) :
    Passes prev (cs ++ b :: more) ts (lastToken prev ts) (b :: more) := by
  induction h with
  | done => exact .stay
  | read hreads _ ih =>
    rw [lastToken_lexeme]
    exact .read (hreads.append hb more) ih

theorem Scans.scanFrom_gap (h : Scans prev cs ts) {gap : List Char} (hgap : gap ≠ [])
    (hblank : ∀ d ∈ gap, Text.isBlank d = true) (more : List Char) :
    (scanFrom prev (cs ++ gap ++ more)).failure = (scanFrom (lastToken prev ts) more).failure ∧
    (scanFrom prev (cs ++ gap ++ more)).tokens = ts ++ (scanFrom (lastToken prev ts) more).tokens := by
  obtain ⟨b, others, rfl⟩ := List.exists_cons_of_ne_nil hgap
  have hpasses := h.passes (separates_of_isBlank (hblank b List.mem_cons_self)) (others ++ more)
  have hscan := hpasses.scanFrom_eq
  rw [← List.cons_append, scanFrom_blanks hblank, ← List.append_assoc] at hscan
  exact hscan

theorem tokenize_eq_error {e : LexError} : tokenize cs = .error e ↔ (scanFrom none cs).failure = some e := by
  unfold tokenize scan
  cases (scanFrom none cs).failure <;> simp

theorem tokenize_congr {cs' : List Char} (hfailure : (scanFrom none cs).failure = (scanFrom none cs').failure)
    (htokens : (scanFrom none cs).tokens = (scanFrom none cs').tokens) : tokenize cs = tokenize cs' := by
  unfold tokenize scan
  rw [hfailure, htokens]

/-- Behind a text and a gap a text is read as it is alone, but for its first minus. -/
theorem Scans.tokenize_gap {gap : List Char} (h : Scans none cs ts) (hgap : gap ≠ [])
    (hblank : ∀ d ∈ gap, Text.isBlank d = true) (more : List Char) :
    (∀ e, tokenize (cs ++ gap ++ more) = .error e ↔ tokenize more = .error e) ∧
      ∀ us, tokenize more = .ok us → tokenize (cs ++ gap ++ more) = .ok (ts ++ behind ts.getLast? us) := by
  obtain ⟨hfailure, htokens⟩ := h.scanFrom_gap hgap hblank more
  have hlast : lastToken none ts = ts.getLast? := Option.or_none
  rw [hlast, scanFrom_behind ts.getLast?] at hfailure htokens
  constructor
  · intro e
    rw [tokenize_eq_error, tokenize_eq_error, hfailure]
  · intro us hus
    obtain ⟨hnone, rfl⟩ := scans_iff.mp (tokenize_eq_ok.mp hus)
    exact tokenize_eq_ok.mpr (scans_iff.mpr ⟨hfailure.trans hnone, htokens⟩)

/-- A gap where a lexeme ends, or at the start, is not noticed. -/
theorem Passes.tokenize_gap {front left gap : List Char} (h : Passes none (front ++ left) ts prev left)
    (hblank : ∀ d ∈ gap, Text.isBlank d = true) : tokenize (front ++ gap ++ left) = tokenize (front ++ left) := by
  rcases eq_or_ne gap [] with rfl | hgap
  · rw [List.append_nil]
  · obtain ⟨hfailure, htokens⟩ := h.scanFrom_eq
    obtain ⟨front, heq, hscans, rfl⟩ := h.exists_front
    obtain rfl := List.append_cancel_right heq
    obtain ⟨hfailure', htokens'⟩ := hscans.scanFrom_gap hgap hblank left
    exact tokenize_congr (hfailure'.trans hfailure.symm) (htokens'.trans htokens.symm)

/-- The scan decides the outcome where it ends. -/
theorem exists_passes_end (cs : List Char) : ∃ ts prev left, Passes none cs ts prev left ∧
    ((left = [] ∧ tokenize cs = .ok ts) ∨
      ∃ c rest e, left = c :: rest ∧ lexeme prev c rest = .error e ∧ tokenize cs = .error e) := by
  obtain ⟨ts, prev, left, hpasses, hend⟩ := Passes.exists_end none cs
  obtain ⟨hfailure, htokens⟩ := hpasses.scanFrom_eq
  refine ⟨ts, prev, left, hpasses, ?_⟩
  rcases hend with rfl | ⟨c, rest, e, rfl, he⟩
  · left
    rw [scanFrom_nil] at hfailure htokens
    exact ⟨rfl, tokenize_eq_ok.mpr (scans_iff.mpr ⟨hfailure, by simpa using htokens⟩)⟩
  · right
    rw [scanFrom_of_error he] at hfailure
    exact ⟨c, rest, e, rfl, he, tokenize_eq_error.mpr hfailure⟩

/-- Behind a text that can be read and a blank, a text fails as it does alone, or its tokens follow, the first
of them read as it is behind the last of the others. Blanks can be put wherever a lexeme ends. Each lexeme
leaves less than there was, and the scan goes on to the end of the text or to what cannot be read. -/
theorem tokenize_append :
    (∀ (xs : List Char) (ts : List Token) (gap ys : List Char), tokenize xs = .ok ts → gap ≠ [] →
      (∀ d ∈ gap, Text.isBlank d = true) →
        (∀ e, tokenize (xs ++ gap ++ ys) = .error e ↔ tokenize ys = .error e) ∧
        ∀ us, tokenize ys = .ok us → tokenize (xs ++ gap ++ ys) = .ok (ts ++ behind ts.getLast? us)) ∧
    (∀ (front : List Char) (ts : List Token) (prev : Option Token) (left gap : List Char),
      Passes none (front ++ left) ts prev left → (∀ d ∈ gap, Text.isBlank d = true) →
        tokenize (front ++ gap ++ left) = tokenize (front ++ left)) ∧
    (∀ (prev : Option Token) (c : Char) (rest after : List Char) (l : Lexeme),
      lexeme prev c rest = .ok (l, after) → after <:+ rest) ∧
    ∀ cs, ∃ ts prev left, Passes none cs ts prev left ∧ ((left = [] ∧ tokenize cs = .ok ts) ∨
      ∃ c rest e, left = c :: rest ∧ lexeme prev c rest = .error e ∧ tokenize cs = .error e) := by
  refine ⟨?_, ?_, ?_, exists_passes_end⟩
  · intro xs ts gap ys h hgap hblank
    exact (tokenize_eq_ok.mp h).tokenize_gap hgap hblank ys
  · intro front ts prev left gap h hblank
    exact h.tokenize_gap hblank
  · intro prev c rest after l h
    exact (lexeme_eq_ok.mp h).suffix

/-- Behind a variable the first of two minus signs subtracts. -/
theorem tokenize_append_minus :
    tokenize "{a} \t-- {b}".toList = .ok [.var "a", .operator .sub, .operator .negate, .var "b"] ∧
    tokenize "{a} -\x7bb".toList = .error (.unterminatedVariable "\x7bb") ∧
    tokenize "{a}- \n-π".toList = tokenize "{a}--π".toList ∧
    lexeme none '{' "a\x7d -π".toList = .ok (.token (.var "a"), " -π".toList) ∧ " -π".toList <:+ "a\x7d -π".toList := by
  obtain ⟨hjoined, hgap, hsuffix, -⟩ := tokenize_append
  have ha : tokenize "{a}".toList = .ok [.var "a"] := by decide +kernel
  have hb : tokenize "-- {b}".toList = .ok [.operator .negate, .operator .negate, .var "b"] := by decide +kernel
  have hopen : tokenize "-\x7bb".toList = .error (.unterminatedVariable "\x7bb") := by decide +kernel
  have hread : lexeme none '{' "a\x7d -π".toList = .ok (.token (.var "a"), " -π".toList) := by decide +kernel
  refine ⟨?_, ?_, ?_, hread, hsuffix none '{' _ _ _ hread⟩
  · exact (hjoined _ _ [' ', '\t'] _ ha (by simp) (List.all_eq_true.mp rfl)).2 _ hb
  · exact ((hjoined _ _ [' '] _ ha (by simp) (List.all_eq_true.mp rfl)).1 _).mpr hopen
  · have hvar : Reads none '{' "a\x7d--π".toList (.token (.var "a")) "--π".toList := lexeme_eq_ok.mp (by decide +kernel)
    have hminus : Reads (some (.var "a")) '-' "-π".toList (.token (.operator .sub)) "-π".toList :=
      lexeme_eq_ok.mp (by decide +kernel)
    have hpasses : Passes none ("{a}-".toList ++ "-π".toList) _ _ "-π".toList := .read hvar (.read hminus .stay)
    exact hgap _ _ _ _ [' ', '\n'] hpasses (List.all_eq_true.mp rfl)

end Metrology.Formula
