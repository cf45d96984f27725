import Mathlib.Data.List.TakeWhile
import Metrology.Formula.Lexer
import Metrology.Proofs.Text.Characters

/-! # What a scan reads

`Reads` says what a lexeme can be and what it leaves of a text, `Scans` that a whole text is read lexeme by
lexeme without a failure. A lexeme does not depend on what follows a separator, a character that belongs to no
number, no name and no arrow: more text behind a separator is left as it is.
-/
namespace Metrology.Formula

def signs : List Char := ['+', '-', '−', '*', '×', '/', '÷', '^', '%']

def marks : List Char := ['(', ')', ',', '{', '<', '>'] ++ signs

inductive Reads (prev : Option Token) (c : Char) (rest : List Char) : Lexeme → List Char → Prop
  | blank (hc : Text.isBlank c = true) : Reads prev c rest .blank rest
  | leftParen (hc : c = '(') : Reads prev c rest (.token .leftParen) rest
  | rightParen (hc : c = ')') : Reads prev c rest (.token .rightParen) rest
  | comma (hc : c = ',') : Reads prev c rest (.token .comma) rest
  | braced (hc : c = '{') {inside after : List Char} (hrest : rest = inside ++ '}' :: after) (hinside : '}' ∉ inside)
      (hname : Text.stripChars inside ≠ []) :
      Reads prev c rest (.token (.var (String.ofList (Text.stripChars inside)))) after
  | arrow (hc : c = '-') {after : List Char} (hrest : rest = '>' :: after) :
      Reads prev c rest (.token (.operator .convert)) after
  | pi (hc : c = 'π') : Reads prev c rest (.token (.number pi)) rest
  | sign {op : Operator} (hop : signOperator? prev c = some op) (harrow : ¬ (c = '-' ∧ rest.head? = some '>')) :
      Reads prev c rest (.token (.operator op)) rest
  | number (hc : c.isDigit = true) {more after : List Char} {n : Decimal.Numeral} (hrest : rest = more ++ after)
      (hmore : ∀ d ∈ more, isNumberChar d = true) (hafter : ∀ d ∈ after.head?, isNumberChar d = false)
      (hn : Decimal.Numeral.read? (c :: more) = some n) : Reads prev c rest (.token (.number n.value)) after
  | name (hc : isIdentifierChar c = true) {more after : List Char} (hrest : rest = more ++ after)
      (hmore : ∀ d ∈ more, isIdentifierChar d = true) (hafter : ∀ d ∈ after.head?, isIdentifierChar d = false) :
      Reads prev c rest
        (.token ((keyword? (String.ofList (c :: more))).getD (.unit (String.ofList (c :: more))))) after
  | unknown (hblank : Text.isBlank c = false) (hletter : Text.isLetter c = false) (hdigit : c.isDigit = false)
      (hmark : c ∉ marks) : Reads prev c rest (.unknown c) rest

theorem mem_signs {prev : Option Token} {c : Char} {op : Operator}
    (h : signOperator? prev c = some op) : c ∈ signs := by
  unfold signOperator? isMinus at h
  simp only [signs, List.mem_cons, List.not_mem_nil, or_false]
  grind

theorem exists_signOperator? (prev : Option Token) {c : Char} (h : c ∈ signs) :
    ∃ op, signOperator? prev c = some op := by
  simp only [signs, List.mem_cons, List.not_mem_nil, or_false] at h
  rcases h with rfl | rfl | rfl | rfl | rfl | rfl | rfl | rfl | rfl <;> exact ⟨_, rfl⟩

theorem readVariable_eq_ok {rest after : List Char} {l : Lexeme} : readVariable rest = .ok (l, after) ↔
    ∃ inside, rest = inside ++ '}' :: after ∧ '}' ∉ inside ∧ Text.stripChars inside ≠ [] ∧
      l = .token (.var (String.ofList (Text.stripChars inside))) := by
  unfold readVariable
  constructor
  · intro h
    have hsplit : rest.takeWhile (fun c => c != '}') ++ rest.dropWhile (fun c => c != '}') = rest :=
      List.takeWhile_append_dropWhile
    have hinside : '}' ∉ rest.takeWhile fun c => c != '}' := by
      intro hmem
      simpa using List.mem_takeWhile_imp hmem
    have hhead := Text.head?_dropWhile (fun c => c != '}') rest
    cases hdrop : rest.dropWhile fun c => c != '}' with
    | nil =>
      simp only [hdrop] at h
      cases h
    | cons c tail =>
      rw [hdrop] at hsplit hhead
      obtain rfl : c = '}' := by simpa using hhead c rfl
      simp only [hdrop, List.isEmpty_iff] at h
      split at h
      · cases h
      · next hname =>
        cases h
        exact ⟨_, hsplit.symm, hinside, hname, rfl⟩
  · rintro ⟨inside, rfl, hinside, hname, rfl⟩
    have hnot : ∀ d ∈ inside, (d != '}') = true := by
      intro d hd
      simpa using ne_of_mem_of_not_mem hd hinside
    have hstop : ∀ d ∈ ('}' :: after).head?, (d != '}') = false := by simp
    rw [Text.takeWhile_append_of_stop hnot hstop, Text.dropWhile_append_of_stop hnot hstop]
    simp [hname]

theorem readNumber_eq_ok {c : Char} {rest after : List Char} {l : Lexeme} : readNumber c rest = .ok (l, after) ↔
    ∃ more n, rest = more ++ after ∧ (∀ d ∈ more, isNumberChar d = true) ∧ (∀ d ∈ after.head?, isNumberChar d = false) ∧
      Decimal.Numeral.read? (c :: more) = some n ∧ l = .token (.number n.value) := by
  unfold readNumber
  constructor
  · intro h
    dsimp only at h
    split at h
    · next n hn =>
      cases h
      exact ⟨_, n, List.takeWhile_append_dropWhile.symm, fun d hd => List.mem_takeWhile_imp hd,
        Text.head?_dropWhile _ _, hn, rfl⟩
    · cases h
  · rintro ⟨more, n, rfl, hmore, hafter, hn, rfl⟩
    simp only [Text.takeWhile_append_of_stop hmore hafter, Text.dropWhile_append_of_stop hmore hafter, hn]

theorem readIdentifier_eq {c : Char} {rest after : List Char} {l : Lexeme} : readIdentifier c rest = (l, after) ↔
    ∃ more, rest = more ++ after ∧ (∀ d ∈ more, isIdentifierChar d = true) ∧
      (∀ d ∈ after.head?, isIdentifierChar d = false) ∧
      l = .token ((keyword? (String.ofList (c :: more))).getD (.unit (String.ofList (c :: more)))) := by
  unfold readIdentifier
  constructor
  · intro h
    cases h
    exact ⟨_, List.takeWhile_append_dropWhile.symm, fun d hd => List.mem_takeWhile_imp hd,
      Text.head?_dropWhile _ _, rfl⟩
  · rintro ⟨more, rfl, hmore, hafter, rfl⟩
    simp only [Text.takeWhile_append_of_stop hmore hafter, Text.dropWhile_append_of_stop hmore hafter]

section

variable {prev : Option Token} {c : Char} {rest : List Char}

theorem lexeme_of_isBlank (h : Text.isBlank c = true) : lexeme prev c rest = .ok (.blank, rest) := by
  rw [lexeme, if_pos h]

theorem lexeme_arrow : lexeme prev '-' ('>' :: rest) = .ok (.token (.operator .convert), rest) := rfl

theorem lexeme_of_signOperator? {op : Operator} (h : signOperator? prev c = some op)
    (harrow : ¬ (c = '-' ∧ rest.head? = some '>')) : lexeme prev c rest = .ok (.token (.operator op), rest) := by
  have hall : (signs.all fun d => !Text.isBlank d && !(['(', ')', ',', '{', 'π', '<', '>'].contains d)) = true := by
    decide +kernel
  obtain ⟨hblank, hother⟩ : Text.isBlank c = false ∧ c ∉ ['(', ')', ',', '{', 'π', '<', '>'] := by
    simpa using List.all_eq_true.mp hall c (mem_signs h)
  simp only [List.mem_cons, List.not_mem_nil, or_false, not_or] at hother
  simp [lexeme, hblank, hother, harrow, h]

theorem signOperator?_eq_none (h : c ∉ signs) : signOperator? prev c = none := by
  cases hop : signOperator? prev c with
  | none => rfl
  | some op => exact absurd (mem_signs hop) h

theorem lexeme_of_not_mark (hblank : Text.isBlank c = false) (hmark : c ∉ marks) (hpi : c ≠ 'π') :
    lexeme prev c rest = if c.isDigit then readNumber c rest else if Text.isLetter c then .ok (readIdentifier c rest)
      else .ok (.unknown c, rest) := by
  have hsign : c ∉ signs := fun h => hmark (List.mem_append_right _ h)
  have hother : c ∉ ['(', ')', ',', '{', '<', '>'] := fun h => hmark (List.mem_append_left _ h)
  have hminus : c ≠ '-' := fun h => hsign (h ▸ by decide)
  simp only [List.mem_cons, List.not_mem_nil, or_false, not_or] at hother
  simp [lexeme, hblank, hother, hminus, hpi, signOperator?_eq_none hsign]

theorem lexeme_of_isDigit (h : c.isDigit = true) : lexeme prev c rest = readNumber c rest := by
  have hall : (('π' :: marks).all fun d => !d.isDigit) = true := by decide +kernel
  have hnot : ∀ d ∈ 'π' :: marks, c ≠ d := by
    rintro d hd rfl
    simpa [h] using List.all_eq_true.mp hall c hd
  have hmark : c ∉ marks := fun hc => hnot c (List.mem_cons_of_mem _ hc) rfl
  rw [lexeme_of_not_mark (Text.isBlank_of_isDigit h) hmark (hnot 'π' List.mem_cons_self), if_pos h]

theorem lexeme_of_isIdentifierChar (h : isIdentifierChar c = true) :
    lexeme prev c rest = .ok (readIdentifier c rest) := by
  obtain ⟨hletter, hpi⟩ : Text.isLetter c = true ∧ c ≠ 'π' := by simpa [isIdentifierChar] using h
  have hall : (marks.all fun d => !Text.isLetter d) = true := by decide +kernel
  have hmark : c ∉ marks := by
    intro hc
    simpa [hletter] using List.all_eq_true.mp hall c hc
  have hdigit : c.isDigit = false := by
    cases hc : c.isDigit with
    | false => rfl
    | true =>
      rw [Text.isLetter_of_isDigit hc] at hletter
      cases hletter
  rw [lexeme_of_not_mark (Text.isBlank_of_isLetter hletter) hmark hpi, hdigit,
    if_neg Bool.false_ne_true, if_pos hletter]

/-- A character that begins no lexeme but its own. -/
theorem lexeme_unknown (hblank : Text.isBlank c = false) (hletter : Text.isLetter c = false)
    (hdigit : c.isDigit = false) (hmark : c ∉ marks) : lexeme prev c rest = .ok (.unknown c, rest) := by
  have hpi : c ≠ 'π' := by
    rintro rfl
    revert hletter
    decide +kernel
  rw [lexeme_of_not_mark hblank hmark hpi, hdigit, hletter]
  rfl

theorem reads_of_mark {after : List Char} {l : Lexeme} (hc : c ∈ marks) (h : lexeme prev c rest = .ok (l, after)) :
    Reads prev c rest l after := by
  rcases List.mem_append.mp hc with hc | hc
  · simp only [List.mem_cons, List.not_mem_nil, or_false] at hc
    rcases hc with rfl | rfl | rfl | rfl | rfl | rfl
    · cases h
      exact .leftParen rfl
    · cases h
      exact .rightParen rfl
    · cases h
      exact .comma rfl
    · obtain ⟨inside, hrest, hinside, hname, rfl⟩ := readVariable_eq_ok.mp h
      exact .braced rfl hrest hinside hname
    · cases h
    · cases h
  · by_cases harrow : c = '-' ∧ rest.head? = some '>'
    · obtain ⟨rfl, hhead⟩ := harrow
      obtain ⟨after, rfl⟩ := List.head?_eq_some_iff.mp hhead
      cases h
      exact .arrow rfl rfl
    · obtain ⟨op, hop⟩ := exists_signOperator? prev hc
      rw [lexeme_of_signOperator? hop harrow] at h
      cases h
      exact .sign hop harrow

end

theorem lexeme_eq_ok {prev : Option Token} {c : Char} {rest after : List Char} {l : Lexeme} :
    lexeme prev c rest = .ok (l, after) ↔ Reads prev c rest l after := by
  constructor
  · intro h
    by_cases hblank : Text.isBlank c = true
    · rw [lexeme_of_isBlank hblank] at h
      cases h
      exact .blank hblank
    · rw [Bool.not_eq_true] at hblank
      by_cases hmark : c ∈ marks
      · exact reads_of_mark hmark h
      · by_cases hpi : c = 'π'
        · subst hpi
          cases h
          exact .pi rfl
        · rw [lexeme_of_not_mark hblank hmark hpi] at h
          split at h
          · next hdigit =>
            obtain ⟨more, n, hrest, hmore, hafter, hn, rfl⟩ := readNumber_eq_ok.mp h
            exact .number hdigit hrest hmore hafter hn
          · next hdigit =>
            split at h
            · next hletter =>
              have hc : isIdentifierChar c = true := by simp [isIdentifierChar, hletter, hpi]
              obtain ⟨more, hrest, hmore, hafter, rfl⟩ := readIdentifier_eq.mp (Except.ok.inj h)
              exact .name hc hrest hmore hafter
            · next hletter =>
              cases h
              exact .unknown hblank (by simpa using hletter) (by simpa using hdigit) hmark
  · intro h
    cases h with
    | blank hc => exact lexeme_of_isBlank hc
    | leftParen hc => subst hc; rfl
    | rightParen hc => subst hc; rfl
    | comma hc => subst hc; rfl
    | braced hc hrest hinside hname =>
      subst hc
      exact readVariable_eq_ok.mpr ⟨_, hrest, hinside, hname, rfl⟩
    | arrow hc hrest =>
      subst hc hrest
      exact lexeme_arrow
    | pi hc => subst hc; rfl
    | sign hop harrow => exact lexeme_of_signOperator? hop harrow
    | number hc hrest hmore hafter hn =>
      rw [lexeme_of_isDigit hc]
      exact readNumber_eq_ok.mpr ⟨_, _, hrest, hmore, hafter, hn, rfl⟩
    | name hc hrest hmore hafter =>
      rw [lexeme_of_isIdentifierChar hc]
      exact congrArg Except.ok (readIdentifier_eq.mpr ⟨_, hrest, hmore, hafter, rfl⟩)
    | unknown hblank hletter hdigit hmark => exact lexeme_unknown hblank hletter hdigit hmark

/-- A character that ends numbers and names and is no part of an arrow but the first. -/
structure Separates (b : Char) : Prop where
  number : isNumberChar b = false
  name : isIdentifierChar b = false
  arrow : b ≠ '>'

theorem separates_of_isBlank {b : Char} (h : Text.isBlank b = true) : Separates b where
  number := by
    have hall : ∀ n ∈ Text.blankCodes, isNumberChar (Char.ofNat n) = false := by decide +kernel
    have hcode := hall _ (Text.mem_blankCodes h)
    rwa [Char.ofNat_toNat] at hcode
  name := by simp [isIdentifierChar, Text.isLetter_of_isBlank h]
  arrow := by
    rintro rfl
    cases h

theorem head?_append_separator {b : Char} {more : List Char} {p : Char → Bool} (hb : p b = false) {after : List Char}
    (hafter : ∀ d ∈ after.head?, p d = false) : ∀ d ∈ (after ++ b :: more).head?, p d = false := by
  cases after with
  | nil => simpa using hb
  | cons a after => simpa using hafter

theorem exists_of_append_separator {p : Char → Bool} {b : Char} (hb : p b = false) {xs ys zs more : List Char}
    (hys : ∀ d ∈ ys, p d = true) (h : xs ++ b :: more = ys ++ zs) : ∃ after, xs = ys ++ after ∧
    zs = after ++ b :: more := by
  rcases List.append_eq_append_iff.mp h with ⟨as, hy, htail⟩ | ⟨bs, hx, hz⟩
  · cases as with
    | nil => exact ⟨[], by simpa using hy.symm, by simpa using htail.symm⟩
    | cons a as =>
      obtain ⟨rfl, -⟩ := List.cons.inj htail
      have hmem : b ∈ ys := by simp [hy]
      rw [hys b hmem] at hb
      cases hb
  · exact ⟨bs, hx, hz⟩

namespace Reads

variable {prev : Option Token} {c b : Char} {rest after more : List Char} {l : Lexeme}

theorem suffix (h : Reads prev c rest l after) : after <:+ rest := by
  cases h with
  | braced _ hrest =>
    rw [hrest]
    exact (List.suffix_cons _ _).trans (List.suffix_append _ _)
  | arrow _ hrest =>
    rw [hrest]
    exact List.suffix_cons _ _
  | number _ hrest =>
    rw [hrest]
    exact List.suffix_append _ _
  | name _ hrest =>
    rw [hrest]
    exact List.suffix_append _ _
  | _ => exact List.suffix_refl _

/-- More text behind a separator changes nothing. -/
theorem append (h : Reads prev c rest l after) (hb : Separates b) (more : List Char) :
    Reads prev c (rest ++ b :: more) l (after ++ b :: more) := by
  cases h with
  | blank hc => exact .blank hc
  | leftParen hc => exact .leftParen hc
  | rightParen hc => exact .rightParen hc
  | comma hc => exact .comma hc
  | braced hc hrest hinside hname => exact .braced hc (by simp [hrest]) hinside hname
  | arrow hc hrest => exact .arrow hc (by simp [hrest])
  | pi hc => exact .pi hc
  | sign hop harrow =>
    refine .sign hop fun ⟨hc, hhead⟩ => ?_
    cases rest with
    | nil => exact hb.arrow (by simpa using hhead)
    | cons d rest => exact harrow ⟨hc, by simpa using hhead⟩
  | number hc hrest hmore hafter hn =>
    exact .number hc (by simp [hrest]) hmore (head?_append_separator hb.number hafter) hn
  | name hc hrest hmore hafter => exact .name hc (by simp [hrest]) hmore (head?_append_separator hb.name hafter)
  | unknown hblank hletter hdigit hmark => exact .unknown hblank hletter hdigit hmark

/-- No lexeme reaches over a separator but one in braces. -/
theorem split (h : Reads prev c (rest ++ b :: more) l after) (hb : Separates b) (hc : c ≠ '{') :
    ∃ kept, after = kept ++ b :: more ∧ Reads prev c rest l kept := by
  cases h with
  | blank hc => exact ⟨rest, rfl, .blank hc⟩
  | leftParen hc => exact ⟨rest, rfl, .leftParen hc⟩
  | rightParen hc => exact ⟨rest, rfl, .rightParen hc⟩
  | comma hc => exact ⟨rest, rfl, .comma hc⟩
  | braced hbrace => exact absurd hbrace hc
  | arrow hc hrest =>
    cases rest with
    | nil => exact absurd (List.cons.inj hrest).1 hb.arrow
    | cons d rest =>
      obtain ⟨rfl, rfl⟩ := List.cons.inj hrest
      exact ⟨rest, rfl, .arrow hc rfl⟩
  | pi hc => exact ⟨rest, rfl, .pi hc⟩
  | sign hop harrow =>
    refine ⟨rest, rfl, .sign hop fun ⟨hc, hhead⟩ => harrow ⟨hc, ?_⟩⟩
    rw [List.head?_append, hhead]
    rfl
  | number hc hrest hmore hafter hn =>
    obtain ⟨kept, rfl, rfl⟩ := exists_of_append_separator hb.number hmore hrest
    refine ⟨kept, rfl, .number hc rfl hmore (fun d hd => hafter d ?_) hn⟩
    simp [List.head?_append, Option.mem_def.mp hd]
  | name hc hrest hmore hafter =>
    obtain ⟨kept, rfl, rfl⟩ := exists_of_append_separator hb.name hmore hrest
    refine ⟨kept, rfl, .name hc rfl hmore fun d hd => hafter d ?_⟩
    simp [List.head?_append, Option.mem_def.mp hd]
  | unknown hblank hletter hdigit hmark => exact ⟨rest, rfl, .unknown hblank hletter hdigit hmark⟩

end Reads

def Lexeme.tokens : Lexeme → List Token
  | .token t => [t]
  | _ => []

inductive Scans : Option Token → List Char → List Token → Prop
  | done {prev : Option Token} : Scans prev [] []
  | read {prev : Option Token} {c : Char} {rest after : List Char} {l : Lexeme} {ts : List Token}
      (h : Reads prev c rest l after) (hrest : Scans (l.after prev) after ts) : Scans prev (c :: rest) (l.tokens ++ ts)

theorem scanFrom_nil (prev : Option Token) : scanFrom prev [] = ⟨[], [], none⟩ := by
  rw [scanFrom.eq_def]

theorem scanFrom_of_ok {prev : Option Token} {c : Char} {rest after : List Char} {l : Lexeme}
    (h : lexeme prev c rest = .ok (l, after)) : scanFrom prev (c :: rest) = (scanFrom (l.after prev) after).push l := by
  rw [scanFrom.eq_def]
  dsimp only
  split
  · next e he =>
    rw [h] at he
    cases he
  · next l' after' hok =>
    rw [h] at hok
    cases hok
    rfl

theorem scanFrom_of_error {prev : Option Token} {c : Char} {rest : List Char} {e : LexError}
    (h : lexeme prev c rest = .error e) : scanFrom prev (c :: rest) = ⟨[], [], some e⟩ := by
  rw [scanFrom.eq_def]
  dsimp only
  split
  · next e' he =>
    rw [h] at he
    cases he
    rfl
  · next l after hok =>
    rw [h] at hok
    cases hok

/-- A text is at its end, begins with something that is no lexeme, or has a lexeme and then the rest of it. -/
@[elab_as_elim]
theorem scanFrom_induction {motive : Option Token → List Char → Prop} (done : ∀ prev, motive prev [])
    (failed : ∀ {prev c rest e}, lexeme prev c rest = .error e → motive prev (c :: rest))
    (read : ∀ {prev c rest l after}, lexeme prev c rest = .ok (l, after) → motive (l.after prev) after →
      motive prev (c :: rest))
    (prev : Option Token) (cs : List Char) : motive prev cs :=
  scanFrom.induct motive done (fun _ _ _ _ h => failed h) (fun _ _ _ _ _ h _ ih => read h ih) prev cs

theorem Scan.tokens_push (s : Scan) (l : Lexeme) : (s.push l).tokens = l.tokens ++ s.tokens := by
  cases l <;> rfl

theorem Scan.failure_push (s : Scan) (l : Lexeme) : (s.push l).failure = s.failure := by
  cases l <;> rfl

theorem scans_iff {prev : Option Token} {cs : List Char} {ts : List Token} :
    Scans prev cs ts ↔ (scanFrom prev cs).failure = none ∧ (scanFrom prev cs).tokens = ts := by
  constructor
  · intro h
    induction h with
    | done => simp [scanFrom_nil]
    | read hreads _ ih =>
      rw [scanFrom_of_ok (lexeme_eq_ok.mpr hreads), Scan.failure_push, Scan.tokens_push, ih.2]
      exact ⟨ih.1, rfl⟩
  · rintro ⟨hfailure, rfl⟩
    induction prev, cs using scanFrom_induction with
    | done prev =>
      rw [scanFrom_nil]
      exact .done
    | failed he =>
      rw [scanFrom_of_error he] at hfailure
      cases hfailure
    | read hok ih =>
      rw [scanFrom_of_ok hok, Scan.failure_push] at hfailure
      rw [scanFrom_of_ok hok, Scan.tokens_push]
      exact .read (lexeme_eq_ok.mp hok) (ih hfailure)

theorem tokenize_eq_ok {cs : List Char} {ts : List Token} : tokenize cs = .ok ts ↔ Scans none cs ts := by
  rw [scans_iff]
  unfold tokenize scan
  cases (scanFrom none cs).failure <;> simp

theorem Scans.exists_lexeme {prev : Option Token} {c : Char} {rest : List Char} {ts : List Token}
    (h : Scans prev (c :: rest) ts) :
    ∃ l after ts', lexeme prev c rest = .ok (l, after) ∧ Scans (l.after prev) after ts' ∧ ts = l.tokens ++ ts' := by
  cases h with
  | read hreads hrest => exact ⟨_, _, _, lexeme_eq_ok.mpr hreads, hrest, rfl⟩

/-- A text with a separator, behind which no brace can reach, is read up to the separator and from there. -/
theorem Scans.split {prev : Option Token} {xs more : List Char} {b : Char} {ts : List Token}
    (h : Scans prev (xs ++ b :: more) ts) (hb : Separates b) (hxs : '{' ∉ xs) :
    ∃ prev' before after, ts = before ++ after ∧ Scans prev xs before ∧ Scans prev' (b :: more) after := by
  -- By induction on the scan: what a lexeme leaves of the front is a suffix of it, and so has no brace
  -- either.
  generalize hcs : xs ++ b :: more = cs at h
  induction h generalizing xs with
  | done => cases xs <;> cases hcs
  | @read prev c rest after l ts hreads hscans ih =>
    cases xs with
    | nil =>
      obtain ⟨rfl, rfl⟩ := List.cons.inj hcs
      exact ⟨prev, [], _, rfl, .done, .read hreads hscans⟩
    | cons d xs =>
      obtain ⟨rfl, rfl⟩ := List.cons.inj hcs
      rw [List.mem_cons, not_or] at hxs
      obtain ⟨kept, rfl, hkept⟩ := hreads.split hb (Ne.symm hxs.1)
      obtain ⟨prev', before, rest, rfl, hbefore, hrest⟩ := ih (fun hmem => hxs.2 (hkept.suffix.mem hmem)) rfl
      exact ⟨prev', l.tokens ++ before, rest, by simp, .read hkept hbefore, hrest⟩

end Metrology.Formula
