import Metrology.Proofs.Decimal.Unsigned
import Metrology.Proofs.Formula.Scanning

/-! # What scans make, and how to write it

The tokens of a text are legible: names are such as a text can bring up, numbers are not below zero, and each
minus is the one that its place asks for. Conversely every legible token list is made by the text that spells
its tokens with a blank between them, whatever numerals stand for its numbers.
-/
namespace Metrology.Formula

def keywords : List String := ["max", "min", "sin", "cos", "tan", "to"]

def Token.Legible : Token → Prop
  | .number x => Decimal.Unsigned x
  | .unit name => name ≠ "" ∧ (∀ c ∈ name.toList, Text.isLetter c = true ∧ c ≠ 'π') ∧ Text.lower name ∉ keywords
  | .var name => name ≠ "" ∧ Text.strip name = name ∧ '}' ∉ name.toList
  | _ => True

/-- A minus negates where nothing can be subtracted from, and subtracts everywhere else. -/
def Token.Fits (prev : Option Token) (t : Token) : Prop :=
  (t = .operator .negate → prev.all Token.opensOperand = true) ∧
    (t = .operator .sub → prev.all Token.opensOperand = false)

def Signed : Option Token → List Token → Prop
  | _, [] => True
  | prev, t :: rest => t.Fits prev ∧ Signed (some t) rest

inductive Spells : Token → List Char → Prop
  | operator (op : Operator) : Spells (.operator op) op.sign.toList
  | function (f : Function) : Spells (.function f) f.name.toList
  | numeral {c : Char} {more : List Char} {n : Decimal.Numeral} (hc : c.isDigit = true)
      (hmore : ∀ d ∈ more, isNumberChar d = true) (hn : Decimal.Numeral.read? (c :: more) = some n) :
      Spells (.number n.value) (c :: more)
  | pi : Spells (.number pi) ['π']
  | leftParen : Spells .leftParen ['(']
  | rightParen : Spells .rightParen [')']
  | comma : Spells .comma [',']
  | unit (name : String) : Spells (.unit name) name.toList
  | var (name : String) : Spells (.var name) ('{' :: name.toList ++ ['}'])

theorem keyword?_eq_none_iff {name : String} : keyword? name = none ↔ Text.lower name ∉ keywords := by
  unfold keyword? keywords
  split <;> simp_all

theorem keyword?_eq_some {name : String} {t : Token} (h : keyword? name = some t) :
    t = .operator .convert ∨ ∃ f, t = .function f := by
  unfold keyword? at h
  split at h <;> cases h <;> simp

theorem fits_of_ne {prev : Option Token} {t : Token} (hneg : t ≠ .operator .negate)
    (hsub : t ≠ .operator .sub) : t.Fits prev :=
  ⟨fun h => absurd h hneg, fun h => absurd h hsub⟩

theorem fits_of_signOperator? {prev : Option Token} {c : Char} {op : Operator} (h : signOperator? prev c = some op) :
    Token.Fits prev (.operator op) := by
  unfold signOperator? at h
  unfold Token.Fits
  grind

theorem unsigned_pi : Decimal.Unsigned pi := ⟨by decide +kernel, by decide +kernel⟩

theorem Reads.token {prev : Option Token} {c : Char} {rest after : List Char} {t : Token}
    (h : Reads prev c rest (.token t) after) : t.Fits prev ∧ t.Legible ∧ ∃ w, Spells t w := by
  cases h with
  | leftParen => exact ⟨fits_of_ne nofun nofun, trivial, _, .leftParen⟩
  | rightParen => exact ⟨fits_of_ne nofun nofun, trivial, _, .rightParen⟩
  | comma => exact ⟨fits_of_ne nofun nofun, trivial, _, .comma⟩
  | @braced _ inside _ _ hinside hname =>
    have htrimmed := Text.trimmed_stripChars inside
    refine ⟨fits_of_ne nofun nofun, ⟨?_, ?_, ?_⟩, _, .var _⟩
    · simpa using hname
    · rwa [Text.strip_eq_self_iff, String.toList_ofList]
    · rw [String.toList_ofList]
      exact fun hmem => hinside (Text.mem_of_mem_stripChars hmem)
  | arrow => exact ⟨fits_of_ne nofun nofun, trivial, _, .operator .convert⟩
  | pi => exact ⟨fits_of_ne nofun nofun, unsigned_pi, _, .pi⟩
  | sign hop => exact ⟨fits_of_signOperator? hop, trivial, _, .operator _⟩
  | number hc _ hmore _ hn =>
    have hunsigned := Decimal.Numeral.unsigned_value (Decimal.Numeral.not_negative_of_isDigit hc hn)
    exact ⟨fits_of_ne nofun nofun, hunsigned, _, .numeral hc hmore hn⟩
  | @name hc more _ _ hmore _ =>
    cases hkeyword : keyword? (String.ofList (c :: more)) with
    | some t =>
      rcases keyword?_eq_some hkeyword with rfl | ⟨f, rfl⟩
      · exact ⟨fits_of_ne nofun nofun, trivial, _, .operator .convert⟩
      · exact ⟨fits_of_ne nofun nofun, trivial, _, .function f⟩
    | none =>
      refine ⟨fits_of_ne nofun nofun, ⟨by simp, ?_, keyword?_eq_none_iff.mp hkeyword⟩, _, .unit _⟩
      intro d hd
      have hletter : isIdentifierChar d = true := by
        rw [String.toList_ofList] at hd
        rcases List.mem_cons.mp hd with rfl | hd
        · exact hc
        · exact hmore d hd
      simpa [isIdentifierChar] using hletter

theorem Scans.legible {prev : Option Token} {cs : List Char} {ts : List Token} (h : Scans prev cs ts) :
    Signed prev ts ∧ (∀ t ∈ ts, t.Legible) ∧ ∃ ws, List.Forall₂ Spells ts ws := by
  induction h with
  | done => exact ⟨trivial, by simp, [], .nil⟩
  | @read prev c rest after l ts hreads _ ih =>
    obtain ⟨hsigned, hlegible, ws, hws⟩ := ih
    cases l with
    | token t =>
      obtain ⟨hfits, ht, w, hw⟩ := hreads.token
      exact ⟨⟨hfits, hsigned⟩, List.forall_mem_cons.mpr ⟨ht, hlegible⟩, w :: ws, .cons hw hws⟩
    | blank => exact ⟨hsigned, hlegible, ws, hws⟩
    | unknown d => exact ⟨hsigned, hlegible, ws, hws⟩

theorem reads_function {prev : Option Token} (f : Function) :
    ∃ c rest, f.name.toList = c :: rest ∧ Reads prev c rest (.token (.function f)) [] := by
  have hreads : ∀ c more, (c :: more).all isIdentifierChar = true →
    keyword? (String.ofList (c :: more)) = some (.function f) →
      Reads prev c more (.token (.function f)) [] := by
    intro c more hall hkeyword
    obtain ⟨hc, hmore⟩ := List.forall_mem_cons.mp (List.all_eq_true.mp hall)
    have hname : Reads prev c more _ [] := .name hc (more.append_nil).symm hmore (by simp)
    rwa [hkeyword] at hname
  cases f with
  | max => exact ⟨'m', ['a', 'x'], rfl, hreads _ _ (by decide +kernel) rfl⟩
  | min => exact ⟨'m', ['i', 'n'], rfl, hreads _ _ (by decide +kernel) rfl⟩
  | sin => exact ⟨'s', ['i', 'n'], rfl, hreads _ _ (by decide +kernel) rfl⟩
  | cos => exact ⟨'c', ['o', 's'], rfl, hreads _ _ (by decide +kernel) rfl⟩
  | tan => exact ⟨'t', ['a', 'n'], rfl, hreads _ _ (by decide +kernel) rfl⟩

theorem reads_operator {prev : Option Token} {op : Operator} (h : Token.Fits prev (.operator op)) :
    ∃ c rest, op.sign.toList = c :: rest ∧ Reads prev c rest (.token (.operator op)) [] := by
  have hsign : ∀ c, signOperator? prev c = some op → Reads prev c [] (.token (.operator op)) [] := by
    intro c hop
    exact .sign hop (by simp)
  cases op with
  | add => exact ⟨'+', [], rfl, hsign '+' rfl⟩
  | sub =>
    refine ⟨'-', [], rfl, hsign '-' ?_⟩
    simp [signOperator?, isMinus, h.2 rfl]
  | mul => exact ⟨'*', [], rfl, hsign '*' rfl⟩
  | div => exact ⟨'/', [], rfl, hsign '/' rfl⟩
  | pow => exact ⟨'^', [], rfl, hsign '^' rfl⟩
  | mod => exact ⟨'%', [], rfl, hsign '%' rfl⟩
  | negate =>
    refine ⟨'-', [], rfl, hsign '-' ?_⟩
    simp [signOperator?, isMinus, h.1 rfl]
  | convert => exact ⟨'-', ['>'], rfl, .arrow rfl rfl⟩

/-- A spelled token is read as a whole. -/
theorem Spells.reads {prev : Option Token} {t : Token} {w : List Char} (h : Spells t w) (hlegible : t.Legible)
    (hfits : t.Fits prev) : ∃ c rest, w = c :: rest ∧ Reads prev c rest (.token t) [] := by
  cases h with
  | operator op => exact reads_operator hfits
  | function f => exact reads_function f
  | @numeral c more n hc hmore hn =>
    exact ⟨c, more, rfl, .number hc (more.append_nil).symm hmore (by simp) hn⟩
  | pi => exact ⟨'π', [], rfl, .pi rfl⟩
  | leftParen => exact ⟨'(', [], rfl, .leftParen rfl⟩
  | rightParen => exact ⟨')', [], rfl, .rightParen rfl⟩
  | comma => exact ⟨',', [], rfl, .comma rfl⟩
  | unit name =>
    obtain ⟨hne, hletters, hkeyword⟩ := hlegible
    cases hname : name.toList with
    | nil => exact absurd (String.toList_eq_nil_iff.mp hname) hne
    | cons c more =>
      have hall : ∀ d ∈ c :: more, isIdentifierChar d = true := by
        intro d hd
        simpa [isIdentifierChar] using hletters d (hname ▸ hd)
      have hnone : keyword? (String.ofList (c :: more)) = none := by
        rw [← hname, String.ofList_toList]
        exact keyword?_eq_none_iff.mpr hkeyword
      have hreads : Reads prev c more _ [] := .name (hall c List.mem_cons_self) (more.append_nil).symm
        (fun d hd => hall d (List.mem_cons_of_mem _ hd)) (by simp)
      rw [hnone, Option.getD_none, ← hname, String.ofList_toList] at hreads
      exact ⟨c, more, rfl, hreads⟩
  | var name =>
    obtain ⟨hne, hstrip, hbrace⟩ := hlegible
    have hstripped := Text.stripChars_of_trimmed (Text.strip_eq_self_iff.mp hstrip)
    have hnonempty : Text.stripChars name.toList ≠ [] := by
      rw [hstripped]
      exact fun hnil => hne (String.toList_eq_nil_iff.mp hnil)
    have hreads : Reads prev '{' (name.toList ++ ['}']) _ [] := .braced rfl rfl hbrace hnonempty
    rw [hstripped, String.ofList_toList] at hreads
    exact ⟨'{', name.toList ++ ['}'], rfl, hreads⟩

/-- The blank between two spelled tokens keeps them apart and is not read itself. -/
theorem scans_spelled {prev : Option Token} {ts : List Token} {ws : List (List Char)} (h : List.Forall₂ Spells ts ws)
    (hsigned : Signed prev ts) (hlegible : ∀ t ∈ ts, t.Legible) : Scans prev ([' '].intercalate ws) ts := by
  induction h generalizing prev with
  | nil => exact .done
  | @cons t w ts ws hspells hrest ih =>
    obtain ⟨hfits, hsigned⟩ := hsigned
    obtain ⟨ht, hlegible⟩ := List.forall_mem_cons.mp hlegible
    obtain ⟨c, rest, rfl, hreads⟩ := hspells.reads ht hfits
    have hscans := ih hsigned hlegible
    cases ws with
    | nil =>
      cases hrest
      rw [List.intercalate_singleton]
      exact .read hreads .done
    | cons w' ws =>
      have hblank : Reads (some t) ' ' ([' '].intercalate (w' :: ws)) .blank ([' '].intercalate (w' :: ws)) :=
        .blank rfl
      rw [List.intercalate_cons_cons, List.append_assoc]
      exact .read (hreads.append (separates_of_isBlank rfl) _) (.read hblank hscans)

/-- What `tokenize` makes is legible and can be spelled, and what is legible is made of its spelling. -/
theorem tokenize_spelling :
    (∀ cs ts, tokenize cs = .ok ts →
      Signed none ts ∧ (∀ t ∈ ts, t.Legible) ∧ ∃ ws, List.Forall₂ Spells ts ws) ∧
    ∀ ts ws, Signed none ts → (∀ t ∈ ts, t.Legible) → List.Forall₂ Spells ts ws →
      tokenize ([' '].intercalate ws) = .ok ts := by
  constructor
  · intro cs ts h
    exact (tokenize_eq_ok.mp h).legible
  · intro ts ws hsigned hlegible hspells
    exact tokenize_eq_ok.mpr (scans_spelled hspells hsigned hlegible)

/-- Of the three minus signs the first and the last negate, and the arrow is not one. -/
theorem tokenize_spelling_mixed : ∃ n, Decimal.Numeral.read? ['2', '.', '5', 'e', '3'] = some n ∧
    tokenize "- 2.5e3 - - {a b} * max ( km , π ) -> mi".toList =
      .ok [.operator .negate, .number n.value, .operator .sub, .operator .negate, .var "a b",
        .operator .mul, .function .max,
        .leftParen, .unit "km", .comma, .number pi, .rightParen, .operator .convert, .unit "mi"] ∧
    ∀ ts, tokenize "2 --π- {b} ".toList = .ok ts → Signed none ts := by
  obtain ⟨n, hn⟩ : ∃ n, Decimal.Numeral.read? ['2', '.', '5', 'e', '3'] = some n := ⟨⟨false, [2, 5], 2⟩, by decide⟩
  have hnumeral : Spells (.number n.value) ['2', '.', '5', 'e', '3'] := .numeral (by decide) (by simp [isNumberChar]) hn
  have hunsigned : Decimal.Unsigned n.value :=
    Decimal.Numeral.unsigned_value (Decimal.Numeral.not_negative_of_isDigit (by decide) hn)
  refine ⟨n, hn, tokenize_spelling.2 _ [['-'], ['2', '.', '5', 'e', '3'], ['-'], ['-'],
    ['{', 'a', ' ', 'b', '}'], ['*'],
    ['m', 'a', 'x'], ['('], ['k', 'm'], [','], ['π'], [')'], ['-', '>'], ['m', 'i']] ?_ ?_ ?_,
    fun ts h => (tokenize_spelling.1 _ _ h).1⟩
  · simp [Signed, Token.Fits, Token.opensOperand]
  · have hvar : (Token.var "a b").Legible := ⟨by decide, rfl, by decide⟩
    have hkm : (Token.unit "km").Legible := ⟨by decide, by simp; decide, by decide +kernel⟩
    have hmi : (Token.unit "mi").Legible := ⟨by decide, by simp; decide, by decide +kernel⟩
    simp only [List.forall_mem_cons]
    exact ⟨trivial, hunsigned, trivial, trivial, hvar, trivial, trivial, trivial, hkm, trivial,
      unsigned_pi, trivial, trivial,
      hmi, by simp⟩
  · exact .cons (.operator .negate)
      (.cons hnumeral (.cons (.operator .sub) (.cons (.operator .negate) (.cons (.var "a b")
      (.cons (.operator .mul) (.cons (.function .max) (.cons .leftParen (.cons (.unit "km") (.cons .comma (.cons .pi
        (.cons .rightParen (.cons (.operator .convert) (.cons (.unit "mi") .nil)))))))))))))

end Metrology.Formula
