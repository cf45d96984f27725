import Metrology.Decimal.Numeral
import Metrology.Formula.Token
import Metrology.Text.Blank
import Metrology.Text.Letter
import Metrology.Text.Lowercase

/-! # Reading tokens

`scan` reads a text from left to right. Blanks separate tokens and mean nothing else; a character that begins
no token is skipped and noted; a malformed number, an operator that does not exist and a variable without a
name or an end stop the scan. Each lexeme leaves a shorter rest, `lexeme_length`, so every scan ends.
-/
namespace Metrology.Formula

inductive LexError where
  | badNumber (text : String)
  | badOperator (c : Char)
  | unterminatedVariable (text : String)
  | emptyVariable (text : String)
  deriving DecidableEq, Repr

inductive Lexeme where
  | token (t : Token)
  | blank
  | unknown (c : Char)
  deriving DecidableEq

def pi : Float := 3.141592653589793

def keyword? (name : String) : Option Token :=
  match Text.lower name with
  | "max" => some (.function .max)
  | "min" => some (.function .min)
  | "sin" => some (.function .sin)
  | "cos" => some (.function .cos)
  | "tan" => some (.function .tan)
  | "to" => some (.operator .convert)
  | _ => none

def isNumberChar (c : Char) : Bool := c.isDigit || c == '.' || c == 'e'

/-- A letter that can belong to a name; the letter π is a number on its own. -/
def isIdentifierChar (c : Char) : Bool := Text.isLetter c && c != 'π'

def isMinus (c : Char) : Bool := c == '-' || c == '−'

/-- The operator written with a single character; a minus is settled by what stands before it. -/
def signOperator? (prev : Option Token) (c : Char) : Option Operator :=
  if c = '+' then some .add
  else if isMinus c then some (if prev.all Token.opensOperand then .negate else .sub)
  else if c = '*' ∨ c = '×' then some .mul
  else if c = '/' ∨ c = '÷' then some .div
  else if c = '^' then some .pow
  else if c = '%' then some .mod
  else none

def readNumber (c : Char) (rest : List Char) : Except LexError (Lexeme × List Char) :=
  let raw := c :: rest.takeWhile isNumberChar
  match Decimal.Numeral.read? raw with
  | some n => .ok (.token (.number n.value), rest.dropWhile isNumberChar)
  | none => .error (.badNumber (String.ofList raw))

def readIdentifier (c : Char) (rest : List Char) : Lexeme × List Char :=
  let name := String.ofList (c :: rest.takeWhile isIdentifierChar)
  (.token ((keyword? name).getD (.unit name)), rest.dropWhile isIdentifierChar)

def readVariable (rest : List Char) : Except LexError (Lexeme × List Char) :=
  let inside := rest.takeWhile fun c => c != '}'
  match rest.dropWhile fun c => c != '}' with
  | [] => .error (.unterminatedVariable (String.ofList ('{' :: rest)))
  | _ :: after =>
    let name := Text.stripChars inside
    if name.isEmpty then .error (.emptyVariable (String.ofList ('{' :: inside ++ ['}'])))
    else .ok (.token (.var (String.ofList name)), after)

/-- The lexeme at the front of `c :: rest`, when `prev` is the last token before it, and what follows. -/
def lexeme (prev : Option Token) (c : Char) (rest : List Char) : Except LexError (Lexeme × List Char) :=
  if Text.isBlank c then .ok (.blank, rest)
  else if c = '(' then .ok (.token .leftParen, rest)
  else if c = ')' then .ok (.token .rightParen, rest)
  else if c = ',' then .ok (.token .comma, rest)
  else if c = '{' then readVariable rest
  else if c = '-' ∧ rest.head? = some '>' then .ok (.token (.operator .convert), rest.tail)
  else if c = 'π' then .ok (.token (.number pi), rest)
  else if c = '<' ∨ c = '>' then .error (.badOperator c)
  else match signOperator? prev c with
    | some op => .ok (.token (.operator op), rest)
    | none =>
      if c.isDigit then readNumber c rest
      else if Text.isLetter c then .ok (readIdentifier c rest)
      else .ok (.unknown c, rest)

theorem dropWhile_length_le {α : Type} (p : α → Bool) (xs : List α) : (xs.dropWhile p).length ≤ xs.length :=
  (List.dropWhile_suffix p).length_le

theorem readVariable_length {rest after : List Char} {l : Lexeme} (h : readVariable rest = .ok (l, after)) :
    after.length ≤ rest.length := by
  unfold readVariable at h
  split at h
  · cases h
  · rename_i c tail hdrop
    dsimp only at h
    split at h
    · cases h
    · injection h with h
      injection h with _ h
      subst h
      have := dropWhile_length_le (fun c => c != '}') rest
      rw [hdrop, List.length_cons] at this
      omega

theorem readNumber_length {c : Char} {rest after : List Char} {l : Lexeme}
    (h : readNumber c rest = .ok (l, after)) : after.length ≤ rest.length := by
  unfold readNumber at h
  dsimp only at h
  split at h
  · injection h with h
    injection h with _ h
    exact h ▸ dropWhile_length_le _ _
  · cases h

theorem readIdentifier_length (c : Char) (rest : List Char) :
    (readIdentifier c rest).2.length ≤ rest.length :=
  dropWhile_length_le _ _

/-- A lexeme leaves no more than what followed its first character. -/
theorem lexeme_length {prev : Option Token} {c : Char} {rest after : List Char} {l : Lexeme}
    (h : lexeme prev c rest = .ok (l, after)) : after.length ≤ rest.length := by
  unfold lexeme at h
  repeat' split at h
  all_goals first
    | exact readVariable_length h
    | exact readNumber_length h
    | (injection h; done)
    | have h : _ = after := congrArg Prod.snd (Except.ok.inj h)
      subst h
      first
        | exact Nat.le_refl _
        | exact readIdentifier_length c rest
        | exact List.length_tail ▸ Nat.sub_le _ _

/-- The outcome of a scan: the tokens and the skipped characters read in order, up to a failure if there is
one. -/
structure Scan where
  tokens : List Token
  skipped : List Char
  failure : Option LexError
  deriving DecidableEq

def Scan.push (s : Scan) : Lexeme → Scan
  | .token t => { s with tokens := t :: s.tokens }
  | .blank => s
  | .unknown c => { s with skipped := c :: s.skipped }

def Lexeme.after (prev : Option Token) : Lexeme → Option Token
  | .token t => some t
  | _ => prev

def scanFrom (prev : Option Token) : List Char → Scan
  | [] => ⟨[], [], none⟩
  | c :: rest =>
    match hl : lexeme prev c rest with
    | .error e => ⟨[], [], some e⟩
    | .ok (l, after) =>
      have := lexeme_length hl
      (scanFrom (l.after prev) after).push l
termination_by cs => cs.length
decreasing_by
  simp only [List.length_cons]
  omega

def scan (cs : List Char) : Scan := scanFrom none cs

def tokenize (cs : List Char) : Except LexError (List Token) :=
  match (scan cs).failure with
  | some e => .error e
  | none => .ok (scan cs).tokens

end Metrology.Formula
