import Metrology.Proofs.Decimal.RoundTrip
import Metrology.Proofs.Formula.Completeness
import Metrology.Proofs.Formula.Concatenation
import Metrology.Proofs.Over.Inverse

/-! # Rendered trees are read back

The text of a tree has an operand between parentheses wherever the grammar could take it apart, a negation
excepted, so its tokens are read as the tree again. Only a number below zero comes back in another form, as
the negation of the number above zero: the text of a number has no sign among its digits.
-/
namespace Metrology.Formula

open Decimal (plain)

namespace Tree

mutual

def tokens : Tree → List Token
  | .number value =>
    if value ≥ 0.0 then [.number value] else [.leftParen, .operator .negate, .number (-value), .rightParen]
  | .var name => [.var name]
  | .binary op left right => .leftParen :: (left.tokens ++ .operator op :: (right.tokens ++ [.rightParen]))
  | .unary _ operand => .operator .negate :: operand.tokens
  | .call f args => .function f :: .leftParen :: ([Token.comma].intercalate (tokensAll args) ++ [.rightParen])

def tokensAll : List Tree → List (List Token)
  | [] => []
  | t :: rest => t.tokens :: tokensAll rest

end

mutual

/-- The tree with each number below zero as the negation of one above zero. -/
def signed : Tree → Tree
  | .number value => if value ≥ 0.0 then .number value else .unary .negate (.number (-value))
  | .var name => .var name
  | .binary op left right => .binary op left.signed right.signed
  | .unary op operand => .unary op operand.signed
  | .call f args => .call f (signedAll args)

def signedAll : List Tree → List Tree
  | [] => []
  | t :: rest => t.signed :: signedAll rest

end

def isUnary : Tree → Bool
  | .unary _ _ => true
  | _ => false

/-- Trees whose text says what they are: names that can stand in braces, finite numbers that are written
without an exponent and are not the zero with a sign, operators and calls that can be carried out, and powers
of what is no negation. -/
inductive Printable : Tree → Prop
  | number {value : Float} (hfinite : value.isFinite = true) (hzero : value ≠ -0.0)
      (hplain : 'e' ∉ (plain value).toList) :
      Printable (.number value)
  | var {name : String} (hne : name ≠ "") (hstrip : Text.strip name = name) (hbrace : '}' ∉ name.toList) :
      Printable (.var name)
  | binary {op : Operator} {l r : Tree} (hop : op.apply?.isSome = true) (hbase : op = .pow → l.isUnary = false)
      (hl : Printable l) (hr : Printable r) : Printable (.binary op l r)
  | negated {t : Tree} (ht : Printable t) : Printable (.unary .negate t)
  | call {f : Function} {args : List Tree} (hne : args ≠ []) (harity : f.variadic = true ∨ args.length = 1)
      (hargs : ∀ t ∈ args, Printable t) : Printable (.call f args)

theorem tokensAll_eq_map (ts : List Tree) : tokensAll ts = ts.map tokens := by
  induction ts with
  | nil => rfl
  | cons t rest ih => rw [tokensAll, ih, List.map_cons]

theorem signedAll_eq_map (ts : List Tree) : signedAll ts = ts.map signed := by
  induction ts with
  | nil => rfl
  | cons t rest ih => rw [signedAll, ih, List.map_cons]

theorem renderAll_eq_map (ts : List Tree) : renderAll ts = ts.map render := by
  induction ts with
  | nil => rfl
  | cons t rest ih => rw [renderAll, ih, List.map_cons]

variable {t : Tree} {bind : Bindings}

/-! ## Names and values -/

theorem namesAll_signed {ts : List Tree} (h : ∀ t ∈ ts, t.signed.names = t.names) :
    namesAll (signedAll ts) = namesAll ts := by
  induction ts with
  | nil => rfl
  | cons t rest ih =>
    obtain ⟨ht, hrest⟩ := List.forall_mem_cons.mp h
    rw [signedAll, namesAll, namesAll, ht, ih hrest]

theorem evalAll_signed {ts : List Tree} (h : ∀ t ∈ ts, t.signed.eval bind = t.eval bind) :
    evalAll bind (signedAll ts) = evalAll bind ts := by
  induction ts with
  | nil => rfl
  | cons t rest ih =>
    obtain ⟨ht, hrest⟩ := List.forall_mem_cons.mp h
    simp only [signedAll, evalAll, ht, ih hrest]

theorem Printable.names_signed (h : t.Printable) : t.signed.names = t.names := by
  induction h with
  | @number value =>
    unfold signed
    split <;> rfl
  | var => rfl
  | binary _ _ _ _ ihl ihr => rw [signed, names, names, ihl, ihr]
  | negated _ ih => rw [signed, names, names, ih]
  | call _ _ _ ih => rw [signed, names, names, namesAll_signed ih]

theorem Printable.vars_signed (h : t.Printable) : t.signed.vars = t.vars := by
  rw [vars, vars, h.names_signed]

theorem Printable.eval_signed (h : t.Printable) (bind : Bindings) : t.signed.eval bind = t.eval bind := by
  induction h with
  | @number value =>
    unfold signed
    split
    · rfl
    · simp only [eval, Decimal.neg_neg_double]
  | var => rfl
  | binary _ _ _ _ ihl ihr => simp only [signed, eval, ihl, ihr]
  | negated _ ih => simp only [signed, eval, ih]
  | call _ _ _ ih => simp only [signed, eval, evalAll_signed ih]

/-! ## The grammar of the tokens -/

/-- A rendered tree is an operand of every operator on both sides, but for a negation as the base of a
power. -/
theorem Printable.derives (h : t.Printable) :
    Derives .power t.tokens t.signed ∧ (t.isUnary = false → Derives .atom t.tokens t.signed) := by
  -- What is between parentheses or stands alone is an atom.
  have hatom : ∀ {t : Tree}, Derives .atom t.tokens t.signed →
      Derives .power t.tokens t.signed ∧ (t.isUnary = false → Derives .atom t.tokens t.signed) :=
    fun h => ⟨.ofAtom h, fun _ => h⟩
  induction h with
  | @number value =>
    apply hatom
    unfold tokens signed
    split
    · exact .number value
    · exact .group (.ofProduct (.ofPower (.negated (.ofAtom (.number (-value))))))
  | @var name => exact hatom (.var name)
  | @binary op l r hop hbase _ _ ihl ihr =>
    apply hatom
    have hleft := ihl.1
    have hright := ihr.1
    have hsum : Derives .sum (l.tokens ++ .operator op :: r.tokens) (.binary op l.signed r.signed) := by
      cases op with
      | add => exact .sum (.inl rfl) (.ofProduct (.ofPower hleft)) (.ofPower hright)
      | sub => exact .sum (.inr rfl) (.ofProduct (.ofPower hleft)) (.ofPower hright)
      | mul => exact .ofProduct (.product (.inl rfl) (.ofPower hleft) hright)
      | div => exact .ofProduct (.product (.inr (.inl rfl)) (.ofPower hleft) hright)
      | mod => exact .ofProduct (.product (.inr (.inr rfl)) (.ofPower hleft) hright)
      | pow => exact .ofProduct (.ofPower (.power (ihl.2 (hbase rfl)) hright))
      | negate => cases hop
      | convert => cases hop
    simpa [tokens, signed] using Derives.group hsum
  | negated _ ih => exact ⟨.negated ih.1, by simp [isUnary]⟩
  | @call f args hne harity _ ih =>
    apply hatom
    have hpairs : Derives .atom _ _ := @Derives.call f (args.map fun t => (t.tokens, t.signed)) (by simpa using hne)
      (by simpa using harity) (by
        intro a ha
        obtain ⟨t, ht, rfl⟩ := List.mem_map.mp ha
        exact .ofProduct (.ofPower (ih t ht).1))
    simpa [tokens, signed, tokensAll_eq_map, signedAll_eq_map, Function.comp_def] using hpairs

end Tree

/-! ## The scan of the text -/

variable {prev : Option Token} {xs ys : List Char} {ts us : List Token}

theorem Passes.scans {prev' : Option Token} {left : List Char} (h : Passes prev xs ts prev' left)
    (hrest : Scans prev' left us) :
    Scans prev xs (ts ++ us) := by
  induction h with
  | stay => exact hrest
  | read hreads _ ih =>
    rw [List.append_assoc]
    exact .read hreads (ih hrest)

/-- Two texts with a separator between them are scanned one after the other. -/
theorem Scans.append {b : Char} (h : Scans prev xs ts) (hb : Separates b)
    (hrest : Scans (lastToken prev ts) (b :: ys) us) :
    Scans prev (xs ++ b :: ys) (ts ++ us) := (h.passes hb ys).scans hrest

theorem Scans.head_ne (h : Scans prev xs ts) : xs.head? ≠ some '>' := by
  cases h with
  | done => simp
  | read hreads =>
    intro hhead
    obtain rfl := Option.some.inj hhead
    have hok := lexeme_eq_ok.mpr hreads
    cases hok

def Closes (ts : List Token) : Prop := ∃ t, ts.getLast? = some t ∧ t.opensOperand = false

theorem closes_concat (ts : List Token) : Closes (ts ++ [.rightParen]) := ⟨.rightParen, by simp, rfl⟩

theorem Closes.cons (h : Closes ts) (t : Token) : Closes (t :: ts) := by
  obtain ⟨last, hlast, hopens⟩ := h
  exact ⟨last, by simp [List.getLast?_cons, hlast], hopens⟩

theorem Closes.append (h : Closes us) (ts : List Token) : Closes (ts ++ us) := by
  obtain ⟨last, hlast, hopens⟩ := h
  exact ⟨last, by simp [hlast], hopens⟩

theorem Tree.Printable.closes {t : Tree} (h : t.Printable) : Closes t.tokens := by
  induction h with
  | @number value =>
    unfold tokens
    split
    · exact ⟨_, rfl, rfl⟩
    · exact ⟨_, rfl, rfl⟩
  | var => exact ⟨_, rfl, rfl⟩
  | @binary op l r =>
    have hlast := (((closes_concat r.tokens).cons (.operator op)).append l.tokens).cons .leftParen
    exact hlast
  | negated _ ih => exact ih.cons _
  | call => exact ((closes_concat _).cons _).cons _

theorem separates_blank : Separates ' ' := separates_of_isBlank rfl

theorem separates_leftParen : Separates '(' := ⟨rfl, rfl, by decide⟩

theorem separates_rightParen : Separates ')' := ⟨rfl, rfl, by decide⟩

theorem separates_comma : Separates ',' := ⟨rfl, rfl, by decide⟩

theorem scans_rightParen : Scans prev [')'] [.rightParen] := .read (.rightParen rfl) .done

theorem scans_blank (h : Scans prev ys us) : Scans prev (' ' :: ys) us := .read (.blank rfl) h

theorem scans_operator {op : Operator} (hfits : Token.Fits prev (.operator op))
    (h : Scans (some (.operator op)) ys us) :
    Scans prev (op.sign.toList ++ ' ' :: ys) (.operator op :: us) := by
  obtain ⟨c, rest, hsign, hreads⟩ := reads_operator hfits
  have hscan : Scans prev (c :: rest) [.operator op] := .read hreads .done
  rw [hsign]
  exact hscan.append separates_blank (scans_blank h)

theorem scans_negate (hprev : prev.all Token.opensOperand = true) (h : Scans (some (.operator .negate)) ys us) :
    Scans prev ('-' :: ys) (.operator .negate :: us) := by
  have hop : signOperator? prev '-' = some .negate := by simp [signOperator?, isMinus, hprev]
  have hsign : Reads prev '-' ys (.token (.operator .negate)) ys := .sign hop fun harrow => h.head_ne harrow.2
  exact .read hsign h

/-- The text of a number that is not below zero is scanned as this number. -/
theorem scans_plain {x : Float} {m : Nat} {e : Int} (hx : Decimal.Double.ofFloat x = .finite false m e)
    (hplain : 'e' ∉ (plain x).toList) : Scans prev (plain x).toList [.number x] := by
  obtain ⟨c, more, htext, hc, hmore⟩ := Decimal.exists_plain hx hplain
  obtain ⟨n, hread, hvalue⟩ := Decimal.exists_read?_plain (Decimal.isFinite_of_ofFloat hx)
  have hchars : ∀ d ∈ more, isNumberChar d = true := by
    intro d hd
    rcases hmore d hd with hdigit | rfl
    · simp [isNumberChar, hdigit]
    · rfl
  rw [htext] at hread ⊢
  have hreads : Reads prev c more (.token (.number n.value)) [] :=
    .number hc (more.append_nil).symm hchars (by simp) hread
  rw [hvalue] at hreads
  exact .read hreads .done

theorem Tree.Printable.scans_number {x : Float} (hfinite : x.isFinite = true) (hzero : x ≠ -0.0)
    (hplain : 'e' ∉ (plain x).toList) :
    Scans prev (Tree.number x).render.toList (Tree.number x).tokens := by
  unfold render renderNumber tokens
  rcases Decimal.unsigned_or_neg hfinite hzero with ⟨hge, m, e, hx⟩ | ⟨hlt, m, e, hx⟩
  · rw [if_pos hge, if_pos hge]
    exact scans_plain hx hplain
  · have htext : (plain x).toList = '-' :: (plain (-x)).toList := by
      rw [← Decimal.plain_neg hx, Decimal.neg_neg_double]
    have hopposite : 'e' ∉ (plain (-x)).toList := by
      rw [htext] at hplain
      exact fun hmem => hplain (List.mem_cons_of_mem _ hmem)
    rw [if_neg hlt, if_neg hlt]
    simp only [String.toList_append, htext]
    have hdigits : Scans (some (.operator .negate)) ((plain (-x)).toList ++ [')']) ([.number (-x)] ++ [.rightParen]) :=
      (scans_plain hx hopposite).append separates_rightParen scans_rightParen
    exact .read (.leftParen rfl) (scans_negate rfl hdigits)

theorem scans_var {name : String} (hne : name ≠ "") (hstrip : Text.strip name = name) (hbrace : '}' ∉ name.toList) :
    Scans prev (Tree.var name).render.toList [.var name] := by
  have hlegible : (Token.var name).Legible := ⟨hne, hstrip, hbrace⟩
  have hfits : Token.Fits prev (.var name) := fits_of_ne nofun nofun
  obtain ⟨c, rest, hspelled, hreads⟩ := (Spells.var name).reads hlegible hfits
  have htext : (Tree.var name).render.toList = '{' :: name.toList ++ ['}'] := by
    rw [Tree.render, String.toList_append, String.toList_append]
    rfl
  rw [htext, hspelled]
  exact .read hreads .done

/-- Arguments are scanned up to the parenthesis behind them, each one as a tree of its own. -/
theorem scans_arguments {args : List Tree} (hne : args ≠ []) (hprev : prev.all Token.opensOperand = true)
    (h : ∀ t ∈ args, ∀ prev : Option Token, prev.all Token.opensOperand = true → Scans prev t.render.toList t.tokens) :
    Scans prev ([',', ' '].intercalate (args.map fun t => t.render.toList) ++ [')'])
      ([Token.comma].intercalate (args.map Tree.tokens) ++ [.rightParen]) := by
  induction args generalizing prev with
  | nil => exact absurd rfl hne
  | cons t rest ih =>
    obtain ⟨ht, hrest⟩ := List.forall_mem_cons.mp h
    cases rest with
    | nil => simpa using (ht prev hprev).append separates_rightParen scans_rightParen
    | cons u others =>
      have hnext : (some Token.comma).all Token.opensOperand = true := rfl
      have hmore := ih (by simp) hnext hrest
      have hcomma := (ht prev hprev).append separates_comma (.read (.comma rfl) (scans_blank hmore))
      simpa [List.intercalate_cons_cons, Lexeme.tokens] using hcomma

theorem Tree.Printable.scans {t : Tree} (h : t.Printable) (hprev : prev.all Token.opensOperand = true) :
    Scans prev t.render.toList t.tokens := by
  induction h generalizing prev with
  | number hfinite hzero hplain => exact scans_number hfinite hzero hplain
  | var hne hstrip hbrace => exact scans_var hne hstrip hbrace
  | @binary op l r hop _ hleft _ ihl ihr =>
    have hfits : Token.Fits (lastToken (some .leftParen) l.tokens) (.operator op) := by
      obtain ⟨last, hlast, hopens⟩ := hleft.closes
      constructor
      · rintro hnegate
        cases hnegate
        cases hop
      · intro _
        simp [lastToken, hlast, hopens]
    have hr : Scans (some (.operator op)) r.render.toList r.tokens := ihr rfl
    have hl : Scans (some .leftParen) l.render.toList l.tokens := ihl rfl
    have hright := hr.append separates_rightParen scans_rightParen
    have hleft := hl.append separates_blank (scans_blank (scans_operator hfits hright))
    have htext : (Tree.binary op l r).render.toList =
        '(' :: (l.render.toList ++ ' ' :: (op.sign.toList ++ ' ' :: (r.render.toList ++ [')']))) := by
      simp [Tree.render]
    rw [htext]
    exact .read (.leftParen rfl) hleft
  | @negated t _ ih =>
    have htext : (Tree.unary .negate t).render.toList = '-' :: t.render.toList := by simp [Tree.render]
    rw [htext]
    exact scans_negate hprev (ih rfl)
  | @call f args hne _ _ ih =>
    obtain ⟨c, rest, hname, hreads⟩ := @reads_function prev f
    have hopens : (some Token.leftParen).all Token.opensOperand = true := rfl
    have harguments := scans_arguments hne hopens fun t ht prev hprev => ih t ht hprev
    have hfunction : Scans prev (c :: rest) [.function f] := .read hreads .done
    have hcall := hfunction.append separates_leftParen (.read (.leftParen rfl) harguments)
    have htext : (Tree.call f args).render.toList =
        c :: rest ++ '(' :: ([',', ' '].intercalate (args.map fun t => t.render.toList) ++ [')']) := by
      simp [Tree.render, hname, String.toList_intercalate, Tree.renderAll_eq_map, Function.comp_def]
    rw [htext, Tree.tokens, Tree.tokensAll_eq_map]
    exact hcall

/-! ## Trees of terms -/

inductive Tree.Unnegated : Tree → Prop
  | number (value : Float) : Unnegated (.number value)
  | var (name : String) : Unnegated (.var name)
  | binary {op : Operator} {l r : Tree} (hl : Unnegated l) (hr : Unnegated r) : Unnegated (.binary op l r)
  | call {f : Function} {args : List Tree} (hargs : ∀ t ∈ args, Unnegated t) : Unnegated (.call f args)

/-- Terms are written without negations; a number below zero is a number. -/
theorem Tree.unnegated_toTree (s : Algebra.Term) : ∀ t : Tree, s.toTree = .ok t → t.Unnegated := by
  induction s using Algebra.Term.nested_induction with
  | num | imaginary | infinite | undefined | auxiliary =>
    intro t ht
    obtain ⟨value, rfl⟩ := Algebra.Term.toTree_leaf_eq_ok ht
    exact .number value
  | var name =>
    intro t ht
    obtain ⟨value, rfl⟩ | rfl := Algebra.Term.toTree_var_eq_ok ht
    · exact .number value
    · exact .var name
  | pow b e ihb ihe =>
    intro t ht
    obtain ⟨value, rfl⟩ | ⟨l, hl, rfl | ⟨r, hr, rfl⟩⟩ := Algebra.Term.toTree_pow_eq_ok ht
    · exact .number value
    · exact .binary (.number 1.0) (ihb l hl)
    · exact .binary (ihb l hl) (ihe r hr)
  | mul ss ih =>
    intro t ht
    obtain ⟨value, rfl⟩ | ⟨trees, htrees, rfl⟩ := Algebra.Term.toTree_mul_eq_ok ht
    · exact .number value
    · exact Algebra.Term.joined_of_forall (.number 0.0) (fun _ _ => .binary) (Algebra.Term.toTrees_eq_ok ih htrees).2
  | add ss ih =>
    intro t ht
    obtain ⟨value, rfl⟩ | ⟨trees, htrees, rfl⟩ := Algebra.Term.toTree_add_eq_ok ht
    · exact .number value
    · exact Algebra.Term.joined_of_forall (.number 0.0) (fun _ _ => .binary) (Algebra.Term.toTrees_eq_ok ih htrees).2
  | call f ss ih =>
    intro t ht
    obtain ⟨value, rfl⟩ | ⟨trees, htrees, htree⟩ := Algebra.Term.toTree_call_eq_ok ht
    · exact .number value
    · have hall := (Algebra.Term.toTrees_eq_ok ih htrees).2
      obtain ⟨l, r, rfl, rfl⟩ | ⟨g, rfl⟩ := htree
      · exact .binary (hall l (by simp)) (hall r (by simp))
      · exact .call hall

/-- What a tree prints is read as the tree, its numbers below zero as negations. So the text has the names of
the tree, and its value under all bindings. Trees that terms are written as have no negations before they are
printed. -/
theorem read_render :
    (∀ t : Tree, t.Printable →
      tokenize t.render.toList = .ok t.tokens ∧ parse t.tokens = .ok t.signed ∧
      Formula.read (Formula.ofTree t).text = .ok ⟨(Formula.ofTree t).text, t.signed⟩ ∧
      t.signed.vars = (Formula.ofTree t).vars ∧ ∀ bind, t.signed.eval bind = (Formula.ofTree t).value bind) ∧
    ∀ (s : Algebra.Term) (t : Tree), s.toTree = .ok t → t.Unnegated := by
  refine ⟨?_, Tree.unnegated_toTree⟩
  intro t h
  have htokens : tokenize t.render.toList = .ok t.tokens := tokenize_eq_ok.mpr (h.scans rfl)
  have hparse : parse t.tokens = .ok t.signed := (Derives.ofProduct (.ofPower h.derives.1)).parse_eq
  refine ⟨htokens, hparse, ?_, h.vars_signed, h.eval_signed⟩
  simp only [Formula.read, parseText, Formula.ofTree, htokens, hparse]

/-- Negations on both sides of an operator and a number below zero as the base of a power. -/
theorem read_render_negations :
    (∃ t : Tree, t.Printable ∧ t.render = "(-2.5 - max(\x7ba b\x7d, ((-2.0) ^ -\x7bx\x7d)))" ∧
      Formula.read t.render = .ok ⟨t.render, .binary .sub (.unary .negate (.number 2.5))
        (.call .max [.var "a b", .binary .pow (.unary .negate (.number 2.0)) (.unary .negate (.var "x"))])⟩) ∧
      (Algebra.Term.mul [.num (-1), .var "y"]).toTree = .ok (.binary .mul (.number (-1.0)) (.var "y")) ∧
      (Tree.binary .mul (.number (-1.0)) (.var "y")).Unnegated := by
  let t : Tree := .binary .sub (.unary .negate (.number 2.5))
    (.call .max [.var "a b", .binary .pow (.number (-2.0)) (.unary .negate (.var "x"))])
  have hnumber : (Tree.number 2.5).Printable := .number (by decide +kernel) (by decide +kernel) (by decide +kernel)
  have hbase : (Tree.number (-2.0)).Printable := .number (by decide +kernel) (by decide +kernel) (by decide +kernel)
  have hname : (Tree.var "a b").Printable := .var (by decide) (by decide +kernel) (by decide)
  have hx : (Tree.var "x").Printable := .var (by decide) (by decide +kernel) (by decide)
  have hpower : (Tree.binary .pow (.number (-2.0)) (.unary .negate (.var "x"))).Printable :=
    .binary rfl (fun _ => rfl) hbase (.negated hx)
  have hcall : (Tree.call .max [.var "a b", .binary .pow (.number (-2.0)) (.unary .negate (.var "x"))]).Printable :=
    .call (by simp) (.inl rfl) (List.forall_mem_cons.mpr ⟨hname, List.forall_mem_singleton.mpr hpower⟩)
  have hprintable : t.Printable := .binary rfl nofun (.negated hnumber) hcall
  have habove : (2.5 : Float) ≥ 0.0 := by decide +kernel
  have hbelow : ¬ (-2.0 : Float) ≥ 0.0 := by decide +kernel
  have hsigned : t.signed = .binary .sub (.unary .negate (.number 2.5))
      (.call .max [.var "a b", .binary .pow (.unary .negate (.number 2.0)) (.unary .negate (.var "x"))]) := by
    simp only [t, Tree.signed, Tree.signedAll, if_pos habove, if_neg hbelow, Decimal.neg_neg_double]
  have hread := (read_render.1 t hprintable).2.2.1
  rw [hsigned] at hread
  exact ⟨⟨t, hprintable, by decide +kernel, hread⟩, rfl, read_render.2 (.mul [.num (-1), .var "y"]) _ rfl⟩

end Metrology.Formula
