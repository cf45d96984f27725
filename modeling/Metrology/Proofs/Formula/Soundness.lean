import Metrology.Proofs.Formula.Completeness
import Metrology.Proofs.Formula.Placement

/-! # What is parsed is a sentence of the grammar

While every operand stands where one is due, the stacks spell the tokens read so far: an operator waits behind
the phrase on its left, an open parenthesis behind the arguments that have been finished, and every reduction
joins phrases by the rule of the grammar for the operator. An operand that directly follows another is the one
thing that a count does not notice.
-/
namespace Metrology.Formula

theorem Phrase.sum_rank_le (p : Phrase) : sum.rank ≤ p.rank := by cases p <;> decide

/-- The phrase that an operator makes. The arrow makes none, but it waits and is waited for like an operator
of sums. -/
def Operator.phrase : Operator → Phrase
  | .convert | .add | .sub => .sum
  | .mul | .div | .mod => .product
  | .pow | .negate => .power

def Operator.leftPhrase : Operator → Phrase
  | .pow => .atom
  | op => op.phrase

def Operator.rightPhrase : Operator → Phrase
  | .convert => .sum
  | .add | .sub => .product
  | .mul | .div | .mod | .pow | .negate => .power

theorem Operator.yieldsTo_eq_false_iff (waiting next : Operator) :
    waiting.yieldsTo next = false ↔ waiting.rightPhrase.rank ≤ next.rank := by
  cases waiting <;> cases next <;> decide

theorem Operator.leftPhrase_rank_le {waiting next : Operator} (hne : next ≠ .negate)
    (h : waiting.yieldsTo next = true) : next.leftPhrase.rank ≤ waiting.phrase.rank := by
  cases waiting <;> cases next <;> first | decide | simp_all [yieldsTo, rank, groupsLeft]

theorem Operator.rank_le_phrase (op : Operator) : op.rank ≤ op.phrase.rank := by cases op <;> decide

theorem Operator.rightPhrase_rank_le (op : Operator) : op.rightPhrase.rank ≤ 4 := by cases op <;> decide

theorem Operator.derives_binary {op : Operator} (hnegate : op ≠ .negate) (hconvert : op ≠ .convert) {xs ys : List Token}
    {l r : Tree} (hl : Derives op.leftPhrase xs l) (hr : Derives op.rightPhrase ys r) :
    Derives op.phrase (xs ++ .operator op :: ys) (.binary op l r) := by
  cases op with
  | add => exact .sum (Or.inl rfl) hl hr
  | sub => exact .sum (Or.inr rfl) hl hr
  | mul => exact .product (Or.inl rfl) hl hr
  | div => exact .product (Or.inr (Or.inl rfl)) hl hr
  | mod => exact .product (Or.inr (Or.inr rfl)) hl hr
  | pow => exact .power hl hr
  | negate => exact absurd rfl hnegate
  | convert => exact absurd rfl hconvert

/-- An operator on top takes a phrase of this rank for its right operand. -/
def Waits (rank : Nat) : List Pending → Prop
  | .operator op :: _ => op.rightPhrase.rank ≤ rank
  | _ => True

theorem waits_of_four_le {rank : Nat} (h : 4 ≤ rank) (pending : List Pending) : Waits rank pending := by
  match pending with
  | .operator op :: _ => exact Nat.le_trans op.rightPhrase_rank_le h
  | .function _ :: _ => trivial
  | .group _ _ :: _ => trivial
  | [] => trivial

theorem Waits.mono {m n : Nat} {pending : List Pending} (h : Waits m pending) (hle : m ≤ n) : Waits n pending := by
  match pending with
  | .operator _ :: _ => exact Nat.le_trans h hle
  | .function _ :: _ => trivial
  | .group _ _ :: _ => trivial
  | [] => trivial

inductive Opened : List Token → List Tree → List Pending → Prop where
  | start : Opened [] [] []
  | negate {ts : List Token} {out : List Tree} {pending : List Pending} (h : Opened ts out pending) :
      Opened (ts ++ [.operator .negate]) out (.operator .negate :: pending)
  | binary {op : Operator} {ts xs : List Token} {x : Tree} {out : List Tree} {pending : List Pending}
      (h : Opened ts out pending) (hne : op ≠ .negate) (hx : Derives op.leftPhrase xs x)
      (hwait : Waits op.rank pending) :
      Opened (ts ++ xs ++ [.operator op]) (x :: out) (.operator op :: pending)
  | function (f : Function) {ts : List Token} {out : List Tree} {pending : List Pending} (h : Opened ts out pending) :
      Opened (ts ++ [.function f]) out (.function f :: pending)
  | group (args : List (List Token × Tree)) {ts : List Token} {out : List Tree} {pending : List Pending}
      (h : Opened ts out pending) (hargs : ∀ a ∈ args, Derives .sum a.1 a.2) :
      Opened (ts ++ .leftParen :: args.flatMap fun a => a.1 ++ [.comma]) ((args.map Prod.snd).reverse ++ out)
        (.group out.length (args.length + 1) :: pending)

inductive Holds (p : Phrase) : List Token → List Tree → List Pending → Prop where
  | intro {ts xs : List Token} {x : Tree} {out : List Tree} {pending : List Pending} (h : Opened ts out pending)
      (hx : Derives p xs x) (hwait : Waits p.rank pending) : Holds p (ts ++ xs) (x :: out) pending

theorem intercalate_concat (args : List (List Token × Tree)) (xs : List Token) :
    [Token.comma].intercalate (args.map Prod.fst ++ [xs]) = (args.flatMap fun a => a.1 ++ [.comma]) ++ xs := by
  induction args with
  | nil => simp
  | cons a more ih =>
    rw [List.map_cons, List.cons_append, List.intercalate_cons_of_ne_nil (by simp), ih]
    simp

theorem derives_concat {args : List (List Token × Tree)} {xs : List Token} {x : Tree}
    (hargs : ∀ a ∈ args, Derives .sum a.1 a.2) (hx : Derives .sum xs x) :
    ∀ a ∈ args ++ [(xs, x)], Derives .sum a.1 a.2 := by
  intro a ha
  rcases List.mem_append.mp ha with ha | ha
  · exact hargs a ha
  · rw [List.mem_singleton.mp ha]
    exact hx

namespace Holds

variable {p : Phrase} {ts : List Token} {out : List Tree} {pending : List Pending}

theorem reduce {op : Operator} {ys : List Tree} (h : Holds p ts out (.operator op :: pending))
    (hred : reduceOperator op out = .ok ys) : Holds op.phrase ts ys pending := by
  obtain ⟨hopen, hx, hwait⟩ := h
  have hright := hx.loosen hwait
  -- `Opened` recalls what the operator was pushed behind: its left operand, or nothing if it negates.
  cases hopen with
  | negate hopen =>
    cases hred
    rw [List.append_assoc]
    exact ⟨hopen, .negated hright, waits_of_four_le (Nat.le_refl _) _⟩
  | binary hopen hne hl hwait =>
    rcases reduceOperator_eq_ok hred with ⟨rfl, -⟩ | ⟨-, hconvert, l, r, rest, hout, rfl⟩
    · exact absurd rfl hne
    · cases hout
      rw [List.append_assoc, List.append_assoc]
      exact ⟨hopen, Operator.derives_binary hne hconvert hl hright, hwait.mono op.rank_le_phrase⟩

/-- Reductions one after another leave a phrase at least as tight as the loosest one that is made on the
way. -/
theorem reduceAll {ops : List Operator} {ys : List Tree} {rank : Nat}
    (h : Holds p ts out (ops.map .operator ++ pending))
    (hp : rank ≤ p.rank) (hops : ∀ op ∈ ops, rank ≤ op.phrase.rank) (hred : reduceAll ops out = .ok ys) :
    ∃ q : Phrase, rank ≤ q.rank ∧ Holds q ts ys pending := by
  induction ops generalizing p out with
  | nil =>
    cases hred
    exact ⟨p, hp, h⟩
  | cons op ops ih =>
    obtain ⟨zs, hop, hred⟩ := reduceAll_cons_eq_ok hred
    exact ih (h.reduce hop) (hops op List.mem_cons_self) (fun o ho => hops o (List.mem_cons_of_mem _ ho)) hred

/-- After the reductions before a binary operator its left operand is on top. -/
theorem reduceBefore {op : Operator} {s : Stacks} (h : Holds p ts out pending) (hne : op ≠ .negate)
    (hp : op.leftPhrase.rank ≤ p.rank) (hred : reduceBefore op out pending = .ok s) :
    Opened (ts ++ [.operator op]) s.operands (.operator op :: s.pending) := by
  obtain ⟨ops, hpending, hred, hops, hstop⟩ := reduceBefore_eq_ok hred
  rw [hpending] at h
  obtain ⟨q, hq, h⟩ := h.reduceAll hp (fun w hw => Operator.leftPhrase_rank_le hne (hops w hw)) hred
  have hwait : Waits op.rank s.pending := by
    match hs : s.pending with
    | .operator w :: rest => exact (w.yieldsTo_eq_false_iff op).mp (hstop w rest hs)
    | .function _ :: _ => trivial
    | .group _ _ :: _ => trivial
    | [] => trivial
  generalize s.operands = xs at h
  obtain ⟨hopen, hx, -⟩ := h
  exact .binary hopen hne (hx.loosen hq) hwait

/-- Everything above the innermost parenthesis is one sum. -/
theorem reduceGroup {s : Stacks} (h : Holds p ts out pending) (hred : reduceGroup out pending = .ok s) :
    Holds .sum ts s.operands s.pending := by
  obtain ⟨ops, hpending, hred, hstop⟩ := reduceGroup_eq_ok hred
  rw [hpending] at h
  obtain ⟨q, hq, h⟩ := h.reduceAll p.sum_rank_le (fun w _ => w.phrase.sum_rank_le) hred
  have hwait : Waits Phrase.sum.rank s.pending := by
    rcases hstop with hstop | ⟨mark, places, rest, hstop⟩ <;> rw [hstop] <;> trivial
  generalize s.operands = xs at h ⊢
  obtain ⟨hopen, hx, -⟩ := h
  exact ⟨hopen, hx.loosen hq, hwait⟩

theorem comma {mark places : Nat} (h : Holds .sum ts out (.group mark places :: pending)) :
    Opened (ts ++ [.comma]) out (.group mark (places + 1) :: pending) := by
  obtain ⟨hopen, hx, -⟩ := h
  rename_i xs x _
  cases hopen with
  | group args hopen hargs =>
    simpa using Opened.group (args ++ [(xs, x)]) hopen (derives_concat hargs hx)

/-- A closed group is an atom: a call with its arguments if a function waits before it, else the sum
inside. -/
theorem close {mark places : Nat} {s : Stacks} (h : Holds .sum ts out (.group mark places :: pending))
    (hclose : closeGroup mark places out pending = .ok s) : Holds .atom (ts ++ [.rightParen]) s.operands s.pending := by
  obtain ⟨hopen, hx, -⟩ := h
  rename_i xs x _
  cases hopen with
  | @group args ts before _ hopen hargs =>
    rcases closeGroup_eq_ok hclose with ⟨f, rest, ys, rfl, hcall, rfl⟩ | ⟨-, hplaces, rfl⟩
    · obtain ⟨-, -, harity, rfl⟩ := reduceCall_eq_ok hcall
      cases hopen with
      | function _ hopen =>
        have hlength : ((args.map Prod.snd).reverse).length = args.length := by simp
        have hatom := Holds.intro hopen (.call (f := f) (by simp) (by simpa using harity) (derives_concat hargs hx))
          (waits_of_four_le (by decide) _)
        simpa [intercalate_concat, List.take_left' hlength, List.drop_left' hlength] using hatom
    · obtain rfl : args = [] := List.eq_nil_of_length_eq_zero (by omega)
      have hatom := Holds.intro hopen (.group hx) (waits_of_four_le (by decide) _)
      simpa using hatom

end Holds

def Reaches (due : Bool) (ts : List Token) (s : Stacks) : Prop :=
  match due with
  | true => Opened ts s.operands s.pending
  | false => Holds .atom ts s.operands s.pending

namespace Reaches

variable {due : Bool} {ts : List Token} {s s' : Stacks}

theorem step {t : Token} (h : Reaches due ts s) (ht : t.startsOperand = due) (hstep : s.step t = .ok s') :
    Reaches (!t.endsOperand) (ts ++ [t]) s' := by
  cases t with
  | number value =>
    obtain rfl : true = due := ht
    cases hstep
    exact Holds.intro h (.number value) (waits_of_four_le (by decide) _)
  | var name =>
    obtain rfl : true = due := ht
    cases hstep
    exact Holds.intro h (.var name) (waits_of_four_le (by decide) _)
  | unit name =>
    obtain rfl : true = due := ht
    cases hstep
    exact Holds.intro h (.unit name) (waits_of_four_le (by decide) _)
  | function f =>
    obtain rfl : true = due := ht
    cases hstep
    exact Opened.function f h
  | leftParen =>
    obtain rfl : true = due := ht
    cases hstep
    exact Opened.group [] h (by simp)
  | operator op =>
    obtain ⟨r, hred, rfl⟩ := Stacks.step_operator_eq_ok hstep
    by_cases hop : op = .negate
    · subst hop
      obtain rfl : true = due := ht
      rw [reduceBefore_of_groupsRight rfl] at hred
      cases hred
      exact Opened.negate h
    · obtain rfl : false = due := by simpa [Token.startsOperand, hop] using ht
      exact Holds.reduceBefore h hop (by cases op <;> decide) hred
  | comma =>
    obtain rfl : false = due := ht
    obtain ⟨xs, mark, places, rest, hred, rfl⟩ := Stacks.step_comma_eq_ok hstep
    exact (Holds.reduceGroup h hred).comma
  | rightParen =>
    obtain rfl : false = due := ht
    obtain ⟨xs, mark, places, rest, hred, hclose⟩ := Stacks.step_rightParen_eq_ok hstep
    exact (Holds.reduceGroup h hred).close hclose

theorem run {rest : List Token} (h : Reaches due ts s) (hplaced : Placed due rest) (hrun : s.run rest = .ok s') :
    Reaches false (ts ++ rest) s' := by
  induction rest generalizing due ts s with
  | nil =>
    obtain rfl : due = false := hplaced
    cases hrun
    rwa [List.append_nil]
  | cons t rest ih =>
    obtain ⟨r, hstep, hrun⟩ := Stacks.run_cons_eq_ok hrun
    have h := ih (h.step hplaced.1 hstep) hplaced.2 hrun
    rwa [List.append_assoc, List.singleton_append] at h

end Reaches

theorem Opened.tokens_eq_nil {ts : List Token} {out : List Tree} {pending : List Pending} (h : Opened ts out pending)
    (hpending : pending = []) : ts = [] := by
  cases h with
  | start => rfl
  | _ => cases hpending

theorem derives_of_parse {ts : List Token} {t : Tree} (h : parse ts = .ok t) (hplaced : Placed true ts) :
    Derives .sum ts t := by
  obtain ⟨s, hrun, hred⟩ := parse_eq_ok h
  have hstart : Reaches true [] ⟨[], []⟩ := Opened.start
  have hend : Holds .sum ts [t] [] := Holds.reduceGroup (hstart.run hplaced hrun) hred
  cases hend with
  | intro hopen hx =>
    rw [hopen.tokens_eq_nil rfl, List.nil_append]
    exact hx

/-- A token list with a tree has one operand more than binary operators and commas. It is a sentence of the
grammar, and of this tree alone, exactly if no operand directly follows another. Every other token list is an
error unless it has both an operand directly after another and that count. -/
theorem parse_sound (ts : List Token) :
    (∀ t, parse ts = .ok t → gain ts = 1 ∧ ∀ t', Derives .sum ts t' ↔ Apart ts ∧ t' = t) ∧
      ((∀ t, ¬ Derives .sum ts t) → Apart ts ∨ gain ts ≠ 1 → ∃ e, parse ts = .error e) := by
  refine ⟨fun t h => ⟨gain_of_parse h, fun t' => ⟨fun hderives => ⟨hderives.apart, ?_⟩, ?_⟩⟩, fun hnone hcase => ?_⟩
  · have heq : Except.ok t' = Except.ok t := hderives.parse_eq.symm.trans h
    exact Except.ok.inj heq
  · rintro ⟨hapart, rfl⟩
    exact derives_of_parse h (placed_of_parse h hapart)
  · cases h : parse ts with
    | error e => exact ⟨e, rfl⟩
    | ok t =>
      rcases hcase with hapart | hgain
      · exact absurd (derives_of_parse h (placed_of_parse h hapart)) (hnone t)
      · exact absurd (gain_of_parse h) hgain

/-- `1 + 2` is a sentence because it is parsed with all operands apart, and `+ 10` is rejected because it is
none. -/
theorem parse_sound_of_apart :
    Derives .sum [.number 1, .operator .add, .number 2] (.binary .add (.number 1) (.number 2)) ∧
      ∃ e, parse [.operator .add, .number 10] = .error e := by
  constructor
  · exact (((parse_sound _).1 _ rfl).2 _).mpr ⟨by simp [Apart, Token.endsOperand, Token.startsOperand], rfl⟩
  · refine (parse_sound _).2 (fun t h => ?_) (Or.inl (by simp [Apart, Token.endsOperand]))
    have hparse := h.parse_eq
    cases hparse

/-- An operator behind both of its operands is taken for one between them. -/
theorem parse_postfix :
    parse [.number 1, .number 2, .operator .add] = .ok (.binary .add (.number 1) (.number 2)) ∧
      ∀ t, ¬ Derives .sum [.number 1, .number 2, .operator .add] t := by
  refine ⟨rfl, fun t h => ?_⟩
  have hapart := h.apart
  simp [Apart, Token.endsOperand, Token.startsOperand] at hapart

end Metrology.Formula
