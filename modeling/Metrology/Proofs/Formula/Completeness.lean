import Metrology.Proofs.Formula.Grammar
import Metrology.Proofs.Formula.Reduction

/-! # Every sentence of the grammar is parsed

Running over the tokens of a phrase leaves operators on the stack that have still to be reduced, all of them
as tight as the phrase; applied to what lies on the operands they give the tree of the phrase. What lay on the
stacks before stays there.
-/
namespace Metrology.Formula

theorem Operator.rank_le (op : Operator) : op.rank ≤ 4 := by cases op <;> decide

theorem Operator.yieldsTo_of_rank_le {waiting next : Operator} (hnext : next.groupsLeft = true)
    (h : next.rank ≤ waiting.rank) : waiting.yieldsTo next = true := by
  rcases Nat.lt_or_eq_of_le h with h | h
  · simp [yieldsTo, h]
  · simp [yieldsTo, h, hnext]

theorem Operator.yieldsTo_of_rank_lt {waiting next : Operator} (h : waiting.rank < next.rank) :
    waiting.yieldsTo next = false := by
  have hne : (waiting.rank == next.rank) = false := beq_eq_false_iff_ne.mpr (by omega)
  have hlt : ¬ next.rank < waiting.rank := by omega
  simp [yieldsTo, hne, hlt]

theorem Operator.yieldsTo_of_groupsRight {next : Operator} (hnext : next.groupsLeft = false) (waiting : Operator) :
    waiting.yieldsTo next = false := by
  have hle := waiting.rank_le
  cases next with
  | pow => simp [yieldsTo, groupsLeft, show rank pow = 4 from rfl, hle]
  | negate => simp [yieldsTo, groupsLeft, show rank negate = 4 from rfl, hle]
  | _ => simp [groupsLeft] at hnext

theorem reduceBefore_of_groupsRight {next : Operator} (hnext : next.groupsLeft = false) (operands : List Tree)
    (pending : List Pending) : reduceBefore next operands pending = .ok ⟨operands, pending⟩ := by
  match pending with
  | .operator w :: _ => simp [reduceBefore, Operator.yieldsTo_of_groupsRight hnext w]
  | .function _ :: _ => rfl
  | .group _ _ :: _ => rfl
  | [] => rfl

/-- Whether a phrase can start over what waits: not behind a function, and not behind an operator that an
operator of the phrase would have reduced. -/
def Phrase.StartsOver (p : Phrase) : List Pending → Prop
  | .operator op :: _ => op.rank < p.rank ∨ 4 ≤ p.rank
  | .function _ :: _ => False
  | _ => True

theorem Phrase.StartsOver.tighten {p q : Phrase} {pending : List Pending} (h : p.StartsOver pending)
    (hle : p.rank ≤ q.rank) : q.StartsOver pending := by
  match pending with
  | .operator op :: _ =>
    rcases h with h | h
    · exact Or.inl (by omega)
    · exact Or.inr (by omega)
  | .group _ _ :: _ => trivial
  | [] => trivial

/-- An operator that a phrase starts with, or joins phrases of its kind by, leaves alone what waits below the
phrase. -/
theorem reduceBefore_of_startsOver {p : Phrase} {op : Operator} {pending : List Pending} (h : p.StartsOver pending)
    (hrank : p.rank ≤ op.rank) (operands : List Tree) (hright : 4 ≤ p.rank → op.groupsLeft = false) :
    reduceBefore op operands pending = .ok ⟨operands, pending⟩ := by
  match pending with
  | .operator w :: rest =>
    have hyield : w.yieldsTo op = false := by
      rcases h with h | h
      · exact Operator.yieldsTo_of_rank_lt (by omega)
      · exact Operator.yieldsTo_of_groupsRight (hright h) w
    simp [reduceBefore, hyield]
  | .group _ _ :: _ => rfl
  | [] => rfl

def Runs (p : Phrase) (ts : List Token) (t : Tree) : Prop :=
  ∀ operands pending rest, p.StartsOver pending →
    ∃ out ops, (∀ op ∈ ops, p.rank ≤ op.rank) ∧ reduceAll ops out = .ok (t :: operands) ∧
      (⟨operands, pending⟩ : Stacks).run (ts ++ rest) = (⟨out, ops.map .operator ++ pending⟩ : Stacks).run rest

section Tokens
variable {out xs : List Tree} {ops : List Operator} {pending : List Pending} (rest : List Token)

theorem run_operator {op : Operator} (hred : reduceAll ops out = .ok xs) (hops : ∀ o ∈ ops, o.yieldsTo op = true)
    (hstop : reduceBefore op xs pending = .ok ⟨xs, pending⟩) :
    (⟨out, ops.map .operator ++ pending⟩ : Stacks).run (.operator op :: rest) =
      (⟨xs, .operator op :: pending⟩ : Stacks).run rest := by
  rw [Stacks.run, Stacks.step, reduceBefore_append pending hops hred, hstop]

theorem run_comma {mark places : Nat} (hred : reduceAll ops out = .ok xs) :
    (⟨out, ops.map .operator ++ .group mark places :: pending⟩ : Stacks).run (.comma :: rest) =
      (⟨xs, .group mark (places + 1) :: pending⟩ : Stacks).run rest := by
  rw [Stacks.run, Stacks.step, reduceGroup_append (.group mark places :: pending) hred]
  rfl

theorem run_rightParen {mark places : Nat} {s : Stacks} (hred : reduceAll ops out = .ok xs)
    (hclose : closeGroup mark places xs pending = .ok s) :
    (⟨out, ops.map .operator ++ .group mark places :: pending⟩ : Stacks).run (.rightParen :: rest) = s.run rest := by
  rw [Stacks.run, Stacks.step, reduceGroup_append (.group mark places :: pending) hred]
  simp only [reduceGroup, hclose]

end Tokens

namespace Runs

variable {ts xs ys : List Token} {t l r : Tree}

theorem loosen {p q : Phrase} (h : Runs q ts t) (hle : p.rank ≤ q.rank) : Runs p ts t := by
  intro operands pending rest hstart
  obtain ⟨out, ops, hops, hred, hrun⟩ := h operands pending rest (hstart.tighten hle)
  exact ⟨out, ops, fun op hop => Nat.le_trans hle (hops op hop), hred, hrun⟩

theorem ofAtom (h : ∀ operands pending rest, Phrase.atom.StartsOver pending →
    (⟨operands, pending⟩ : Stacks).run (ts ++ rest) = (⟨t :: operands, pending⟩ : Stacks).run rest) :
    Runs .atom ts t := by
  intro operands pending rest hstart
  exact ⟨t :: operands, [], by simp, rfl, h operands pending rest hstart⟩

/-- Two phrases joined by an operator that has the left one reduced and waits for the right one. -/
theorem join {w p q : Phrase} {op : Operator} (hl : Runs p xs l) (hw : w.rank = op.rank) (hp : w.rank ≤ p.rank)
    (hq : op.rank < q.rank ∨ 4 ≤ q.rank) (hyield : ∀ o : Operator, p.rank ≤ o.rank → o.yieldsTo op = true)
    (hright : 4 ≤ w.rank → op.groupsLeft = false)
    (hbinary : ∀ rest, reduceOperator op (r :: l :: rest) = .ok (.binary op l r :: rest)) (hr : Runs q ys r) :
    Runs w (xs ++ .operator op :: ys) (.binary op l r) := by
  intro operands pending rest hstart
  have hwq : w.rank ≤ q.rank := by
    have := op.rank_le
    omega
  obtain ⟨out, ops, hops, hred, hrun⟩ :=
    hl operands pending (.operator op :: (ys ++ rest)) (hstart.tighten hp)
  have hstop := reduceBefore_of_startsOver hstart (Nat.le_of_eq hw) (l :: operands) hright
  -- The right phrase runs over the operator, which stays below whatever that phrase leaves to reduce.
  obtain ⟨out', ops', hops', hred', hrun'⟩ := hr (l :: operands) (.operator op :: pending) rest hq
  refine ⟨out', ops' ++ [op], ?_, ?_, ?_⟩
  · intro o ho
    rcases List.mem_append.mp ho with ho | ho
    · exact Nat.le_trans hwq (hops' o ho)
    · rw [List.mem_singleton.mp ho]
      exact Nat.le_of_eq hw
  · rw [reduceAll_append hred', reduceAll, hbinary]
    rfl
  · rw [List.append_assoc, List.cons_append, hrun,
      run_operator (ys ++ rest) hred (fun o ho => hyield o (hops o ho)) hstop, hrun']
    simp

theorem joinLeft {w q : Phrase} {op : Operator} (hl : Runs w xs l) (hw : w.rank = op.rank) (hlt : w.rank < 4)
    (hleft : op.groupsLeft = true) (hq : op.rank < q.rank)
    (hbinary : ∀ rest, reduceOperator op (r :: l :: rest) = .ok (.binary op l r :: rest))
    (hr : Runs q ys r) : Runs w (xs ++ .operator op :: ys) (.binary op l r) :=
  hl.join hw (Nat.le_refl _) (Or.inl hq) (fun _ ho => Operator.yieldsTo_of_rank_le hleft (hw ▸ ho))
    (fun h => absurd h (Nat.not_le.mpr hlt)) hbinary hr

theorem negated (h : Runs .power ts t) : Runs .power (.operator .negate :: ts) (.unary .negate t) := by
  intro operands pending rest hstart
  have hstop := @reduceBefore_of_groupsRight .negate rfl operands pending
  obtain ⟨out, ops, hops, hred, hrun⟩ :=
    h operands (.operator .negate :: pending) rest (Or.inr (Nat.le_refl _))
  refine ⟨out, ops ++ [.negate], ?_, ?_, ?_⟩
  · intro o ho
    rcases List.mem_append.mp ho with ho | ho
    · exact hops o ho
    · rw [List.mem_singleton.mp ho]
      exact Nat.le_refl _
  · rw [reduceAll_append hred]
    rfl
  · rw [List.cons_append, ← List.nil_append pending, ← List.map_nil (f := Pending.operator),
      run_operator (ts ++ rest) rfl (by simp) hstop, hrun]
    simp

theorem group (h : Runs .sum ts t) : Runs .atom (.leftParen :: (ts ++ [.rightParen])) t := by
  refine ofAtom fun operands pending rest hstart => ?_
  obtain ⟨out, ops, -, hred, hrun⟩ :=
    h operands (.group operands.length 1 :: pending) (.rightParen :: rest) trivial
  have hclose : closeGroup operands.length 1 (t :: operands) pending = .ok ⟨t :: operands, pending⟩ := by
    match pending with
    | .operator _ :: _ => simp [closeGroup]
    | .group _ _ :: _ => simp [closeGroup]
    | [] => simp [closeGroup]
  calc (⟨operands, pending⟩ : Stacks).run (.leftParen :: (ts ++ [.rightParen]) ++ rest)
      = (⟨operands, .group operands.length 1 :: pending⟩ : Stacks).run (ts ++ .rightParen :: rest) := by
        simp [Stacks.run, Stacks.step]
    _ = (⟨t :: operands, pending⟩ : Stacks).run rest := by rw [hrun, run_rightParen rest hred hclose]

/-- The arguments of a call pile up above what lay on the operands before, and the parenthesis turns them into
the call. -/
theorem arguments {f : Function} {args : List (List Token × Tree)} (hargs : ∀ a ∈ args, Runs .sum a.1 a.2)
    (operands done : List Tree) (pending : List Pending) (rest : List Token) (hne : args ≠ [])
    (harity : f.variadic = true ∨ done.length + args.length = 1) :
    (⟨done.reverse ++ operands, .group operands.length (done.length + 1) :: .function f :: pending⟩ : Stacks).run
        ([Token.comma].intercalate (args.map Prod.fst) ++ .rightParen :: rest) =
      (⟨.call f (done ++ args.map Prod.snd) :: operands, pending⟩ : Stacks).run rest := by
  induction args generalizing done with
  | nil => exact absurd rfl hne
  | cons a more ih =>
    have ha := hargs a List.mem_cons_self
    have hmore : (done ++ [a.2]).length = done.length + 1 := by simp
    have hpile : (done ++ [a.2]).reverse ++ operands = a.2 :: (done.reverse ++ operands) := by simp
    cases more with
    | nil =>
      obtain ⟨out, ops, -, hred, hrun⟩ := ha (done.reverse ++ operands)
        (.group operands.length (done.length + 1) :: .function f :: pending) (.rightParen :: rest) trivial
      have hcall := @reduceCall_of_length f (done ++ [a.2]) (by simp) (by simpa using harity) operands
      rw [hmore, hpile] at hcall
      have hclose : closeGroup operands.length (done.length + 1) (a.2 :: (done.reverse ++ operands))
          (.function f :: pending) = .ok ⟨.call f (done ++ [a.2]) :: operands, pending⟩ := by
        simp only [closeGroup, hcall]
      rw [List.map_singleton, List.intercalate_singleton, hrun, run_rightParen rest hred hclose]
      rfl
    | cons b more =>
      obtain ⟨out, ops, -, hred, hrun⟩ := ha (done.reverse ++ operands)
        (.group operands.length (done.length + 1) :: .function f :: pending)
        (.comma :: ([Token.comma].intercalate ((b :: more).map Prod.fst) ++ .rightParen :: rest)) trivial
      have htail := ih (fun c hc => hargs c (List.mem_cons_of_mem _ hc)) (done ++ [a.2]) (by simp)
        (by simpa [Nat.add_assoc, Nat.add_comm] using harity)
      rw [hmore, hpile] at htail
      rw [List.map_cons, List.map_cons, List.intercalate_cons_cons, ← List.map_cons, List.append_assoc,
        List.append_assoc, List.singleton_append, hrun, run_comma _ hred, htail]
      simp

theorem call {f : Function} {args : List (List Token × Tree)} (hne : args ≠ [])
    (harity : f.variadic = true ∨ args.length = 1) (hargs : ∀ a ∈ args, Runs .sum a.1 a.2) :
    Runs .atom (.function f :: .leftParen :: ([Token.comma].intercalate (args.map Prod.fst) ++ [.rightParen]))
      (.call f (args.map Prod.snd)) := by
  refine ofAtom fun operands pending rest _ => ?_
  have h := arguments hargs operands [] pending rest hne (by simpa using harity)
  simpa [Stacks.run, Stacks.step] using h

end Runs

theorem Derives.runs {p : Phrase} {ts : List Token} {t : Tree} (h : Derives p ts t) : Runs p ts t := by
  induction h with
  | ofProduct _ ih => exact ih.loosen (by decide)
  | ofPower _ ih => exact ih.loosen (by decide)
  | ofAtom _ ih => exact ih.loosen (by decide)
  | sum hop _ _ ihl ihr =>
    rcases hop with rfl | rfl <;> exact ihl.joinLeft rfl (by decide) rfl (by decide) (fun _ => rfl) ihr
  | product hop _ _ ihl ihr =>
    rcases hop with rfl | rfl | rfl <;> exact ihl.joinLeft rfl (by decide) rfl (by decide) (fun _ => rfl) ihr
  | power _ _ ihl ihr =>
    have hnone : ∀ o : Operator, Phrase.atom.rank ≤ o.rank → o.yieldsTo .pow = true := by
      intro o ho
      have := o.rank_le
      exact absurd ho (by simp only [Phrase.rank]; omega)
    exact ihl.join rfl (by decide) (Or.inr (by decide)) hnone (fun _ => rfl) (fun _ => rfl) ihr
  | negated _ ih => exact ih.negated
  | number value => exact Runs.ofAtom fun _ _ _ _ => rfl
  | var name => exact Runs.ofAtom fun _ _ _ _ => rfl
  | unit name => exact Runs.ofAtom fun _ _ _ _ => rfl
  | group _ ih => exact ih.group
  | call hne harity _ ih => exact Runs.call hne harity ih

theorem Derives.parse_eq {ts : List Token} {t : Tree} (h : Derives .sum ts t) : parse ts = .ok t := by
  obtain ⟨out, ops, -, hred, hrun⟩ := h.runs [] [] [] trivial
  have hfinish : (⟨out, ops.map .operator ++ []⟩ : Stacks).finish = .ok [t] := by
    rw [Stacks.finish, reduceGroup_append [] hred]
    rfl
  have hne : ts.isEmpty = false := by
    cases ts with
    | cons => rfl
    | nil =>
      have hstacks : (⟨[], []⟩ : Stacks) = ⟨out, ops.map .operator ++ []⟩ := by simpa [Stacks.run] using hrun
      obtain ⟨rfl, hops⟩ : [] = out ∧ [] = ops := by simpa using hstacks
      subst hops
      cases hred
  rw [List.append_nil] at hrun
  rw [parse, hne, hrun]
  simp only [Stacks.run, hfinish]
  rfl

/-- The tokens of every sentence are parsed, and the tree is the only one that the grammar gives them. -/
theorem parse_eq_of_derives {ts : List Token} {t : Tree} (h : Derives .sum ts t) :
    parse ts = .ok t ∧ ∀ t', Derives .sum ts t' → t' = t := by
  refine ⟨h.parse_eq, fun t' h' => ?_⟩
  have heq : Except.ok t' = Except.ok t := h'.parse_eq.symm.trans h.parse_eq
  exact Except.ok.inj heq

/-- The tree of `-{a} ^ 2 - max(1, 3)`. -/
theorem parse_eq_of_derives_negated_power :
    parse [.operator .negate, .var "a", .operator .pow, .number 2, .operator .sub, .function .max,
      .leftParen, .number 1,
        .comma, .number 3, .rightParen] =
      .ok (.binary .sub (.unary .negate (.binary .pow (.var "a") (.number 2)))
          (.call .max [.number 1, .number 3])) := by
  have hnumber (x : Float) : Derives .sum [.number x] (.number x) := .ofProduct (.ofPower (.ofAtom (.number x)))
  have hpower : Derives .power [.var "a", .operator .pow, .number 2] (.binary .pow (.var "a") (.number 2)) :=
    .power (.var "a") (.ofAtom (.number 2))
  have hcall : Derives .atom [.function .max, .leftParen, .number 1, .comma, .number 3, .rightParen]
      (.call .max [.number 1, .number 3]) :=
    @Derives.call .max [([.number 1], .number 1), ([.number 3], .number 3)] (by simp) (Or.inl rfl)
      (by simp [hnumber])
  exact (parse_eq_of_derives
    (@Derives.sum .sub [.operator .negate, .var "a", .operator .pow, .number 2] _ _ _ (Or.inr rfl)
      (.ofProduct (.ofPower (.negated hpower))) (.ofPower (.ofAtom hcall)))).1

end Metrology.Formula
