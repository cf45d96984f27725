import Mathlib.Data.List.Forall2
import Metrology.Decimal.Numeral
import Metrology.Proofs.Text.Characters

/-! # How numerals are written

A numeral is written as a sign, a mantissa and an exponent, of which only the mantissa has to be there.
Reading takes the longest numeral off the front of a text: what it leaves begins with nothing that could go on
with the numeral, and wherever a numeral is followed by such a text, it is the one that is read. So a text is
a numeral in one way at most.
-/
namespace Metrology.Decimal

variable {cs rest : List Char} {ds : List Nat}

def Spelled (cs : List Char) (ds : List Nat) : Prop := List.Forall₂ (fun c d => Text.digitValue? c = some d) cs ds

theorem digitRun_spelled (h : Spelled cs ds) (hrest : ∀ c ∈ rest.head?, Text.digitValue? c = none) :
    digitRun (cs ++ rest) = (ds, rest) := by
  induction h with
  | nil =>
    cases rest with
    | nil => rfl
    | cons c rest => simp [digitRun, hrest c rfl]
  | cons hc _ ih => simp only [List.cons_append, digitRun, hc, ih]

theorem spelled_digitRun (cs : List Char) : ∃ front, cs = front ++ (digitRun cs).2 ∧ Spelled front (digitRun cs).1 ∧
    ∀ c ∈ (digitRun cs).2.head?, Text.digitValue? c = none := by
  induction cs with
  | nil => exact ⟨[], rfl, .nil, by simp [digitRun]⟩
  | cons c rest ih =>
    unfold digitRun
    cases hc : Text.digitValue? c with
    | none => exact ⟨[], rfl, .nil, by simpa using hc⟩
    | some d =>
      obtain ⟨front, hsplit, hfront, hstop⟩ := ih
      exact ⟨c :: front, congrArg (c :: ·) hsplit, .cons hc hfront, hstop⟩

theorem Spelled.ne_nil (h : Spelled cs ds) (hne : ds ≠ []) : cs ≠ [] := by
  intro hcs
  rw [hcs] at h
  exact hne (List.forall₂_nil_left_iff.mp h)

theorem Spelled.isSome_of_mem (h : Spelled cs ds) : ∀ c ∈ cs, (Text.digitValue? c).isSome = true := by
  induction h with
  | nil => simp
  | cons hc _ ih => simpa [hc] using ih

theorem digitValue?_lt {c : Char} {d : Nat} (h : Text.digitValue? c = some d) : d < 10 := by
  unfold Text.digitValue? at h
  split at h
  · split at h
    · next hdigit =>
      obtain ⟨-, hhigh⟩ := Text.isDigit_bounds hdigit
      cases h
      omega
    · cases h
  · obtain ⟨z, hz, rfl⟩ := Option.map_eq_some_iff.mp h
    have hrange := List.find?_some hz
    simp only [Bool.and_eq_true, decide_eq_true_eq] at hrange
    omega

theorem Spelled.lt_ten (h : Spelled cs ds) : ∀ d ∈ ds, d < 10 := by
  induction h with
  | nil => simp
  | cons hc _ ih => exact List.forall_mem_cons.mpr ⟨digitValue?_lt hc, ih⟩

namespace Numeral

inductive Sign : Bool → List Char → Prop
  | absent : Sign false []
  | plus : Sign false ['+']
  | minus : Sign true ['-']

/-- Digits with or without a fraction behind a point; the point may have no digits on one of its sides. -/
inductive Mantissa : List Nat → List Nat → List Char → Prop
  | whole {cs : List Char} {ds : List Nat} (hne : ds ≠ []) (h : Spelled cs ds) : Mantissa ds [] cs
  | pointed {cs cs' : List Char} {ds ds' : List Nat} (hne : ds ++ ds' ≠ []) (h : Spelled cs ds) (h' : Spelled cs' ds') :
      Mantissa ds ds' (cs ++ '.' :: cs')

inductive Exponent : Int → List Char → Prop
  | absent : Exponent 0 []
  | present {e : Char} {negative : Bool} {sign cs : List Char} {ds : List Nat} (he : e = 'e' ∨ e = 'E')
      (hsign : Sign negative sign) (hne : ds ≠ []) (h : Spelled cs ds) :
      Exponent (if negative then -(natOfDigits ds : Int) else natOfDigits ds) (e :: (sign ++ cs))

inductive Spells : Numeral → List Char → Prop
  | parts {negative : Bool} {whole fraction : List Nat} {e : Int} {sign mantissa exponent : List Char}
      (hsign : Sign negative sign) (hmantissa : Mantissa whole fraction mantissa) (hexponent : Exponent e exponent) :
      Spells ⟨negative, whole ++ fraction, e - fraction.length⟩ (sign ++ (mantissa ++ exponent))

/-- A text with nothing at its front that a numeral could go on with. -/
structure Ends (rest : List Char) : Prop where
  first : ∀ c ∈ rest.head?, Text.digitValue? c = none ∧ c ≠ '.'
  exponent : readExponent rest = (0, rest)

theorem ends_nil : Ends [] := ⟨by simp, rfl⟩

theorem readSign_append {negative : Bool} {sign : List Char} (h : Sign negative sign)
    (hrest : ∀ c ∈ rest.head?, c ≠ '-' ∧ c ≠ '+') : readSign (sign ++ rest) = (negative, rest) := by
  cases h with
  | plus => rfl
  | minus => rfl
  | absent =>
    rw [List.nil_append]
    unfold readSign
    split
    · exact absurd rfl (hrest '-' (by simp)).1
    · exact absurd rfl (hrest '+' (by simp)).2
    · rfl

theorem sign_readSign (cs : List Char) : ∃ sign, cs = sign ++ (readSign cs).2 ∧ Sign (readSign cs).1 sign := by
  unfold readSign
  split
  · exact ⟨_, rfl, .minus⟩
  · exact ⟨_, rfl, .plus⟩
  · exact ⟨_, rfl, .absent⟩

theorem ne_sign_of_isSome {c : Char} (h : (Text.digitValue? c).isSome = true) : c ≠ '-' ∧ c ≠ '+' := by
  constructor
  · rintro rfl
    cases h
  · rintro rfl
    cases h

theorem Spelled.head (h : Spelled cs ds) (hne : ds ≠ []) :
    ∀ c ∈ (cs ++ rest).head?, (Text.digitValue? c).isSome = true := by
  intro c hc
  obtain ⟨first, more, rfl⟩ := List.exists_cons_of_ne_nil (h.ne_nil hne)
  obtain rfl : first = c := by simpa using hc
  exact h.isSome_of_mem _ List.mem_cons_self

theorem readExponent_append {e : Int} {exponent : List Char} (h : Exponent e exponent) (hrest : Ends rest) :
    readExponent (exponent ++ rest) = (e, rest) := by
  cases h with
  | absent => exact hrest.exponent
  | @present letter negative sign cs ds he hsign hne h =>
    have hread : readSign (sign ++ (cs ++ rest)) = (negative, cs ++ rest) :=
      readSign_append hsign fun c hc => ne_sign_of_isSome (Spelled.head h hne c hc)
    have hrun : digitRun (cs ++ rest) = (ds, rest) := digitRun_spelled h fun c hc => (hrest.first c hc).1
    obtain ⟨d, more, rfl⟩ := List.exists_cons_of_ne_nil hne
    simp only [List.cons_append, List.append_assoc, readExponent, hread, hrun, he, if_true]

/-- An exponent is read if there is one, and nothing is left of it. -/
theorem exponent_readExponent (cs : List Char) :
    ∃ exponent, cs = exponent ++ (readExponent cs).2 ∧ Exponent (readExponent cs).1 exponent := by
  unfold readExponent
  cases cs with
  | nil => exact ⟨[], rfl, .absent⟩
  | cons c rest =>
    obtain ⟨sign, hsplit, hsign⟩ := sign_readSign rest
    obtain ⟨front, hfront, hspelled, -⟩ := spelled_digitRun (readSign rest).2
    dsimp only
    split
    · exact ⟨[], rfl, .absent⟩
    · next digits after hne hrun =>
      rw [hrun] at hfront hspelled
      split
      · next he =>
        refine ⟨c :: (sign ++ front), ?_, .present he hsign hne hspelled⟩
        rw [List.cons_append, List.append_assoc, ← hfront, ← hsplit]
      · exact ⟨[], rfl, .absent⟩

theorem Mantissa.head {whole fraction : List Nat} {mantissa : List Char} (h : Mantissa whole fraction mantissa) :
    ∀ c ∈ (mantissa ++ rest).head?, (Text.digitValue? c).isSome = true ∨ c = '.' := by
  intro c hc
  cases h with
  | whole hne h => exact .inl (Spelled.head h hne c hc)
  | pointed hne h h' =>
    rw [List.append_assoc] at hc
    cases whole with
    | nil =>
      obtain rfl := List.forall₂_nil_right_iff.mp h
      exact .inr (by simpa using hc.symm)
    | cons d more => exact .inl (Spelled.head h (by simp) c hc)

theorem Mantissa.head_ne_sign {whole fraction : List Nat} {mantissa : List Char}
    (h : Mantissa whole fraction mantissa) :
    ∀ c ∈ (mantissa ++ rest).head?, c ≠ '-' ∧ c ≠ '+' := by
  intro c hc
  rcases h.head c hc with hdigit | rfl
  · exact ne_sign_of_isSome hdigit
  · decide

theorem Spells.head {n : Numeral} (h : n.Spells cs) :
    ∀ c ∈ (cs ++ rest).head?, (Text.digitValue? c).isSome = true ∨ c ∈ ['.', '-', '+'] := by
  obtain ⟨hsign, hmantissa, hexponent⟩ := h
  intro c hc
  cases hsign with
  | absent =>
    rw [List.nil_append, List.append_assoc] at hc
    exact (hmantissa.head c hc).imp_right (by rintro rfl; simp)
  | plus =>
    obtain rfl : '+' = c := by simpa using hc
    exact .inr (by simp)
  | minus =>
    obtain rfl : '-' = c := by simpa using hc
    exact .inr (by simp)

theorem Spells.mem {n : Numeral} (h : n.Spells cs) :
    ∀ c ∈ cs, (Text.digitValue? c).isSome = true ∨ c ∈ ['.', '-', '+', 'e', 'E'] := by
  obtain ⟨hsign, hmantissa, hexponent⟩ := h
  have sign {negative : Bool} {cs : List Char} (h : Sign negative cs) : ∀ c ∈ cs, c ∈ ['.', '-', '+', 'e', 'E'] := by
    cases h <;> simp
  intro c hc
  rcases List.mem_append.mp hc with hc | hc
  · exact .inr (sign hsign c hc)
  rcases List.mem_append.mp hc with hc | hc
  · cases hmantissa with
    | whole hne h => exact .inl (h.isSome_of_mem c hc)
    | pointed hne h h' =>
      rcases List.mem_append.mp hc with hc | hc
      · exact .inl (h.isSome_of_mem c hc)
      rcases List.mem_cons.mp hc with rfl | hc
      · exact .inr (by simp)
      · exact .inl (h'.isSome_of_mem c hc)
  · cases hexponent with
    | absent => cases hc
    | present he hsign' hne h =>
      rcases List.mem_cons.mp hc with rfl | hc
      · exact .inr (by rcases he with rfl | rfl <;> simp)
      rcases List.mem_append.mp hc with hc | hc
      · exact .inr (sign hsign' c hc)
      · exact .inl (h.isSome_of_mem c hc)

theorem Exponent.head {e : Int} {exponent : List Char} (h : Exponent e exponent) (hrest : Ends rest) :
    ∀ c ∈ (exponent ++ rest).head?, Text.digitValue? c = none ∧ c ≠ '.' := by
  cases h with
  | absent => exact hrest.first
  | present he =>
    intro c hc
    obtain rfl : _ = c := by simpa using hc
    rcases he with rfl | rfl <;> exact ⟨rfl, by decide⟩

/-- A numeral is read from the front of every text in which it is not gone on with. -/
theorem readFront?_append {n : Numeral} {used : List Char} (h : n.Spells used) (hrest : Ends rest) :
    readFront? (used ++ rest) = some (n, rest) := by
  obtain ⟨hsign, hmantissa, hexponent⟩ := h
  rename_i negative whole fraction e sign mantissa exponent
  have hhead := hexponent.head hrest
  have hread : readSign (sign ++ (mantissa ++ exponent) ++ rest) = (negative, mantissa ++ (exponent ++ rest)) := by
    rw [List.append_assoc, List.append_assoc]
    exact readSign_append hsign hmantissa.head_ne_sign
  have hpower := readExponent_append hexponent hrest
  cases hmantissa with
  | whole hne hspelled =>
    have hrun := digitRun_spelled hspelled fun c hc => (hhead c hc).1
    have hpoint : readFraction (exponent ++ rest) = ([], exponent ++ rest) := by
      unfold readFraction
      split
      · next heq =>
        rw [heq] at hhead
        exact absurd rfl (hhead '.' rfl).2
      · rfl
    have hfull : whole.isEmpty = false := by simpa using hne
    simp only [readFront?, hread, hrun, hpoint, hpower, hfull, Bool.false_and, Bool.false_eq_true, if_false]
  | @pointed cs cs' ds ds' hne hwhole hfraction =>
    have hrun : digitRun (cs ++ '.' :: cs' ++ (exponent ++ rest)) = (whole, '.' :: (cs' ++ (exponent ++ rest))) := by
      rw [List.append_assoc]
      apply digitRun_spelled hwhole
      intro c hc
      obtain rfl : '.' = c := by simpa using hc
      rfl
    have hpoint : readFraction ('.' :: (cs' ++ (exponent ++ rest))) = (fraction, exponent ++ rest) :=
      digitRun_spelled hfraction fun c hc => (hhead c hc).1
    have hfull : (whole.isEmpty && fraction.isEmpty) = false := by
      cases whole with
      | nil => simpa using hne
      | cons d more => rfl
    simp only [readFront?, hread, hrun, hpoint, hpower, hfull, Bool.false_eq_true, if_false]

/-- What is read from the front of a text is a numeral that stands there. -/
theorem exists_spells {n : Numeral} (h : readFront? cs = some (n, rest)) :
    ∃ used, cs = used ++ rest ∧ n.Spells used := by
  obtain ⟨sign, hsplit, hsign⟩ := sign_readSign cs
  obtain ⟨front, hfront, hwhole, -⟩ := spelled_digitRun (readSign cs).2
  unfold readFront? at h
  dsimp only at h
  generalize (readSign cs).2 = afterSign at h hsplit hfront hwhole
  generalize (readSign cs).1 = negative at h hsign
  generalize (digitRun afterSign).1 = whole at h hwhole
  generalize (digitRun afterSign).2 = afterWhole at h hfront
  have hmantissa : ∃ mantissa, afterWhole = mantissa ++ (readFraction afterWhole).2 ∧
      ((whole.isEmpty && (readFraction afterWhole).1.isEmpty) = false →
        Mantissa whole (readFraction afterWhole).1 (front ++ mantissa)) := by
    unfold readFraction
    split
    · next more =>
      obtain ⟨digits, hdigits, hspelled, -⟩ := spelled_digitRun more
      refine ⟨'.' :: digits, congrArg ('.' :: ·) hdigits, fun hne => .pointed ?_ hwhole hspelled⟩
      intro hnil
      obtain ⟨hw, hf⟩ := List.append_eq_nil_iff.mp hnil
      simp [hw, hf] at hne
    · refine ⟨[], rfl, fun hne => ?_⟩
      rw [List.append_nil]
      exact .whole (by simpa using hne) hwhole
  obtain ⟨mantissa, hmantissa, hspells⟩ := hmantissa
  obtain ⟨exponent, hexponent, hpower⟩ := exponent_readExponent (readFraction afterWhole).2
  split at h
  · cases h
  · next hne =>
    cases h
    refine ⟨sign ++ (front ++ mantissa ++ exponent), ?_, .parts hsign (hspells (by simpa using hne)) hpower⟩
    rw [List.append_assoc, List.append_assoc, List.append_assoc, ← hexponent, ← hmantissa, ← hfront, ← hsplit]

/-- A text is read as a whole if and only if it is a numeral. -/
theorem read?_eq_some_iff {n : Numeral} : read? cs = some n ↔ n.Spells cs := by
  unfold read?
  constructor
  · intro h
    split at h
    · next m hfront =>
      cases h
      obtain ⟨used, hused, hspells⟩ := exists_spells hfront
      rwa [hused, List.append_nil]
    · cases h
  · intro h
    have hfront := readFront?_append h ends_nil
    rw [List.append_nil] at hfront
    rw [hfront]

end Numeral

end Metrology.Decimal
