import Metrology.Proofs.Decimal.Notation
import Metrology.Request

/-! # The grammar of requests

A request is a numeral, a name, a separator and a name, with blanks before the numeral, between it and the
first name, and at the end. Each part is read to its end before the next one begins: a numeral goes on as long
as it can, a name as long as there are name characters, a separator takes all blanks around it. What follows a
part in a request never goes on with it, so the parts of a request are the ones that are read, and there are
no others.
-/
namespace Metrology.Request

open Decimal

variable {cs rest : List Char}

def Blanks (cs : List Char) : Prop := ∀ c ∈ cs, Text.isBlank c = true

structure IsName (cs : List Char) : Prop where
  nonempty : cs ≠ []
  chars : ∀ c ∈ cs, Text.isNameChar c = true

/-- An arrow that may stand between blanks, or the word `to`, which has to. -/
inductive Separator : List Char → Prop
  | arrow {left right : List Char} (hleft : Blanks left) (hright : Blanks right) :
      Separator (left ++ '-' :: '>' :: right)
  | word {left right : List Char} {t o : Char} (hleft : Blanks left) (hleft' : left ≠ []) (ht : t = 't' ∨ t = 'T')
      (ho : o = 'o' ∨ o = 'O') (hright : Blanks right) (hright' : right ≠ []) : Separator (left ++ t :: o :: right)

@[ext] structure Parts where
  lead : List Char
  amount : List Char
  numeral : Numeral
  gap : List Char
  source : List Char
  separator : List Char
  target : List Char
  trail : List Char
  lead_blanks : Blanks lead
  amount_spells : numeral.Spells amount
  gap_blanks : Blanks gap
  source_name : IsName source
  separator_separates : Separator separator
  target_name : IsName target
  trail_blanks : Blanks trail

namespace Parts

def afterSource (p : Parts) : List Char := p.separator ++ (p.target ++ p.trail)

def afterAmount (p : Parts) : List Char := p.gap ++ (p.source ++ p.afterSource)

def text (p : Parts) : List Char := p.lead ++ (p.amount ++ p.afterAmount)

def request (p : Parts) : Request := ⟨p.numeral, String.ofList p.source, String.ofList p.target⟩

end Parts

theorem Blanks.nil : Blanks [] := by simp [Blanks]

theorem digitValue?_of_isBlank {c : Char} (h : Text.isBlank c = true) : Text.digitValue? c = none := by
  have hall : ∀ n ∈ Text.blankCodes, Text.digitValue? (Char.ofNat n) = none := by decide +kernel
  have hcode := hall _ (Text.mem_blankCodes h)
  rwa [Char.ofNat_toNat] at hcode

theorem isNameChar_of_isBlank {c : Char} (h : Text.isBlank c = true) : Text.isNameChar c = false := by
  have hall : ∀ n ∈ Text.blankCodes, Text.isNameChar (Char.ofNat n) = false := by decide +kernel
  have hcode := hall _ (Text.mem_blankCodes h)
  rwa [Char.ofNat_toNat] at hcode

theorem isBlank_of_isNameChar {c : Char} (h : Text.isNameChar c = true) : Text.isBlank c = false := by
  cases hc : Text.isBlank c with
  | false => rfl
  | true =>
    rw [isNameChar_of_isBlank hc] at h
    cases h

/-- No decimal digit lies among the letters. -/
theorem isDigit_of_isLetter {c : Char} (h : Text.isLetter c = true) : Text.isDigit c = false := by
  unfold Text.isLetter at h
  unfold Text.isDigit Text.digitValue?
  split at h
  · next hascii =>
    have hnot : c.isDigit = false := by
      cases hc : c.isDigit with
      | false => rfl
      | true =>
        have hletter := Text.isLetter_of_isDigit hc
        rw [Text.isLetter, if_pos hascii, h] at hletter
        cases hletter
    simp [hascii, hnot]
  · next hascii =>
    obtain ⟨r, hr, hrange⟩ := List.any_eq_true.mp h
    simp only [Bool.and_eq_true, decide_eq_true_eq] at hrange
    have hapart : (Text.letterRanges.all fun r => Text.digitZeros.all fun z => r.2.blt z || (z + 10).ble r.1) =
        true := by
      decide +kernel
    have hnone : (Text.digitZeros.find? fun z => z ≤ c.toNat && c.toNat < z + 10) = none := by
      rw [List.find?_eq_none]
      intro z hz
      have hz := List.all_eq_true.mp (List.all_eq_true.mp hapart r hr) z hz
      simp only [Bool.or_eq_true, Nat.blt_eq, Nat.ble_eq] at hz
      simp only [Bool.and_eq_true, decide_eq_true_eq]
      omega
    simp [hascii, hnone]

theorem isNameChar_of_isLetter {c : Char} (h : Text.isLetter c = true) : Text.isNameChar c = true := by
  have hunderscore : c ≠ '_' := by
    rintro rfl
    revert h
    decide +kernel
  simp [Text.isNameChar, Text.isWordChar, h, isDigit_of_isLetter h, hunderscore]

theorem digitValue?_of_isNameChar {c : Char} (h : Text.isNameChar c = true) : Text.digitValue? c = none := by
  simp only [Text.isNameChar, Text.isDigit, Bool.and_eq_true, Bool.not_eq_true', Option.isSome_eq_false_iff,
    Option.isNone_iff_eq_none] at h
  exact h.1.2

/-- A character that a name or the blanks before it can begin with. -/
def Opens (c : Char) : Prop := Text.isBlank c = true ∨ Text.isNameChar c = true

theorem Opens.digitValue? {c : Char} (h : Opens c) : Text.digitValue? c = none := by
  rcases h with h | h
  · exact digitValue?_of_isBlank h
  · exact digitValue?_of_isNameChar h

theorem Opens.ne {c d : Char} (h : Opens c) (hblank : Text.isBlank d = false)
    (hname : Text.isNameChar d = false) : c ≠ d := by
  rintro rfl
  rcases h with h | h
  · rw [h] at hblank
    cases hblank
  · rw [h] at hname
    cases hname

theorem IsName.head (h : IsName cs) : ∀ c ∈ (cs ++ rest).head?, Text.isBlank c = false := by
  obtain ⟨first, more, rfl⟩ := List.exists_cons_of_ne_nil h.nonempty
  intro c hc
  obtain rfl : first = c := by simpa using hc
  exact isBlank_of_isNameChar (h.chars _ List.mem_cons_self)

theorem Blanks.head (h : Blanks cs) {p : Char → Prop} (hblank : ∀ c, Text.isBlank c = true → p c)
    (hrest : ∀ c ∈ rest.head?, p c) : ∀ c ∈ (cs ++ rest).head?, p c := by
  cases cs with
  | nil => exact hrest
  | cons first more =>
    intro c hc
    obtain rfl : first = c := by simpa using hc
    exact hblank _ (h _ List.mem_cons_self)

/-- What a separator begins with is no name character, and no part of an exponent. -/
theorem Separator.head (h : Separator cs) : ∀ c ∈ (cs ++ rest).head?, Text.isNameChar c = false := by
  cases h with
  | arrow hleft hright =>
    rw [List.append_assoc]
    have hdash : Text.isNameChar '-' = false := by decide +kernel
    exact hleft.head (fun c hc => isNameChar_of_isBlank hc) (by simpa using hdash)
  | @word left right t o hleft hleft' ht ho hright hright' =>
    obtain ⟨first, more, rfl⟩ := List.exists_cons_of_ne_nil hleft'
    intro c hc
    obtain rfl : first = c := by simpa using hc
    exact isNameChar_of_isBlank (hleft _ List.mem_cons_self)

theorem readSign_of_head (h : ∀ c ∈ cs.head?, c ≠ '-' ∧ c ≠ '+') : readSign cs = (false, cs) :=
  Numeral.readSign_append .absent h

theorem Opens.ne_sign {c : Char} (h : Opens c) : c ≠ '-' ∧ c ≠ '+' :=
  ⟨h.ne rfl (by decide +kernel), h.ne rfl (by decide +kernel)⟩

/-- Behind the sign that a separator may begin with there is no digit. -/
theorem Separator.readSign_head (h : Separator cs) :
    ∀ c ∈ (readSign (cs ++ rest)).2.head?, Text.digitValue? c = none := by
  have hblank {left more : List Char} (hleft : Blanks left) (hne : left ≠ []) :
      ∀ c ∈ (readSign (left ++ more)).2.head?, Text.digitValue? c = none := by
    obtain ⟨first, others, rfl⟩ := List.exists_cons_of_ne_nil hne
    have hfirst : Opens first := .inl (hleft _ List.mem_cons_self)
    rw [readSign_of_head (by simpa using hfirst.ne_sign)]
    simpa using hfirst.digitValue?
  cases h with
  | @arrow left right hleft hright =>
    rw [List.append_assoc]
    rcases eq_or_ne left [] with rfl | hne
    · intro c hc
      obtain rfl : '>' = c := by simpa [readSign] using hc
      rfl
    · exact hblank hleft hne
  | word hleft hleft' =>
    rw [List.append_assoc]
    exact hblank hleft hleft'

theorem ends_of_head {c : Char} (hc : Text.digitValue? c = none ∧ c ≠ '.')
    (hrest : c = 'e' ∨ c = 'E' → ∀ d ∈ (readSign rest).2.head?, Text.digitValue? d = none) :
    Numeral.Ends (c :: rest) where
  first := by
    intro d hd
    obtain rfl : c = d := by simpa using hd
    exact hc
  exponent := by
    unfold readExponent
    dsimp only
    split
    · rfl
    · next digits after hne hrun =>
      split
      · next he =>
        -- The digits that have been read would begin with one that is not there.
        have hnone : digitRun (readSign rest).2 = ([], (readSign rest).2) := digitRun_spelled .nil (hrest he)
        rw [hrun] at hnone
        cases hnone
        exact (hne rfl).elim
      · rfl

/-- Neither a name behind blanks nor the separator behind it goes on with a numeral, though a name may begin
with the letter of an exponent and a separator with a sign. -/
theorem ends_name {blanks name : List Char} (hblanks : Blanks blanks) (hname : IsName name) (hcs : Separator cs) :
    Numeral.Ends (blanks ++ (name ++ (cs ++ rest))) := by
  have hpoint : Text.isNameChar '.' = false := by decide +kernel
  obtain ⟨first, more, rfl⟩ := List.exists_cons_of_ne_nil hname.nonempty
  cases blanks with
  | cons b others =>
    have hb : Text.isBlank b = true := hblanks _ List.mem_cons_self
    have hopens : Opens b := .inl hb
    refine ends_of_head ⟨hopens.digitValue?, hopens.ne rfl hpoint⟩ ?_
    rintro (rfl | rfl) <;> cases hb
  | nil =>
    have hfirst : Opens first := .inr (hname.chars _ List.mem_cons_self)
    refine ends_of_head ⟨hfirst.digitValue?, hfirst.ne rfl hpoint⟩ ?_
    intro _
    cases more with
    | nil => exact hcs.readSign_head
    | cons second others =>
      have hsecond : Opens second := .inr (hname.chars _ (by simp))
      change ∀ d ∈ (readSign (second :: (others ++ (cs ++ rest)))).2.head?, Text.digitValue? d = none
      rw [readSign_of_head (by simpa using hsecond.ne_sign)]
      simpa using hsecond.digitValue?

theorem head_amount {n : Numeral} (h : n.Spells cs) : ∀ c ∈ (cs ++ rest).head?, Text.isBlank c = false := by
  intro c hc
  cases hblank : Text.isBlank c with
  | false => rfl
  | true =>
    rcases h.head c hc with hdigit | hmark
    · rw [digitValue?_of_isBlank hblank] at hdigit
      cases hdigit
    · simp only [List.mem_cons, List.not_mem_nil, or_false] at hmark
      rcases hmark with rfl | rfl | rfl <;> cases hblank

theorem stripLeft_append {blanks : List Char} (h : Blanks blanks) (hrest : ∀ c ∈ rest.head?, Text.isBlank c = false) :
    Text.stripLeft (blanks ++ rest) = rest := Text.dropWhile_append_of_stop h hrest

theorem readName?_append (h : IsName cs) (hrest : ∀ c ∈ rest.head?, Text.isNameChar c = false) :
    readName? (cs ++ rest) = some (String.ofList cs, rest) := by
  obtain ⟨c, more, rfl⟩ := List.exists_cons_of_ne_nil h.nonempty
  unfold readName?
  rw [Text.takeWhile_append_of_stop h.chars hrest, Text.dropWhile_append_of_stop h.chars hrest]

theorem exists_name {name : String} (h : readName? cs = some (name, rest)) :
    ∃ front, cs = front ++ rest ∧ IsName front ∧ String.ofList front = name := by
  unfold readName? at h
  split at h
  · cases h
  · next hne =>
    cases h
    refine ⟨_, List.takeWhile_append_dropWhile.symm, ⟨hne, ?_⟩, rfl⟩
    intro c hc
    exact List.mem_takeWhile_imp hc

theorem exists_blanks (cs : List Char) : ∃ blanks, cs = blanks ++ Text.stripLeft cs ∧ Blanks blanks :=
  ⟨cs.takeWhile Text.isBlank, List.takeWhile_append_dropWhile.symm, fun _ hc => List.mem_takeWhile_imp hc⟩

theorem readSeparator?_append (h : Separator cs) (hrest : ∀ c ∈ rest.head?, Text.isBlank c = false) :
    readSeparator? (cs ++ rest) = some rest := by
  cases h with
  | @arrow left right hleft hright =>
    have hstrip : Text.stripLeft (left ++ ('-' :: '>' :: (right ++ rest))) = '-' :: '>' :: (right ++ rest) := by
      exact stripLeft_append hleft (by simp; rfl)
    simp only [List.append_assoc, List.cons_append, readSeparator?, hstrip, stripLeft_append hright hrest]
  | @word left right t o hleft hleft' ht ho hright hright' =>
    obtain ⟨b, others, rfl⟩ := List.exists_cons_of_ne_nil hright'
    obtain ⟨b', others', rfl⟩ := List.exists_cons_of_ne_nil hleft'
    have hb : Text.isBlank b = true := hright _ List.mem_cons_self
    have hb' : Text.isBlank b' = true := hleft _ List.mem_cons_self
    have hstrip : Text.stripLeft (b' :: others' ++ t :: o :: b :: (others ++ rest)) =
        t :: o :: b :: (others ++ rest) := by
      apply stripLeft_append hleft
      rcases ht with rfl | rfl
      · simp; rfl
      · simp; rfl
    have hhead : (b' :: others' ++ t :: o :: b :: (others ++ rest)).head?.any Text.isBlank = true := hb'
    have hafter : Text.stripLeft (others ++ rest) = rest := by
      apply stripLeft_append _ hrest
      intro c hc
      exact hright c (List.mem_cons_of_mem _ hc)
    rw [List.append_assoc]
    change readSeparator? (b' :: others' ++ t :: o :: b :: (others ++ rest)) = some rest
    unfold readSeparator?
    rw [hstrip]
    split
    · next heq =>
      cases heq
      rcases ht with h | h <;> cases h
    · next heq =>
      cases heq
      rw [if_pos ⟨ht, ho, hb, hhead⟩, hafter]
    · next hnone => exact (hnone _ _ _ _ rfl).elim

theorem exists_separator (h : readSeparator? cs = some rest) : ∃ front, cs = front ++ rest ∧ Separator front := by
  obtain ⟨left, hsplit, hleft⟩ := exists_blanks cs
  unfold readSeparator? at h
  split at h
  · next more hstrip =>
    cases h
    obtain ⟨right, hmore, hright⟩ := exists_blanks more
    refine ⟨_, ?_, .arrow hleft hright⟩
    rw [hsplit, hstrip]
    conv_lhs => rw [hmore]
    simp
  · next t o b more hother hstrip =>
    split at h
    · next hword =>
      obtain ⟨ht, ho, hb, hhead⟩ := hword
      cases h
      obtain ⟨right, hmore, hright⟩ := exists_blanks more
      have hne : left ≠ [] := by
        rintro rfl
        rw [hsplit, hstrip] at hhead
        rcases ht with rfl | rfl <;> cases hhead
      refine ⟨left ++ t :: o :: b :: right, ?_, .word hleft hne ht ho ?_ (by simp)⟩
      · rw [hsplit, hstrip]
        conv_lhs => rw [hmore]
        simp
      · intro c hc
        rcases List.mem_cons.mp hc with rfl | hc
        · exact hb
        · exact hright c hc
    · cases h
  · cases h

namespace Parts

variable (p : Parts)

theorem stripLeft_text : Text.stripLeft p.text = p.amount ++ p.afterAmount :=
  stripLeft_append p.lead_blanks (head_amount p.amount_spells)

theorem readFront?_amount : Numeral.readFront? (p.amount ++ p.afterAmount) = some (p.numeral, p.afterAmount) :=
  Numeral.readFront?_append p.amount_spells (ends_name p.gap_blanks p.source_name p.separator_separates)

theorem stripLeft_afterAmount : Text.stripLeft p.afterAmount = p.source ++ p.afterSource :=
  stripLeft_append p.gap_blanks p.source_name.head

theorem readName?_source : readName? (p.source ++ p.afterSource) = some (String.ofList p.source, p.afterSource) :=
  readName?_append p.source_name p.separator_separates.head

theorem readSeparator?_afterSource : readSeparator? p.afterSource = some (p.target ++ p.trail) :=
  readSeparator?_append p.separator_separates p.target_name.head

theorem readName?_target : readName? (p.target ++ p.trail) = some (String.ofList p.target, p.trail) := by
  apply readName?_append p.target_name
  intro c hc
  exact isNameChar_of_isBlank (p.trail_blanks c (List.mem_of_mem_head? hc))

theorem stripLeft_trail : Text.stripLeft p.trail = [] := by
  have h : Text.stripLeft (p.trail ++ []) = [] := stripLeft_append p.trail_blanks (by simp)
  rwa [List.append_nil] at h

/-- The parts of a request are the ones that are read. -/
theorem readChars?_text : readChars? p.text = some p.request := by
  simp only [readChars?, p.stripLeft_text, p.readFront?_amount, Option.bind_eq_bind, Option.bind_some,
    p.stripLeft_afterAmount,
    p.readName?_source, p.readSeparator?_afterSource, p.readName?_target, p.stripLeft_trail, if_true]
  rfl

/-- No text can be cut into the parts of a request in two ways. -/
theorem text_injective : Function.Injective text := by
  intro p q htext
  have hamount : p.amount ++ p.afterAmount = q.amount ++ q.afterAmount := by
    rw [← p.stripLeft_text, ← q.stripLeft_text, htext]
  have hfront : (p.numeral, p.afterAmount) = (q.numeral, q.afterAmount) := by
    rw [← Option.some_inj, ← p.readFront?_amount, ← q.readFront?_amount, hamount]
  obtain ⟨hnumeral, hafterAmount⟩ := Prod.mk.inj hfront
  have hsource : p.source ++ p.afterSource = q.source ++ q.afterSource := by
    rw [← p.stripLeft_afterAmount, ← q.stripLeft_afterAmount, hafterAmount]
  have hname : (String.ofList p.source, p.afterSource) = (String.ofList q.source, q.afterSource) := by
    rw [← Option.some_inj, ← p.readName?_source, ← q.readName?_source, hsource]
  have hafterSource : p.afterSource = q.afterSource := (Prod.mk.inj hname).2
  have htarget : p.target ++ p.trail = q.target ++ q.trail := by
    rw [← Option.some_inj, ← p.readSeparator?_afterSource, ← q.readSeparator?_afterSource, hafterSource]
  have hname' : (String.ofList p.target, p.trail) = (String.ofList q.target, q.trail) := by
    rw [← Option.some_inj, ← p.readName?_target, ← q.readName?_target, htarget]
  have htrail : p.trail = q.trail := (Prod.mk.inj hname').2
  -- Each part is what stands before a rest that both cuts leave.
  have cut {xs ys xs' ys' : List Char} (h : xs ++ ys = xs' ++ ys') (hrest : ys = ys') : xs = xs' := by
    rw [hrest] at h
    exact List.append_cancel_right h
  ext1
  · exact cut htext hamount
  · exact cut hamount hafterAmount
  · exact hnumeral
  · exact cut hafterAmount hsource
  · exact cut hsource hafterSource
  · exact cut hafterSource htarget
  · exact cut htarget htrail
  · exact htrail

end Parts

theorem exists_parts {r : Request} (h : readChars? cs = some r) : ∃ p : Parts, p.text = cs ∧ p.request = r := by
  unfold readChars? at h
  simp only [Option.bind_eq_bind, Option.bind_eq_some_iff] at h
  obtain ⟨⟨n, afterAmount⟩, hfront, ⟨source, afterSource⟩, hname, afterSeparator, hseparator,
    ⟨target, trail⟩, hname', h⟩ := h
  dsimp only at hname hseparator hname' h
  obtain ⟨lead, hlead, hleadBlanks⟩ := exists_blanks cs
  obtain ⟨amount, hamount, hspells⟩ := Numeral.exists_spells hfront
  obtain ⟨gap, hgap, hgapBlanks⟩ := exists_blanks afterAmount
  obtain ⟨sourceChars, hsource, hsourceName, rfl⟩ := exists_name hname
  obtain ⟨separator, rfl, hseparates⟩ := exists_separator hseparator
  obtain ⟨targetChars, rfl, htargetName, rfl⟩ := exists_name hname'
  obtain ⟨blanks, htrail, htrailBlanks⟩ := exists_blanks trail
  split at h
  · next hnil =>
    cases h
    rw [hnil, List.append_nil] at htrail
    rw [← htrail] at htrailBlanks
    refine ⟨⟨lead, amount, n, gap, sourceChars, separator, targetChars, trail, hleadBlanks, hspells,
      hgapBlanks, hsourceName,
      hseparates, htargetName, htrailBlanks⟩, ?_, rfl⟩
    rw [hsource] at hgap
    rw [hamount, hgap] at hlead
    exact hlead.symm
  · cases h

theorem read?_eq_some_iff {text : String} {r : Request} :
    read? text = some r ↔ ∃ p : Parts, p.text = text.toList ∧ p.request = r := by
  constructor
  · exact exists_parts
  · rintro ⟨p, htext, rfl⟩
    rw [read?, ← htext, p.readChars?_text]

end Metrology.Request
