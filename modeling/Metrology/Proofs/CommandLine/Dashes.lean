import Mathlib.Data.List.TakeWhile
import Metrology.CommandLine.Arguments

/-! # Arguments with a dash at their front

Such an argument is a part of the query only if no switch can be seen in it and, besides, it is a plain number
or has a space in it. Everything else that starts with a dash is held against the switches: two dashes and an
equals sign may stand for any of them, and the rest for none.
-/
namespace Metrology.CommandLine

def nameOf (cs : List Char) : List Char := cs.takeWhile fun c => c != '='

def Switch.word (s : Switch) : List Char := s.long.toList.drop 2

/-- Without its dashes, an argument gives a switch, or the front of one. -/
def Shortens (cs : List Char) (s : Switch) : Prop := nameOf cs ≠ [] ∧ nameOf cs <+: s.word

/-- The text after a dash, if the argument is more than dashes and no switch can be seen in it. -/
structure Plain (rest : List Char) : Prop where
  nonempty : rest ≠ []
  help : rest.head? ≠ some 'h'
  long : ∀ more, rest = '-' :: more → more ≠ [] ∧ ∀ s, ¬ Shortens more s

theorem Switch.long_eq (s : Switch) : s.long.toList = '-' :: '-' :: s.word := by
  cases s <;> decide

theorem Switch.nameOf_word (s : Switch) : nameOf s.word = s.word ∧ s.word ≠ [] := by
  cases s <;> decide

theorem Switch.mem_switches (s : Switch) : s ∈ switches := by
  cases s <;> decide

theorem nameOf_append (cs tail : List Char) : nameOf cs <+: nameOf (cs ++ tail) := by
  rw [nameOf, nameOf, List.takeWhile_append]
  split
  · exact (List.takeWhile_prefix _).trans (List.prefix_append _ _)
  · exact List.prefix_refl _

theorem splitValue_fst (cs : List Char) : (splitValue cs).1 = String.ofList (nameOf cs) := by
  have hsplit := List.takeWhile_append_dropWhile (p := fun c => c != '=') (l := cs)
  unfold splitValue nameOf
  split
  · next hnil =>
    rw [hnil, List.append_nil] at hsplit
    rw [hsplit]
  · rfl

theorem Switch.ofText?_eq_none {cs : List Char} (hshort : cs ≠ ['-', 'h'])
    (hlong : ∀ s : Switch, cs ≠ '-' :: '-' :: s.word) :
    Switch.ofText? (String.ofList cs) = none := by
  have hhelp : String.ofList cs ≠ "-h" := by
    intro h
    exact hshort (by rw [← String.toList_ofList (l := cs), h]; rfl)
  rw [Switch.ofText?, if_neg hhelp, List.find?_eq_none]
  intro s _ h
  exact hlong s (by rw [← s.long_eq, eq_of_beq h, String.toList_ofList])

namespace Plain

variable {rest : List Char}

/-- More text behind it does not make a switch of an argument. -/
theorem append (h : Plain rest) (tail : List Char) : Plain (rest ++ tail) := by
  obtain ⟨c, more, rfl⟩ := List.exists_cons_of_ne_nil h.nonempty
  refine ⟨by simp, by simpa using h.help, ?_⟩
  intro longer hlonger
  obtain ⟨rfl, rfl⟩ := List.cons.inj hlonger
  obtain ⟨hne, hno⟩ := h.long more rfl
  refine ⟨by simp [hne], fun s hs => hno s ?_⟩
  obtain ⟨d, more, rfl⟩ := List.exists_cons_of_ne_nil hne
  have hd : d ≠ '=' := by
    rintro rfl
    exact hs.1 rfl
  exact ⟨by simp [nameOf, hd], (nameOf_append (d :: more) tail).trans hs.2⟩

theorem ofText?_eq_none (h : Plain rest) : Switch.ofText? (String.ofList ('-' :: rest)) = none := by
  refine Switch.ofText?_eq_none ?_ fun s hlong => ?_
  · rintro ⟨⟩
    exact h.help rfl
  · obtain ⟨hname, hne⟩ := s.nameOf_word
    obtain ⟨-, rfl⟩ := List.cons.inj hlong
    exact (h.long s.word rfl).2 s ⟨by rwa [hname], by simp [hname]⟩

theorem ofText?_name (h : Plain rest) : Switch.ofText? (String.ofList (nameOf ('-' :: rest))) = none := by
  have hdash : nameOf ('-' :: rest) = '-' :: nameOf rest := rfl
  obtain ⟨c, more, rfl⟩ := List.exists_cons_of_ne_nil h.nonempty
  rw [hdash]
  by_cases hc : c = '='
  · subst hc
    exact Switch.ofText?_eq_none nofun nofun
  · have hname : nameOf (c :: more) = c :: nameOf more := by simp [nameOf, hc]
    rw [hname]
    refine Switch.ofText?_eq_none (fun hshort => ?_) fun s hlong => ?_
    · obtain ⟨rfl, -⟩ := List.cons.inj (List.cons.inj hshort).2
      exact h.help rfl
    · obtain ⟨rfl, hword⟩ := List.cons.inj (List.cons.inj hlong).2
      exact (h.long more rfl).2 s ⟨by rw [hword]; exact s.nameOf_word.2, by simp [hword]⟩

theorem startingWith_eq_nil {more : List Char} (h : Plain ('-' :: more)) (hequals : more.head? ≠ some '=') :
    Switch.startingWith (String.ofList (nameOf ('-' :: '-' :: more))) = [] := by
  obtain ⟨hne, hno⟩ := h.long more rfl
  obtain ⟨c, more, rfl⟩ := List.exists_cons_of_ne_nil hne
  have hc : c ≠ '=' := by simpa using hequals
  have hdashes : nameOf ('-' :: '-' :: c :: more) = '-' :: '-' :: nameOf (c :: more) := rfl
  unfold Switch.startingWith
  rw [List.filter_eq_nil_iff]
  intro s _
  rw [String.toList_ofList, hdashes, s.long_eq, List.isPrefixOf_iff_prefix, List.cons_prefix_cons,
    List.cons_prefix_cons]
  rintro ⟨-, -, hprefix⟩
  exact hno s ⟨by simp [nameOf, hc], hprefix⟩

/-- An argument without a switch is what its dash makes of it, unless an equals sign follows the second
dash. -/
theorem classify (h : Plain rest) (hequals : ∀ more, rest ≠ '-' :: '=' :: more) :
    classify (String.ofList ('-' :: rest)) = .ok (classifyDashed ('-' :: rest)) := by
  have hfst := splitValue_fst ('-' :: rest)
  obtain ⟨c, more, rfl⟩ := List.exists_cons_of_ne_nil h.nonempty
  unfold CommandLine.classify
  simp only [h.ofText?_eq_none, String.toList_ofList]
  cases hsplit : splitValue ('-' :: c :: more) with
  | mk name attachment =>
    rw [hsplit] at hfst
    obtain rfl : name = String.ofList (nameOf ('-' :: c :: more)) := hfst
    simp only [h.ofText?_name]
    split
    · next hsome _ => cases hsome
    · next hsome _ => cases hsome
    · next heq =>
      obtain ⟨rfl, -⟩ := List.cons.inj heq
      have hhead : more.head? ≠ some '=' := by
        intro hhead
        obtain ⟨tail, rfl⟩ := List.head?_eq_some_iff.mp hhead
        exact hequals tail rfl
      simp only [classifyLong, hsplit, h.startingWith_eq_nil hhead]
    · next heq =>
      obtain ⟨rfl, -⟩ := List.cons.inj heq
      exact absurd rfl h.help
    · rfl

end Plain

/-- Two dashes alone are the front of every switch. -/
theorem classify_equals (more : List Char) : classify (String.ofList ('-' :: '-' :: '=' :: more)) =
    .error (.ambiguous (String.ofList ('-' :: '-' :: '=' :: more)) switches) := by
  have htext : Switch.ofText? (String.ofList ('-' :: '-' :: '=' :: more)) = none := by
    refine Switch.ofText?_eq_none nofun fun s hlong => ?_
    cases s <;> simp [Switch.word, Switch.long] at hlong
  have hsplit : splitValue ('-' :: '-' :: '=' :: more) = ("--", .value (String.ofList more)) := rfl
  have hname : Switch.ofText? "--" = none := by decide
  have hall : Switch.startingWith "--" = switches := by decide
  unfold classify
  simp only [htext, String.toList_ofList, hsplit, hname, classifyLong, hall]
  rfl

theorem classify_part {text : String} (h : text.toList.head? ≠ some '-') : classify text = .ok (.part text) := by
  have htext : Switch.ofText? text = none := by
    rw [← String.ofList_toList (s := text)]
    exact Switch.ofText?_eq_none (fun hshort => h (by rw [hshort]; rfl)) fun s hlong => h (by rw [hlong]; rfl)
  unfold classify
  rw [htext]
  dsimp only
  split
  · rfl
  · next heq => exact absurd (by rw [heq]; rfl) h
  · rfl

/-- Whether an argument is held against the switches, in vain. -/
def mistaken : List Char → Bool
  | '-' :: rest => ['-', '='].isPrefixOf rest || !(isNumber rest || ('-' :: rest).contains ' ')
  | _ => false

def mistake (text : String) : UsageError :=
  if ['-', '-', '='].isPrefixOf text.toList then .ambiguous text switches else .unrecognized [text]

theorem classifyAll_single {text : String} (h : text ≠ "--") :
    classifyAll [text] = (classify text).map fun a => [a] := by
  unfold classifyAll
  split
  · next heq => cases heq
  · next heq => exact absurd (List.cons.inj heq).1 h
  · next heq =>
    obtain ⟨rfl, rfl⟩ := List.cons.inj heq
    cases classify text <;> rfl

/-- A single argument without a switch in it is the query as a whole, or a mistake. -/
theorem readArguments_single {text : String} (h : ∀ rest, text.toList = '-' :: rest → Plain rest) :
    readArguments [text] =
    if mistaken text.toList then .error (.usage (mistake text)) else .ok { Arguments.empty with query := [text] } := by
  -- Two dashes alone would be a mark; a plain text does not end there.
  have hmark : text ≠ "--" := by
    rintro rfl
    exact ((h ['-'] (by decide)).long [] rfl).1 rfl
  unfold readArguments
  rw [classifyAll_single hmark]
  by_cases hdash : text.toList.head? = some '-'
  · obtain ⟨rest, hrest⟩ := List.head?_eq_some_iff.mp hdash
    have hplain := h rest hrest
    obtain rfl : text = String.ofList ('-' :: rest) := by rw [← hrest, String.ofList_toList]
    -- The name before an equals sign is empty only here, and only then all switches begin with it.
    by_cases hequals : ∃ more, rest = '-' :: '=' :: more
    · obtain ⟨more, rfl⟩ := hequals
      rw [classify_equals]
      simp [mistaken, mistake, Except.map]
    · rw [not_exists] at hequals
      have hno : ['-', '='].isPrefixOf rest = false := by
        rw [Bool.eq_false_iff, Ne, List.isPrefixOf_iff_prefix]
        rintro ⟨more, rfl⟩
        exact hequals more rfl
      rw [hplain.classify hequals]
      simp only [Except.map, classifyDashed, List.tail_cons, mistaken, mistake, String.toList_ofList]
      by_cases hpart : (isNumber rest || ('-' :: rest).contains ' ') = true
      · simp only [hpart, hno, if_true, Bool.not_true, Bool.or_false, Bool.false_eq_true, if_false]
        rfl
      · have hlong : ['-', '-', '='].isPrefixOf ('-' :: rest) = false := by simpa [List.isPrefixOf] using hno
        simp only [Bool.eq_false_iff.mpr hpart, hno, hlong, Bool.not_false, Bool.or_true, Bool.false_eq_true,
          if_false, if_true]
        rfl
  · have hright : mistaken text.toList = false := by
      unfold mistaken
      split
      · next heq => exact absurd (by rw [heq]; rfl) hdash
      · rfl
    rw [classify_part hdash, hright]
    rfl

end Metrology.CommandLine
