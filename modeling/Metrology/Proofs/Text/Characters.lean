import Mathlib.Data.List.TakeWhile
import Metrology.Text.Blank
import Metrology.Text.Letter

/-! # Classes of characters, and what stripping leaves

No character is of two of the classes of blanks, letters and ASCII digits. A stripped text neither begins nor
ends with a blank, and a text that does not is left as it is.
-/
namespace Metrology.Text

def blankCodes : List Nat := [
  9, 10, 11, 12, 13, 28, 29, 30, 31, 32, 0x85, 0xA0, 0x1680, 0x2000, 0x2001, 0x2002, 0x2003, 0x2004,
    0x2005, 0x2006, 0x2007,
  0x2008, 0x2009, 0x200A, 0x2028, 0x2029, 0x202F, 0x205F, 0x3000]

theorem mem_blankCodes {c : Char} (h : isBlank c = true) : c.toNat ∈ blankCodes := by
  simp only [isBlank, Bool.or_eq_true, Bool.and_eq_true, decide_eq_true_eq, beq_iff_eq] at h
  simp only [blankCodes, List.mem_cons, List.not_mem_nil, or_false]
  omega

theorem isLetter_of_isBlank {c : Char} (h : isBlank c = true) : isLetter c = false := by
  have hall : ∀ n ∈ blankCodes, isLetter (Char.ofNat n) = false := by decide +kernel
  have hcode := hall _ (mem_blankCodes h)
  rwa [Char.ofNat_toNat] at hcode

theorem isDigit_bounds {c : Char} (h : c.isDigit = true) : 48 ≤ c.toNat ∧ c.toNat ≤ 57 := by
  simpa [Char.isDigit, UInt32.le_iff_toNat_le] using h

theorem isLetter_of_isDigit {c : Char} (h : c.isDigit = true) : isLetter c = false := by
  have hall : ∀ n ∈ List.range' 48 10, isLetter (Char.ofNat n) = false := by decide +kernel
  have hcode := hall c.toNat (by
    obtain ⟨hlow, hhigh⟩ := isDigit_bounds h
    simp only [List.mem_range'_1]
    omega)
  rwa [Char.ofNat_toNat] at hcode

theorem isBlank_of_isLetter {c : Char} (h : isLetter c = true) : isBlank c = false := by
  cases hc : isBlank c with
  | false => rfl
  | true =>
    rw [isLetter_of_isBlank hc] at h
    cases h

theorem isBlank_of_isDigit {c : Char} (h : c.isDigit = true) : isBlank c = false := by
  obtain ⟨hlow, hhigh⟩ := isDigit_bounds h
  simp only [isBlank, Bool.or_eq_false_iff, Bool.and_eq_false_iff, decide_eq_false_iff_not, beq_eq_false_iff_ne]
  omega

theorem head?_dropWhile (p : Char → Bool) (xs : List Char) : ∀ d ∈ (xs.dropWhile p).head?, p d = false := by
  intro d hd
  have hnot := List.head?_dropWhile_not p xs
  rw [Option.mem_def.mp hd] at hnot
  simpa using hnot

theorem takeWhile_append_of_stop {p : Char → Bool} {xs ys : List Char} (hxs : ∀ d ∈ xs, p d = true)
    (hys : ∀ d ∈ ys.head?, p d = false) : (xs ++ ys).takeWhile p = xs := by
  rw [List.takeWhile_append_of_pos hxs]
  cases ys with
  | nil => simp
  | cons y ys => simp [hys y rfl]

theorem dropWhile_append_of_stop {p : Char → Bool} {xs ys : List Char} (hxs : ∀ d ∈ xs, p d = true)
    (hys : ∀ d ∈ ys.head?, p d = false) : (xs ++ ys).dropWhile p = ys := by
  rw [List.dropWhile_append_of_pos hxs]
  cases ys with
  | nil => simp
  | cons y ys => simp [hys y rfl]

structure Trimmed (cs : List Char) : Prop where
  first : ∀ c ∈ cs.head?, isBlank c = false
  last : ∀ c ∈ cs.getLast?, isBlank c = false

theorem stripLeft_of_first {cs : List Char} (h : ∀ c ∈ cs.head?, isBlank c = false) : stripLeft cs = cs := by
  cases cs with
  | nil => rfl
  | cons c cs => simp [stripLeft, h c rfl]

theorem stripChars_of_trimmed {cs : List Char} (h : Trimmed cs) : stripChars cs = cs := by
  have hlast : stripLeft cs.reverse = cs.reverse := stripLeft_of_first (by simpa using h.last)
  rw [stripChars, stripLeft_of_first h.first, stripRight, hlast, List.reverse_reverse]

theorem stripRight_front (cs : List Char) : stripRight cs <+: cs := by
  rw [stripRight, ← List.reverse_suffix, List.reverse_reverse]
  exact List.dropWhile_suffix isBlank

theorem trimmed_stripChars (cs : List Char) : Trimmed (stripChars cs) where
  first := by
    intro c hc
    obtain ⟨rest, hrest⟩ := stripRight_front (stripLeft cs)
    have hc : (stripRight (stripLeft cs)).head? = some c := hc
    refine head?_dropWhile isBlank cs c ?_
    change (stripLeft cs).head? = some c
    rw [← hrest, List.head?_append, hc]
    rfl
  last := by
    intro c hc
    refine head?_dropWhile isBlank (stripLeft cs).reverse c ?_
    rwa [stripChars, stripRight, List.getLast?_reverse] at hc

theorem mem_of_mem_stripChars {cs : List Char} {c : Char} (h : c ∈ stripChars cs) : c ∈ cs :=
  (List.dropWhile_suffix isBlank).mem ((stripRight_front _).mem h)

theorem strip_eq_self_iff {s : String} : strip s = s ↔ Trimmed s.toList := by
  constructor
  · intro h
    have htrimmed := trimmed_stripChars s.toList
    rwa [← String.toList_ofList (l := stripChars s.toList), ← strip, h] at htrimmed
  · intro h
    rw [strip, stripChars_of_trimmed h, String.ofList_toList]

/-- Nothing is left of a text if and only if it is blank. -/
theorem isEmpty_strip (s : String) : (strip s).isEmpty = !s.toList.any fun c => !isBlank c := by
  have hright (cs : List Char) : stripRight cs = [] ↔ ∀ c ∈ cs, isBlank c = true := by
    rw [stripRight, List.reverse_eq_nil_iff, stripLeft, List.dropWhile_eq_nil_iff]
    simp
  have hleft (cs : List Char) : (∀ c ∈ stripLeft cs, isBlank c = true) ↔ ∀ c ∈ cs, isBlank c = true := by
    constructor
    · intro h c hc
      rw [← List.takeWhile_append_dropWhile (p := isBlank) (l := cs)] at hc
      rcases List.mem_append.mp hc with hc | hc
      · exact List.mem_takeWhile_imp hc
      · exact h c hc
    · intro h c hc
      exact h c ((List.dropWhile_suffix isBlank).mem hc)
  have hempty : (strip s).isEmpty = true ↔ stripChars s.toList = [] := by
    rw [strip, String.isEmpty_iff, String.ofList_eq_empty_iff]
  rw [Bool.eq_iff_iff, hempty, stripChars, hright, hleft]
  simp

end Metrology.Text
