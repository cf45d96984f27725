import Metrology.Proofs.Formula.Scanning
import Metrology.Proofs.Request.Grammar

/-! # Requests and formulas

A text in the shape of a request has no brace before its arrow, so whoever reads it as a formula comes to the
arrow, as a sign or as a word, and has to take it for one.
-/
namespace Metrology

open Formula

/-- A front without an opening brace has been taken off a text. -/
def Passes (cs rest : List Char) : Prop := ∃ used, cs = used ++ rest ∧ '{' ∉ used

/-- An arrow at the front of a text, behind nothing but blanks: a sign, or a word between blanks. -/
inductive Arrow : List Char → Prop
  | sign {blanks more : List Char} (hblanks : ∀ c ∈ blanks, Text.isBlank c = true) :
      Arrow (blanks ++ '-' :: '>' :: more)
  | word {blanks more : List Char} {b t o b' : Char} (hblanks : ∀ c ∈ blanks, Text.isBlank c = true)
      (hb : Text.isBlank b = true) (ht : t = 't' ∨ t = 'T') (ho : o = 'o' ∨ o = 'O') (hb' : Text.isBlank b' = true) :
      Arrow (blanks ++ b :: t :: o :: b' :: more)

theorem arrow_of_separator {cs : List Char} (h : Request.Separator cs) (rest : List Char) : Arrow (cs ++ rest) := by
  cases h with
  | arrow hleft hright =>
    rw [List.append_assoc]
    exact .sign hleft
  | @word left right t o hleft hleft' ht ho hright hright' =>
    obtain ⟨blanks, b, rfl⟩ := List.eq_nil_or_concat left |>.resolve_left hleft'
    obtain ⟨b', more, rfl⟩ := List.exists_cons_of_ne_nil hright'
    rw [List.concat_eq_append, List.append_assoc, List.append_assoc]
    refine .word (fun c hc => hleft c ?_) (hleft b ?_) ht ho (hright b' List.mem_cons_self)
    · simp [hc]
    · simp

/-- No part of a request has a brace in it. -/
theorem passes_afterSource (p : Request.Parts) : Passes p.text p.afterSource := by
  have hblanks {blanks : List Char} (h : Request.Blanks blanks) : '{' ∉ blanks := by
    intro hmem
    cases h _ hmem
  have hamount : '{' ∉ p.amount := by
    intro hmem
    rcases p.amount_spells.mem _ hmem with hdigit | hmark
    · cases hdigit
    · simp at hmark
  have hsource : '{' ∉ p.source := by
    intro hmem
    have hname := p.source_name.chars _ hmem
    revert hname
    decide +kernel
  refine ⟨p.lead ++ (p.amount ++ (p.gap ++ p.source)), ?_, ?_⟩
  · rw [Request.Parts.text, Request.Parts.afterAmount]
    simp only [List.append_assoc]
  · simp only [List.mem_append, not_or]
    exact ⟨hblanks p.lead_blanks, hamount, hblanks p.gap_blanks, hsource⟩

theorem arrow_of_readChars? {cs : List Char} {r : Request} (h : Request.readChars? cs = some r) :
    ∃ rest, Passes cs rest ∧ Arrow rest := by
  obtain ⟨p, rfl, -⟩ := Request.exists_parts h
  exact ⟨p.afterSource, passes_afterSource p, arrow_of_separator p.separator_separates _⟩

namespace Formula

variable {prev : Option Token} {more : List Char} {ts : List Token}

theorem mem_of_scans_arrow (h : Scans prev ('-' :: '>' :: more) ts) : .operator .convert ∈ ts := by
  obtain ⟨l, after, ts', hlexeme, -, rfl⟩ := h.exists_lexeme
  rw [lexeme_arrow] at hlexeme
  cases hlexeme
  exact List.mem_cons_self

theorem mem_of_scans_word {t o b : Char} (ht : t = 't' ∨ t = 'T') (ho : o = 'o' ∨ o = 'O') (hb : Text.isBlank b = true)
    (h : Scans prev (t :: o :: b :: more) ts) : .operator .convert ∈ ts := by
  have hletters : (['t', 'T', 'o', 'O'].all isIdentifierChar) = true := by decide +kernel
  have hmem : isIdentifierChar t = true ∧ isIdentifierChar o = true := by
    have hall := List.all_eq_true.mp hletters
    exact ⟨hall t (by rcases ht with rfl | rfl <;> simp), hall o (by rcases ho with rfl | rfl <;> simp)⟩
  have hkeyword : keyword? (String.ofList [t, o]) = some (.operator .convert) := by
    rcases ht with rfl | rfl <;> rcases ho with rfl | rfl <;> rfl
  have hname : readIdentifier t (o :: b :: more) = (.token (.operator .convert), b :: more) := by
    refine readIdentifier_eq.mpr ⟨[o], rfl, by simpa using hmem.2, ?_, by rw [hkeyword]; rfl⟩
    simpa using (separates_of_isBlank hb).name
  obtain ⟨l, after, ts', hlexeme, -, rfl⟩ := h.exists_lexeme
  rw [lexeme_of_isIdentifierChar hmem.1, hname] at hlexeme
  cases hlexeme
  exact List.mem_cons_self

theorem mem_of_scans_blank {b : Char} (hb : Text.isBlank b = true) (h : Scans prev (b :: more) ts) :
    Scans prev more ts := by
  obtain ⟨l, after, ts', hlexeme, hrest, rfl⟩ := h.exists_lexeme
  rw [lexeme_of_isBlank hb] at hlexeme
  cases hlexeme
  exact hrest

end Formula

/-- A request that is read as a formula has an arrow among its tokens. -/
theorem arrow_mem_of_request {cs : List Char} {r : Request} (h : Request.readChars? cs = some r) {ts : List Token}
    (hts : tokenize cs = .ok ts) : .operator .convert ∈ ts := by
  obtain ⟨rest, ⟨used, rfl, hused⟩, harrow⟩ := arrow_of_readChars? h
  have hblank : ∀ {blanks : List Char}, (∀ c ∈ blanks, Text.isBlank c = true) → '{' ∉ used ++ blanks := by
    intro blanks hblanks hmem
    rcases List.mem_append.mp hmem with hmem | hmem
    · exact hused hmem
    · cases hblanks _ hmem
  have hscans := tokenize_eq_ok.mp hts
  cases harrow with
  | sign hblanks =>
    rw [← List.append_assoc] at hscans
    obtain ⟨prev, before, after, rfl, -, hafter⟩ :=
      hscans.split ⟨by decide, by decide +kernel, by decide⟩ (hblank hblanks)
    exact List.mem_append_right _ (mem_of_scans_arrow hafter)
  | word hblanks hb ht ho hb' =>
    rw [← List.append_assoc] at hscans
    obtain ⟨prev, before, after, rfl, -, hafter⟩ := hscans.split (separates_of_isBlank hb) (hblank hblanks)
    exact List.mem_append_right _ (mem_of_scans_word ht ho hb' (mem_of_scans_blank hb hafter))

end Metrology
