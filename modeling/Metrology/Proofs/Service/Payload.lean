import Mathlib.Data.List.Forall2
import Metrology.Service.Payload

/-! # What is sent of a payload

A payload can be sent once the numbers in it that are not finite have been written out. `safe` does this at
every depth and changes nothing else, so a payload without such numbers is sent as it is.
-/
namespace Metrology.Service.Payload

variable {p q : Payload} {items : List Payload} {fields : List (String × Payload)}

inductive Holds : Payload → Float → Prop
  | number (x : Float) : Holds (.number x) x
  | item {items : List Payload} {p : Payload} {x : Float} (hp : p ∈ items) (h : Holds p x) : Holds (.list items) x
  | field {fields : List (String × Payload)} {f : String × Payload} {x : Float} (hf : f ∈ fields) (h : Holds f.2 x) :
      Holds (.record fields) x

def Finite (p : Payload) : Prop := ∀ x, p.Holds x → x.isFinite = true

/-- A payload and what is sent of it: the text of a number that is not finite, and everything else as it
is. -/
inductive Sends : Payload → Payload → Prop
  | flag (b : Bool) : Sends (.flag b) (.flag b)
  | count (n : Nat) : Sends (.count n) (.count n)
  | text (s : String) : Sends (.text s) (.text s)
  | number {x : Float} (h : x.isFinite = true) : Sends (.number x) (.number x)
  | written {x : Float} (h : x.isFinite = false) : Sends (.number x) (.text (Decimal.plain x))
  | list {items items' : List Payload} (h : List.Forall₂ Sends items items') : Sends (.list items) (.list items')
  | record {fields fields' : List (String × Payload)} (hnames : fields.map Prod.fst = fields'.map Prod.fst)
      (h : List.Forall₂ Sends (fields.map Prod.snd) (fields'.map Prod.snd)) : Sends (.record fields) (.record fields')

/-- Induction on payloads, with the hypothesis for all items of a list and all fields of a record. -/
@[elab_as_elim]
theorem inductionOn {motive : Payload → Prop} (p : Payload) (flag : ∀ b, motive (.flag b))
    (count : ∀ n, motive (.count n)) (number : ∀ x, motive (.number x)) (text : ∀ s, motive (.text s))
    (list : ∀ items, (∀ p ∈ items, motive p) → motive (.list items))
    (record : ∀ fields : List (String × Payload), (∀ f ∈ fields, motive f.2) → motive (.record fields)) : motive p := by
  cases p with
  | flag b => exact flag b
  | count n => exact count n
  | number x => exact number x
  | text s => exact text s
  | list items => exact list items fun p hp => inductionOn p flag count number text list record
  | record fields => exact record fields fun f hf => inductionOn f.2 flag count number text list record
termination_by sizeOf p
decreasing_by
  · have hlt := List.sizeOf_lt_of_mem hp
    simp only [Payload.list.sizeOf_spec]
    omega
  · obtain ⟨name, p⟩ := f
    have hlt := List.sizeOf_lt_of_mem hf
    simp only [Payload.record.sizeOf_spec, Prod.mk.sizeOf_spec] at hlt ⊢
    omega

theorem safeItems_eq_map (items : List Payload) : safeItems items = items.map safe := by
  induction items with
  | nil => rfl
  | cons p rest ih => rw [safeItems, ih, List.map_cons]

theorem safeFields_eq_map (fields : List (String × Payload)) : safeFields fields = fields.map fun f =>
    (f.1, f.2.safe) := by
  induction fields with
  | nil => rfl
  | cons f rest ih => rw [safeFields, ih, List.map_cons]

theorem sends_ofFloat (x : Float) : Sends (.number x) (ofFloat x) := by
  unfold ofFloat
  split
  · next h => exact .number h
  · next h => exact .written (by simpa using h)

theorem sends_safe (p : Payload) : Sends p p.safe := by
  induction p using inductionOn with
  | flag b => exact .flag b
  | count n => exact .count n
  | number x => exact sends_ofFloat x
  | text s => exact .text s
  | list items ih =>
    rw [safe, safeItems_eq_map]
    exact .list (List.forall₂_map_right_iff.mpr (List.forall₂_same.mpr ih))
  | record fields ih =>
    rw [safe, safeFields_eq_map]
    refine .record ?_ ?_
    · rw [List.map_map]
      rfl
    · rw [List.map_map, List.forall₂_map_left_iff, List.forall₂_map_right_iff, List.forall₂_same]
      exact ih

/-- What is sent has finite numbers only. -/
theorem Sends.finite (h : Sends p q) : q.Finite := by
  intro x hx
  induction hx generalizing p with
  | number x =>
    cases h with
    | number hfinite => exact hfinite
  | @item items q x hq _ ih =>
    cases h with
    | list h =>
      obtain ⟨i, hi, rfl⟩ := List.mem_iff_getElem.mp hq
      exact ih (h.get (by rw [h.length_eq]; exact hi) hi)
  | @field fields f x hf _ ih =>
    cases h with
    | record hnames h =>
      have hmem : f.2 ∈ fields.map Prod.snd := List.mem_map_of_mem hf
      obtain ⟨i, hi, hf⟩ := List.mem_iff_getElem.mp hmem
      rw [← hf] at ih
      exact ih (h.get (by rw [h.length_eq]; exact hi) hi)

/-- Finite numbers are sent as they are, and so is all else. -/
theorem Finite.sends_self (h : p.Finite) : Sends p p := by
  induction p using inductionOn with
  | flag b => exact .flag b
  | count n => exact .count n
  | number x => exact .number (h x (.number x))
  | text s => exact .text s
  | list items ih =>
    refine .list (List.forall₂_same.mpr ?_)
    intro p hp
    exact ih p hp fun x hx => h x (.item hp hx)
  | record fields ih =>
    refine .record rfl ?_
    rw [List.forall₂_map_left_iff, List.forall₂_map_right_iff, List.forall₂_same]
    intro f hf
    exact ih f hf fun x hx => h x (.field hf hx)

theorem finite_flag (b : Bool) : (flag b).Finite := by
  rintro x ⟨⟩

theorem finite_count (n : Nat) : (count n).Finite := by
  rintro x ⟨⟩

theorem finite_text (s : String) : (text s).Finite := by
  rintro x ⟨⟩

theorem finite_list (h : ∀ p ∈ items, p.Finite) : (list items).Finite := by
  intro x hx
  cases hx with
  | item hp hx => exact h _ hp x hx

theorem finite_record (h : ∀ f ∈ fields, f.2.Finite) : (record fields).Finite := by
  intro x hx
  cases hx with
  | field hf hx => exact h _ hf x hx

theorem finite_texts (xs : List String) : (texts xs).Finite := by
  apply finite_list
  intro p hp
  obtain ⟨s, -, rfl⟩ := List.mem_map.mp hp
  exact finite_text s

theorem finite_ofRow (r : UnitTable.Row) : (ofRow r).Finite := by
  apply finite_record
  simp [finite_text, finite_texts]

end Metrology.Service.Payload
