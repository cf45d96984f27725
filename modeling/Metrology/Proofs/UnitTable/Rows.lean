import Mathlib.Data.List.Induction
import Mathlib.Data.List.Nodup
import Metrology.UnitTable

/-! # Rows of the table of units

The table is cut into rows, one for each unit of each category in the order of their first entries. A row has
the symbols of its unit in table order, and all rows together have the entries of the table, each as often as
it is there.
-/
namespace Metrology

/-- The distinct members of a list in the order of their first appearance. -/
structure FirstAppearances {α : Type} [BEq α] (xs ys : List α) : Prop where
  mem : ∀ a, a ∈ ys ↔ a ∈ xs
  order : ys.Pairwise fun a b => xs.idxOf a < xs.idxOf b

section

variable {α : Type} [BEq α] {xs ys : List α}

theorem FirstAppearances.nodup (h : FirstAppearances xs ys) : ys.Nodup := by
  refine h.order.imp fun hlt he => ?_
  rw [he] at hlt
  exact Nat.lt_irrefl _ hlt

variable [LawfulBEq α]

theorem eraseDups_concat (xs : List α) (a : α) :
    (xs ++ [a]).eraseDups = if a ∈ xs then xs.eraseDups else xs.eraseDups ++ [a] := by
  rw [List.eraseDups_append]
  by_cases ha : a ∈ xs
  · simp [List.removeAll, ha]
  · simp [List.removeAll, ha, List.eraseDups_cons]

theorem firstAppearances_eraseDups (xs : List α) : FirstAppearances xs xs.eraseDups := by
  refine ⟨fun a => List.mem_eraseDups, ?_⟩
  induction xs using List.reverseRecOn with
  | nil => exact List.Pairwise.nil
  | append_singleton xs a ih =>
    have hkept : xs.eraseDups.Pairwise fun b c => (xs ++ [a]).idxOf b < (xs ++ [a]).idxOf c := by
      refine ih.imp_of_mem fun hb hc hlt => ?_
      rwa [List.idxOf_append, List.idxOf_append, if_pos (List.mem_eraseDups.mp hb), if_pos (List.mem_eraseDups.mp hc)]
    rw [eraseDups_concat]
    split
    · exact hkept
    · next ha =>
      refine List.pairwise_append.mpr ⟨hkept, List.pairwise_singleton _ _, fun b hb c hc => ?_⟩
      obtain rfl := List.mem_singleton.mp hc
      have hb := List.mem_eraseDups.mp hb
      have hlt := List.idxOf_lt_length_of_mem hb
      rw [List.idxOf_append, List.idxOf_append, if_pos hb, if_neg ha]
      omega

end

namespace UnitTable

def key (e : UnitEntry) : String × String := (e.category, e.unit)

def Row.key (r : Row) : String × String := (r.category, r.unit)

def Row.entries (r : Row) : List UnitEntry := r.abbreviations.map fun s => ⟨r.unit, s, r.category⟩

def keys (table : UnitTable) : List (String × String) := (table.map key).eraseDups

def row (table : UnitTable) (k : String × String) : Row := ⟨k.2, k.1, table.abbreviationsFor k.2 k.1⟩

theorem key_row (table : UnitTable) (k : String × String) : (table.row k).key = k := rfl

variable {table : UnitTable} {e : UnitEntry} {k : String × String}

theorem row_concat_of_ne (h : key e ≠ k) : row (table ++ [e]) k = table.row k := by
  have hother : (e.unit == k.2 && e.category == k.1) = false := by
    rw [Bool.and_eq_false_iff, beq_eq_false_iff_ne, beq_eq_false_iff_ne]
    by_contra hboth
    obtain ⟨hunit, hcategory⟩ := not_or.mp hboth
    exact h (Prod.ext (not_not.mp hcategory) (not_not.mp hunit))
  simp [row, abbreviationsFor, hother]

theorem row_concat_self (table : UnitTable) (e : UnitEntry) : row (table ++ [e]) (key e) =
    { table.row (key e) with abbreviations := (table.row (key e)).abbreviations ++ [e.symbol] } := by
  simp [row, abbreviationsFor, key]

theorem abbreviations_row_of_not_mem (h : k ∉ table.map key) : (table.row k).abbreviations = [] := by
  rw [row, abbreviationsFor, List.map_eq_nil_iff, List.filter_eq_nil_iff]
  intro e he hunit
  rw [Bool.and_eq_true, beq_iff_eq, beq_iff_eq] at hunit
  exact h (List.mem_map.mpr ⟨e, he, Prod.ext hunit.2 hunit.1⟩)

/-- An entry goes to the end of the row of its unit, or into a row of its own behind all others. -/
theorem insertRow_rows (table : UnitTable) (e : UnitEntry) {ks : List (String × String)} (hks : ks.Nodup) :
    insertRow (ks.map table.row) e =
      if key e ∈ ks then ks.map (row (table ++ [e]))
      else ks.map (row (table ++ [e])) ++ [⟨e.unit, e.category, [e.symbol]⟩] := by
  induction ks with
  | nil => rfl
  | cons k rest ih =>
    obtain ⟨hk, hrest⟩ := List.nodup_cons.mp hks
    rw [List.map_cons, List.map_cons, insertRow]
    by_cases hkey : key e = k
    · subst hkey
      have hsame : rest.map (row (table ++ [e])) = rest.map table.row :=
        List.map_congr_left fun k' hk' => row_concat_of_ne fun h => hk (h ▸ hk')
      rw [if_pos ⟨rfl, rfl⟩, if_pos List.mem_cons_self, row_concat_self, hsame]
    · have hother : ¬ ((table.row k).unit = e.unit ∧ (table.row k).category = e.category) := fun h =>
        hkey (Prod.ext h.2.symm h.1.symm)
      rw [if_neg hother, ih hrest, row_concat_of_ne hkey]
      by_cases hmem : key e ∈ rest
      · rw [if_pos hmem, if_pos (List.mem_cons_of_mem k hmem)]
      · rw [if_neg hmem, if_neg (by simp [hkey, hmem])]
        rfl

theorem keys_concat (table : UnitTable) (e : UnitEntry) :
    keys (table ++ [e]) = if key e ∈ table.keys then table.keys else table.keys ++ [key e] := by
  simp only [keys, List.map_append, List.map_cons, List.map_nil, eraseDups_concat, List.mem_eraseDups]

theorem firstAppearances_keys (table : UnitTable) : FirstAppearances (table.map key) table.keys :=
  firstAppearances_eraseDups _

theorem rows_eq (table : UnitTable) : table.rows = table.keys.map table.row := by
  induction table using List.reverseRecOn with
  | nil => rfl
  | append_singleton table e ih =>
    have hstep : rows (table ++ [e]) = insertRow (rows table) e := List.foldl_concat insertRow [] e table
    rw [hstep, ih, insertRow_rows table e (firstAppearances_keys table).nodup, keys_concat]
    split
    · rfl
    · next hnew =>
      have hnone : (row table (key e)).abbreviations = [] :=
        abbreviations_row_of_not_mem fun h => hnew (List.mem_eraseDups.mpr h)
      rw [List.map_append, List.map_singleton, row_concat_self, hnone]
      rfl

theorem map_key_rows (table : UnitTable) : table.rows.map Row.key = table.keys := by
  rw [rows_eq, List.map_map]
  exact List.map_id table.keys

theorem mem_rows {r : Row} (h : r ∈ table.rows) : r.key ∈ table.keys ∧ r = table.row r.key := by
  rw [rows_eq] at h
  obtain ⟨k, hk, rfl⟩ := List.mem_map.mp h
  exact ⟨hk, rfl⟩

theorem row_mem (h : e ∈ table) : table.row (key e) ∈ table.rows := by
  rw [rows_eq]
  exact List.mem_map_of_mem (List.mem_eraseDups.mpr (List.mem_map_of_mem h))

theorem entries_row (table : UnitTable) (k : String × String) :
    (table.row k).entries = table.filter fun e => key e == k := by
  have hfilter : (table.filter fun e => e.unit == k.2 && e.category == k.1) = table.filter fun e => key e == k := by
    refine List.filter_congr fun e _ => ?_
    rw [Bool.eq_iff_iff, Bool.and_eq_true, beq_iff_eq, beq_iff_eq, beq_iff_eq, key, Prod.ext_iff]
    exact and_comm
  rw [Row.entries, row, abbreviationsFor, hfilter, List.map_map]
  refine (List.map_congr_left fun e he => ?_).trans (List.map_id _)
  have hkey : key e = k := eq_of_beq (List.mem_filter.mp he).2
  rw [← hkey]
  rfl

theorem mem_entries_iff {r : Row} (hr : r ∈ table.rows) : e ∈ r.entries ↔ e ∈ table ∧ key e = r.key := by
  rw [(mem_rows hr).2, entries_row, key_row, List.mem_filter, beq_iff_eq]

/-- Sorting entries by their keys loses none. -/
theorem flatMap_filter_perm {ks : List (String × String)} (hks : ks.Nodup) (h : ∀ e ∈ table, key e ∈ ks) :
    (ks.flatMap fun k => table.filter fun e => key e == k).Perm table := by
  induction ks generalizing table with
  | nil =>
    cases table with
    | nil => exact .nil
    | cons e rest => cases h e List.mem_cons_self
  | cons k rest ih =>
    obtain ⟨hk, hrest⟩ := List.nodup_cons.mp hks
    -- The other keys find the same entries where those of the first key are left out.
    have hothers : (rest.flatMap fun k' => table.filter fun e => key e == k') =
        rest.flatMap fun k' => (table.filter fun e => !(key e == k)).filter fun e => key e == k' := by
      refine List.flatMap_congr fun k' hk' => ?_
      rw [List.filter_filter]
      refine List.filter_congr fun e _ => ?_
      by_cases hkey : key e = k'
      · have hne : k' ≠ k := fun he => hk (he ▸ hk')
        simp [hkey, hne]
      · simp [hkey]
    have hleft : ∀ e ∈ table.filter fun e => !(key e == k), key e ∈ rest := by
      intro e he
      obtain ⟨he, hne⟩ := List.mem_filter.mp he
      rcases List.mem_cons.mp (h e he) with hkey | hkey
      · simp [hkey] at hne
      · exact hkey
    rw [List.flatMap_cons, hothers]
    exact ((ih hrest hleft).append_left _).trans (List.filter_append_perm _ table)

/-- The rows hold the entries of the table. -/
theorem entries_perm (table : UnitTable) : (table.rows.flatMap Row.entries).Perm table := by
  have hentries : table.rows.flatMap Row.entries = table.keys.flatMap fun k => table.filter fun e => key e == k := by
    rw [rows_eq, List.flatMap_map]
    exact List.flatMap_congr fun k _ => entries_row table k
  rw [hentries]
  exact flatMap_filter_perm (firstAppearances_keys table).nodup fun e he =>
    List.mem_eraseDups.mpr (List.mem_map_of_mem he)

theorem existsUnique_row (h : e ∈ table) : ∃! r, r ∈ table.rows ∧ e ∈ r.entries := by
  have hrow := row_mem h
  refine ⟨table.row (key e), ⟨hrow, (mem_entries_iff hrow).mpr ⟨h, rfl⟩⟩, ?_⟩
  rintro r ⟨hr, he⟩
  rw [(mem_rows hr).2, ((mem_entries_iff hr).mp he).2]

end UnitTable

end Metrology
