import Metrology.Algebra.Literal
import Metrology.Decimal.Numeral
import Metrology.Proofs.Decimal.Nearest
import Metrology.Proofs.Decimal.Notation

/-! # Literals and their texts

The text of a double is a numeral for the very number that its shortest digits denote, in whichever of its
forms the digits are written. A literal therefore stands for the decimal number that its text says, unless it
is integral.
-/
namespace Metrology.Decimal

def Numeral.rational (n : Numeral) : ℚ := (if n.negative then -1 else 1) * (natOfDigits n.digits * 10 ^ n.scale)

/-! ## Runs of digits -/

def digitOf (c : Char) : Nat := c.toNat - 48

theorem digitValue?_of_isDigit {c : Char} (h : c.isDigit = true) : Text.digitValue? c = some (digitOf c) := by
  have hrange : 48 ≤ c.toNat ∧ c.toNat ≤ 57 := by
    simp only [Char.isDigit, Bool.and_eq_true, decide_eq_true_eq] at h
    exact h
  have hlow : c.toNat < 128 := by omega
  simp [Text.digitValue?, hlow, h, digitOf]

theorem spelled_map {cs : List Char} (h : ∀ c ∈ cs, c.isDigit = true) : Spelled cs (cs.map digitOf) := by
  rw [Spelled, List.forall₂_map_right_iff, List.forall₂_same]
  intro c hc
  exact digitValue?_of_isDigit (h c hc)

theorem natOfDigits_map (cs : List Char) : natOfDigits (cs.map digitOf) = Nat.ofDigitChars 10 cs 0 := by
  rw [natOfDigits, List.foldl_map]
  rfl

theorem ofDigitChars_zeros (count n : Nat) : Nat.ofDigitChars 10 (List.replicate count '0') n = n * 10 ^ count := by
  induction count generalizing n with
  | zero => simp [Nat.ofDigitChars]
  | succ count ih =>
    rw [List.replicate_succ, Nat.ofDigitChars_cons, ih, Nat.pow_succ]
    simp
    ring

theorem exponent_exponentText (e : Int) : Numeral.Exponent e (exponentText e) := by
  have hdigits : ∀ c ∈ Nat.toDigits 10 e.natAbs, c.isDigit = true :=
    fun c hc => Nat.isDigit_of_mem_toDigits (by norm_num) (by norm_num) hc
  have hvalue : Nat.ofDigitChars 10 (Nat.toDigits 10 e.natAbs) 0 = e.natAbs :=
    Nat.ofDigitChars_toDigits (by norm_num) (by norm_num)
  obtain ⟨padded, hpadded, hne, hall, hsame⟩ : ∃ padded,
    exponentText e = 'e' :: (if e < 0 then '-' else '+') :: padded ∧
      padded ≠ [] ∧ (∀ c ∈ padded, c.isDigit = true) ∧ Nat.ofDigitChars 10 padded 0 = e.natAbs := by
    refine ⟨_, rfl, ?_, ?_, ?_⟩
    · split
      · simp
      · exact Nat.toDigits_ne_nil
    · split
      · intro c hc
        rcases List.mem_cons.mp hc with rfl | hc
        · rfl
        · exact hdigits c hc
      · exact hdigits
    · split
      · rw [Nat.ofDigitChars_cons]
        exact hvalue
      · exact hvalue
  have hnat : natOfDigits (padded.map digitOf) = e.natAbs := by rw [natOfDigits_map, hsame]
  have hmap : padded.map digitOf ≠ [] := by simpa using hne
  rw [hpadded]
  by_cases hsign : e < 0
  · have hexponent := Numeral.Exponent.present (.inl rfl) .minus hmap (spelled_map hall)
    have he : -(e.natAbs : Int) = e := by omega
    rw [hnat, if_pos rfl, he] at hexponent
    rwa [if_pos hsign]
  · have hexponent := Numeral.Exponent.present (.inl rfl) .plus hmap (spelled_map hall)
    have he : (e.natAbs : Int) = e := by omega
    rw [hnat, if_neg Bool.false_ne_true, he] at hexponent
    rwa [if_neg hsign]

/-- A text is read as the numeral that its parts make up. -/
theorem read?_parts (negative : Bool) {whole fraction point tail : List Char} {e : Int} (hne : whole ≠ [])
    (hwhole : ∀ c ∈ whole, c.isDigit = true) (hfraction : ∀ c ∈ fraction, c.isDigit = true)
    (hpoint : point = '.' :: fraction ∨ (point = [] ∧ fraction = []))
    (htail : tail = exponentText e ∨ (tail = [] ∧ e = 0)) :
    Numeral.read? (if negative then '-' :: (whole ++ point ++ tail) else whole ++ point ++ tail) =
      some ⟨negative, (whole ++ fraction).map digitOf, e - fraction.length⟩ := by
  have hmap : whole.map digitOf ≠ [] := by simpa using hne
  have hmantissa : Numeral.Mantissa (whole.map digitOf) (fraction.map digitOf) (whole ++ point) := by
    rcases hpoint with rfl | ⟨rfl, rfl⟩
    · exact .pointed (List.append_ne_nil_of_left_ne_nil hmap _) (spelled_map hwhole) (spelled_map hfraction)
    · rw [List.append_nil]
      exact .whole hmap (spelled_map hwhole)
  have hexponent : Numeral.Exponent e tail := by
    rcases htail with rfl | ⟨rfl, rfl⟩
    · exact exponent_exponentText e
    · exact .absent
  rw [Numeral.read?_eq_some_iff, List.map_append]
  cases negative with
  | true => simpa using Numeral.Spells.parts .minus hmantissa hexponent
  | false => simpa using Numeral.Spells.parts .absent hmantissa hexponent

/-! ## The forms of a text -/

structure Digits.Written (d : Digits) : Prop where
  nonempty : d.digits ≠ []
  isDigit : ∀ c ∈ d.digits, c.isDigit = true

theorem decimalValue_eq (d : Digits) : Algebra.decimalValue d =
    (Nat.ofDigitChars 10 d.digits 0 : ℚ) * 10 ^ (d.point - (d.digits.length - 1 : Nat)) := by
  have hdown : 0 < (powDown 10 (d.point - (d.digits.length - 1 : Nat)) : ℚ) := powDown_pos (by norm_num) _
  have hup := powUp_eq (by norm_num : 10 ≠ 0) (d.point - (d.digits.length - 1 : Nat))
  change ((Nat.ofDigitChars 10 d.digits 0 * powUp 10 (d.point - (d.digits.length - 1 : Nat)) : Nat) : ℚ) /
    (powDown 10 (d.point - (d.digits.length - 1 : Nat)) : Nat) = _
  rw [Nat.cast_mul, hup]
  push_cast
  field_simp

/-- A text that reads as a number, also with a minus before it. -/
def ReadsAs (negative : Bool) (text : List Char) (q : ℚ) : Prop :=
  ∃ n, Numeral.read? (if negative then '-' :: text else text) = some n ∧
    n.rational = (if negative then -1 else 1) * q

/-- Digits may be split by a point and followed by zeros as long as the exponent accounts for it. -/
theorem readsAs_parts (negative : Bool) {d : Digits} {whole fraction point tail : List Char} {e : Int} (zeros : Nat)
    (hne : whole ≠ []) (hwhole : ∀ c ∈ whole, c.isDigit = true) (hfraction : ∀ c ∈ fraction, c.isDigit = true)
    (hpoint : point = '.' :: fraction ∨ (point = [] ∧ fraction = []))
    (htail : tail = exponentText e ∨ (tail = [] ∧ e = 0))
    (hdigits : Nat.ofDigitChars 10 (whole ++ fraction) 0 = Nat.ofDigitChars 10 d.digits 0 * 10 ^ zeros)
    (hscale : zeros + (e - fraction.length) = d.point - (d.digits.length - 1 : Nat)) :
    ReadsAs negative (whole ++ point ++ tail) (Algebra.decimalValue d) := by
  refine ⟨_, read?_parts negative hne hwhole hfraction hpoint htail, ?_⟩
  rw [Numeral.rational, natOfDigits_map, hdigits, decimalValue_eq, ← hscale, zpow_add₀ (by norm_num), zpow_natCast]
  push_cast
  ring

theorem readsAs_exponentForm (negative : Bool) {d : Digits} (hd : d.Written) :
    ReadsAs negative (exponentForm d) (Algebra.decimalValue d) := by
  obtain ⟨digits, place⟩ := d
  match digits, hd with
  | [], hd => exact absurd rfl hd.nonempty
  | [first], hd =>
    have hform : exponentForm ⟨[first], place⟩ = [first] ++ [] ++ exponentText place := rfl
    rw [hform]
    apply readsAs_parts negative 0 (List.cons_ne_nil _ _) hd.isDigit (List.forall_mem_nil _)
      (Or.inr ⟨rfl, rfl⟩) (Or.inl rfl)
    · simp
    · simp
  | first :: second :: rest, hd =>
    have hform : exponentForm ⟨first :: second :: rest, place⟩ =
        [first] ++ ('.' :: second :: rest) ++ exponentText place := rfl
    obtain ⟨hfirst, hrest⟩ := List.forall_mem_cons.mp hd.isDigit
    rw [hform]
    apply readsAs_parts negative 0 (List.cons_ne_nil _ _) (List.forall_mem_singleton.mpr hfirst) hrest
      (Or.inl rfl) (Or.inl rfl)
    · simp
    · simp

theorem isDigit_zeros (count : Nat) : ∀ c ∈ List.replicate count '0', c.isDigit = true := by
  intro c hc
  rw [(List.mem_replicate.mp hc).2]
  rfl

theorem readsAs_pointForm (negative : Bool) {d : Digits} (hd : d.Written) :
    ReadsAs negative (pointForm d ['.', '0']) (Algebra.decimalValue d) := by
  have hlength : 0 < d.digits.length := List.length_pos_iff.mpr hd.nonempty
  have hzero : ∀ c ∈ ['0'], c.isDigit = true := isDigit_zeros 1
  unfold pointForm
  split
  · next hpoint =>
    have hform : '0' :: '.' :: List.replicate ((-d.point).toNat - 1) '0' ++ d.digits =
        ['0'] ++ ('.' :: (List.replicate ((-d.point).toNat - 1) '0' ++ d.digits)) ++ [] := by simp
    have hfraction := List.forall_mem_append.mpr ⟨isDigit_zeros ((-d.point).toNat - 1), hd.isDigit⟩
    rw [hform]
    apply readsAs_parts negative 0 (List.cons_ne_nil _ _) hzero hfraction (Or.inl rfl) (Or.inr ⟨rfl, rfl⟩)
    · rw [List.singleton_append, Nat.ofDigitChars_cons, Nat.ofDigitChars_append, ofDigitChars_zeros]
      simp
    · simp only [List.length_append, List.length_replicate]
      omega
  · next hpoint =>
    dsimp only
    split
    · next hshort =>
      have hform : d.digits ++ List.replicate (d.point.toNat + 1 - d.digits.length) '0' ++ ['.', '0'] =
          d.digits ++ List.replicate (d.point.toNat + 1 - d.digits.length) '0' ++ ['.', '0'] ++ [] := by simp
      have hwhole := List.forall_mem_append.mpr ⟨hd.isDigit, isDigit_zeros (d.point.toNat + 1 - d.digits.length)⟩
      have hne := List.append_ne_nil_of_left_ne_nil hd.nonempty
        (List.replicate (d.point.toNat + 1 - d.digits.length) '0')
      rw [hform]
      apply readsAs_parts negative (d.point.toNat + 1 - d.digits.length + 1) hne hwhole hzero (Or.inl rfl)
        (Or.inr ⟨rfl, rfl⟩)
      · rw [List.append_assoc, Nat.ofDigitChars_append, Nat.ofDigitChars_append, ofDigitChars_zeros, pow_succ,
          ← mul_assoc]
        exact ofDigitChars_zeros 1 _
      · simp only [List.length_singleton]
        omega
    · next hlong =>
      have hform : d.digits.take (d.point.toNat + 1) ++ '.' :: d.digits.drop (d.point.toNat + 1) =
          d.digits.take (d.point.toNat + 1) ++ ('.' :: d.digits.drop (d.point.toNat + 1)) ++ [] := by simp
      have hne : d.digits.take (d.point.toNat + 1) ≠ [] := by simpa using hd.nonempty
      rw [hform]
      apply readsAs_parts negative 0 hne (fun c hc => hd.isDigit c (List.mem_of_mem_take hc))
        (fun c hc => hd.isDigit c (List.mem_of_mem_drop hc)) (Or.inl rfl) (Or.inr ⟨rfl, rfl⟩)
      · rw [List.take_append_drop, pow_zero, mul_one]
      · rw [List.length_drop]
        omega

/-! ## Shortest digits -/

theorem written_toDigits (n : Nat) (point : Int) : (⟨Nat.toDigits 10 n, point⟩ : Digits).Written where
  nonempty := Nat.toDigits_ne_nil
  isDigit c hc := Nat.isDigit_of_mem_toDigits (by norm_num) (by norm_num) hc

theorem written_ofNat {n : Nat} (hn : 0 < n) (scale : Int) : (Digits.ofNat n scale).Written where
  nonempty := by
    intro hnil
    have hdrop : ((Nat.toDigits 10 n).reverse.dropWhile fun c => c == '0') = [] := List.reverse_eq_nil_iff.mp hnil
    have hzeros : Nat.toDigits 10 n = List.replicate (Nat.toDigits 10 n).length '0' := by
      apply List.eq_replicate_iff.mpr
      refine ⟨rfl, fun c hc => ?_⟩
      have hall := List.dropWhile_eq_nil_iff.mp hdrop c (List.mem_reverse.mpr hc)
      exact beq_iff_eq.mp hall
    have hvalue : Nat.ofDigitChars 10 (Nat.toDigits 10 n) 0 = n := Nat.ofDigitChars_toDigits (by norm_num) (by norm_num)
    rw [hzeros, ofDigitChars_zeros, zero_mul] at hvalue
    omega
  isDigit c hc := by
    have hmem : c ∈ (Nat.toDigits 10 n).reverse := (List.dropWhile_sublist _).subset (List.mem_reverse.mp hc)
    exact Nat.isDigit_of_mem_toDigits (by norm_num) (by norm_num) (List.mem_reverse.mp hmem)

/-- Zero is no candidate, since it does not read back as a positive number. -/
theorem onGrid?_pos {b : Neighbourhood} (hlow : 0 < b.low) {scale : Int} {n : Nat}
    (h : b.onGrid? scale = some n) : 0 < n := by
  have hnum : 0 < powUp 2 b.unit * powDown 10 scale :=
    Nat.mul_pos (Nat.pow_pos (by norm_num)) (Nat.pow_pos (by norm_num))
  unfold Neighbourhood.onGrid? at h
  extract_lets num den reads below at h
  have hreads : ∀ c, reads c = true → 0 < c := by
    intro c hc
    by_contra hzero
    obtain rfl : c = 0 := by omega
    have hpositive : 0 < b.low * num := Nat.mul_pos hlow hnum
    simp only [reads, zero_mul] at hc
    split at hc
    · simp only [Bool.and_eq_true, decide_eq_true_eq] at hc
      omega
    · simp only [Bool.and_eq_true, decide_eq_true_eq] at hc
      omega
  split at h
  · cases h
  · next hbelow _ =>
    have hn : below = n := Option.some.inj h
    rw [← hn]
    exact hreads _ hbelow
  · have hn : below + 1 = n := Option.some.inj h
    rw [← hn]
    exact Nat.succ_pos below
  · next hbelow _ =>
    have hpositive := hreads _ hbelow
    have hn : roundDiv (b.value * num) den = n := Option.some.inj h
    have hround : below ≤ roundDiv (b.value * num) den := by
      unfold roundDiv
      dsimp only
      split
      · exact le_rfl
      · split
        · exact Nat.le_succ _
        · exact Nat.le_add_right _ _
    rw [← hn]
    exact hpositive.trans_le hround

theorem written_search {b : Neighbourhood} (hlow : 0 < b.low) (count : Nat) (scale : Int) {d : Digits}
    (h : b.search count scale = some d) : d.Written := by
  induction count generalizing scale with
  | zero => cases h
  | succ count ih =>
    simp only [Neighbourhood.search] at h
    split at h
    · next n hn =>
      cases h
      exact written_ofNat (onGrid?_pos hlow hn) scale
    · exact ih (scale - 1) h

theorem written_rounded (m : Nat) (e : Int) (digits : Nat) : (rounded m e digits).Written := by
  unfold rounded roundedQuotient
  dsimp only
  split
  · exact written_toDigits _ _
  · exact written_toDigits _ _

theorem written_shortest {m : Nat} (hm : 0 < m) (e : Int) : (shortest m e).Written := by
  have hlow : 0 < (Neighbourhood.of m e).low := by
    simp only [Neighbourhood.of]
    split <;> omega
  unfold shortest
  dsimp only
  cases hsearch : (Neighbourhood.of m e).search 17 (floorLog10 (m * powUp 2 e) (powDown 2 e)) with
  | none => exact written_rounded m e 17
  | some d => exact written_search hlow 17 _ hsearch

/-- The text of a double other than zero reads as the number that its shortest digits denote. -/
theorem read?_plain {x : Float} {negative : Bool} {m : Nat} {e : Int} (hx : Double.ofFloat x = .finite negative m e)
    (hm : 0 < m) : ∃ n, Numeral.read? (plain x).toList = some n ∧
      n.rational = (if negative then -1 else 1) * Algebra.decimalValue (shortest m e) := by
  have hwritten := written_shortest hm e
  have hreads : ReadsAs negative (if -4 ≤ (shortest m e).point ∧ (shortest m e).point < 16
      then pointForm (shortest m e) ['.', '0'] else exponentForm (shortest m e))
        (Algebra.decimalValue (shortest m e)) := by
    split
    · exact readsAs_pointForm negative hwritten
    · exact readsAs_exponentForm negative hwritten
  unfold plain withSign
  rw [hx]
  dsimp only
  rw [String.toList_ofList, if_neg hm.ne']
  exact hreads

end Metrology.Decimal

namespace Metrology.Algebra

open Decimal

/-- The exact number of a literal: its value if that is an integer, and what its text says otherwise. -/
inductive Denotes (x : Float) (q : ℚ) : Prop where
  | integral (n : Int) (hx : dyadic? x = some (n : ℚ)) (hq : q = n)
  | decimal (r : ℚ) (hx : dyadic? x = some r) (hr : ∀ n : Int, r ≠ n) (numeral : Numeral)
      (hread : Numeral.read? (plain x).toList = some numeral) (hq : q = numeral.rational)

theorem isIntegral_iff (m : Nat) (e : Int) : isIntegral m e = true ↔ ∃ n : Int, (m : ℚ) * 2 ^ e = n := by
  have hup : (powUp 2 e : ℚ) = 2 ^ e * (powDown 2 e : ℚ) := powUp_eq two_ne_zero e
  have hdown : 0 < (powDown 2 e : ℚ) := powDown_pos two_ne_zero e
  rw [isIntegral, beq_iff_eq, ← Nat.dvd_iff_mod_eq_zero]
  by_cases he : 0 ≤ e
  · have hone : powDown 2 e = 1 := by
      have hnought : (-e).toNat = 0 := by omega
      rw [powDown, hnought]
    rw [hone]
    constructor
    · intro _
      refine ⟨m * powUp 2 e, ?_⟩
      rw [hone, Nat.cast_one, mul_one] at hup
      push_cast
      rw [hup]
    · intro _
      exact one_dvd m
  · have hone : powUp 2 e = 1 := by
      have hnought : e.toNat = 0 := by omega
      rw [powUp, hnought]
    rw [hone, Nat.cast_one] at hup
    have hquotient : (m : ℚ) * 2 ^ e = m / powDown 2 e := by
      rw [eq_div_iff hdown.ne', mul_assoc]
      rw [← hup, mul_one]
    rw [hquotient]
    constructor
    · rintro ⟨k, rfl⟩
      refine ⟨k, ?_⟩
      push_cast
      field_simp
    · rintro ⟨n, hn⟩
      rw [div_eq_iff hdown.ne'] at hn
      have hint : (m : Int) = n * powDown 2 e := by exact_mod_cast hn
      exact Int.natCast_dvd_natCast.mp (hint ▸ Dvd.intro_left n rfl)

theorem integral_value {m : Nat} {e : Int} (h : isIntegral m e = true) :
    ((m * powUp 2 e / powDown 2 e : Nat) : ℚ) = (m : ℚ) * 2 ^ e := by
  have hup : (powUp 2 e : ℚ) = 2 ^ e * (powDown 2 e : ℚ) := powUp_eq two_ne_zero e
  have hdown : 0 < (powDown 2 e : ℚ) := powDown_pos two_ne_zero e
  have hdvd : powDown 2 e ∣ m * powUp 2 e := Dvd.dvd.mul_right (Nat.dvd_of_mod_eq_zero (beq_iff_eq.mp h)) _
  rw [Nat.cast_div hdvd hdown.ne', Nat.cast_mul, hup]
  field_simp

/-- Every finite literal has an exact number. -/
theorem exists_literalValue? {x : Float} (hx : x.isFinite = true) : ∃ q, literalValue? x = some q ∧ Denotes x q := by
  obtain ⟨negative, m, e, hdouble⟩ := ofFloat_of_isFinite hx
  have hsigned (q : ℚ) : (if negative then -q else q) = (if negative then -1 else 1) * q := by cases negative <;> simp
  have hdyadic : dyadic? x = some ((if negative then -1 else 1) * ((m : ℚ) * 2 ^ e)) := by
    rw [dyadic?, hdouble, Double.dyadic?]
  refine ⟨_, by rw [literalValue?, hdouble], ?_⟩
  rw [hsigned]
  by_cases hintegral : isIntegral m e = true
  · obtain ⟨n, hn⟩ := (isIntegral_iff m e).mp hintegral
    rw [hn] at hdyadic
    rw [if_pos hintegral, integral_value hintegral, hn]
    refine .integral ((if negative then -1 else 1) * n) ?_ ?_
    · rw [hdyadic]
      cases negative <;> simp
    · cases negative <;> simp
  · have hm : 0 < m := by
      by_contra hzero
      obtain rfl : m = 0 := by omega
      exact hintegral (by simp [isIntegral])
    obtain ⟨numeral, hread, hvalue⟩ := read?_plain hdouble hm
    rw [if_neg hintegral]
    refine .decimal _ hdyadic ?_ numeral hread hvalue.symm
    intro n hn
    apply hintegral
    rw [isIntegral_iff]
    refine ⟨(if negative then -1 else 1) * n, ?_⟩
    push_cast
    rw [← hn]
    cases negative <;> simp

end Metrology.Algebra
