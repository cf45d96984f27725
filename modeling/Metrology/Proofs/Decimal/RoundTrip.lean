import Metrology.Proofs.Decimal.Product
import Metrology.Proofs.Decimal.Shortest
import Metrology.Proofs.Decimal.Unsigned
import Metrology.Proofs.Decimal.Value

/-! # Texts of doubles are read back

What a double's neighbourhood holds is rounded to the double, and no other double is as near to it. So the
text of a double, whose digits denote such a number, is read as the same double.
-/
namespace Metrology.Decimal

open Float.Model Float.Model.UnpackedFloat

/-! ## What is rounded to a double -/

/-- The ends of a double's neighbourhood in units of its last place. -/
theorem Neighbourhood.Holds.bounds {m : Nat} {e : Int} {p : ℚ} (hm : 0 < m)
    (h : (Neighbourhood.of m e).Holds (p * 2 ^ e)) :
    m - (if m = fractionCount ∧ -1074 < e then 1 / 4 else 1 / 2) ≤ p ∧ p ≤ m + 1 / 2 ∧
      (m % 2 = 1 → m - 1 / 2 < p ∧ p < m + 1 / 2) := by
  have hunit : (0 : ℚ) < 2 ^ e := zpow_pos (by norm_num) e
  have hquarters (a : ℚ) : a * 2 ^ (e - 2) = a / 4 * 2 ^ e := by
    rw [zpow_sub₀ (by norm_num)]
    norm_num
    ring
  have hlowest : (((Neighbourhood.of m e).low : Nat) : ℚ) / 4 =
      m - (if m = fractionCount ∧ -1074 < e then 1 / 4 else 1 / 2) := by
    simp only [Neighbourhood.of]
    split
    · rw [Nat.cast_sub (by omega)]
      push_cast
      ring
    · rw [Nat.cast_sub (by omega)]
      push_cast
      ring
  have hhighest : (((Neighbourhood.of m e).high : Nat) : ℚ) / 4 = m + 1 / 2 := by
    simp only [Neighbourhood.of]
    push_cast
    ring
  obtain ⟨hlow, hhigh, hinside⟩ := h
  have hplace : (Neighbourhood.of m e).unit = e - 2 := rfl
  rw [hplace, hquarters] at hlow hhigh hinside
  rw [mul_le_mul_iff_left₀ hunit, hlowest] at hlow
  rw [mul_le_mul_iff_left₀ hunit, hhighest] at hhigh
  rw [hquarters, mul_lt_mul_iff_left₀ hunit, mul_lt_mul_iff_left₀ hunit, hlowest, hhighest] at hinside
  refine ⟨hlow, hhigh, ?_⟩
  intro hodd
  have hopen : (Neighbourhood.of m e).closed = false := by simp [Neighbourhood.of, hodd]
  obtain ⟨hlow, hhigh⟩ := hinside hopen
  refine ⟨lt_of_le_of_lt ?_ hlow, hhigh⟩
  split <;> linarith

/-- A number at most half a unit from a double is rounded to it, from halfway if the mantissa is even. -/
theorem Canonical.rounds {m : Nat} {e : Int} {p : ℚ} (h : Canonical m e) (hfull : e = -1074 ∨ 2 ^ 52 ≤ p)
    (hlow : m - 1 / 2 ≤ p) (hhigh : p ≤ m + 1 / 2) (hodd : m % 2 = 1 → m - 1 / 2 < p ∧ p < m + 1 / 2) :
    Rounds (p * 2 ^ e) e m := by
  have hunit : (0 : ℚ) < 2 ^ e := zpow_pos (by norm_num) e
  have hlt : (m : ℚ) + 1 ≤ 2 ^ 53 := by exact_mod_cast h.lt
  have hscaled : p * 2 ^ e / 2 ^ e = p := mul_div_cancel_right₀ p hunit.ne'
  constructor
  · exact h.le
  · rw [hscaled]
    linarith
  · rwa [hscaled]
  · rw [hscaled, abs_le]
    constructor <;> linarith
  · rw [hscaled]
    intro htie
    by_contra hne
    obtain ⟨hlow, hhigh⟩ := hodd (by omega)
    have hless : |p - m| < 1 / 2 := by
      rw [abs_lt]
      constructor <;> linarith
    exact hless.ne htie

/-- A number less than a quarter of a unit below the least of 53 bits is rounded to it, in half units. -/
theorem rounds_below_least {e : Int} {p : ℚ} (he : -1074 < e) (hlow : 2 ^ 52 - 1 / 4 ≤ p) (hhigh : p < 2 ^ 52) :
    Rounds (p * 2 ^ e) (e - 1) (2 ^ 53 : Nat) := by
  have hsplit : (2 : ℚ) ^ e = 2 * 2 ^ (e - 1) := by
    rw [← zpow_one_add₀ (by norm_num)]
    congr 1
    ring
  have hunit : (0 : ℚ) < 2 ^ (e - 1) := zpow_pos (by norm_num) _
  have hscaled : p * 2 ^ e / 2 ^ (e - 1) = 2 * p := by
    rw [hsplit]
    field_simp
  constructor
  · omega
  · rw [hscaled]
    linarith
  · right
    rw [hscaled]
    linarith
  · rw [hscaled, abs_le]
    push_cast
    constructor <;> linarith
  · intro _
    norm_num

/-- What a double's neighbourhood holds is rounded to the double. Below a power of two the unit is half as
large. -/
theorem exists_rounds_of_holds {m : Nat} {e : Int} {q : ℚ} (h : Canonical m e) (hq : (Neighbourhood.of m e).Holds q) :
    ∃ f n, Rounds q f n ∧ (n : ℚ) * 2 ^ f = m * 2 ^ e ∧ f ≤ e ∧ (f = e → n = m) := by
  have hunit : (0 : ℚ) < 2 ^ e := zpow_pos (by norm_num) e
  obtain ⟨p, rfl⟩ : ∃ p, q = p * 2 ^ e := ⟨q / 2 ^ e, (div_mul_cancel₀ q hunit.ne').symm⟩
  obtain ⟨hlow, hhigh, hodd⟩ := hq.bounds h.pos
  have hhalf : (m : ℚ) - 1 / 2 ≤ p := by
    refine le_trans ?_ hlow
    split <;> linarith
  by_cases hfull : e = -1074 ∨ 2 ^ 52 ≤ p
  · exact ⟨e, m, h.rounds hfull hhalf hhigh hodd, rfl, le_rfl, fun _ => rfl⟩
  · obtain ⟨hbottom, hbelow⟩ := not_or.mp hfull
    rw [not_le] at hbelow
    have hleast : m = fractionCount := by
      have hge := h.full_le hbottom
      have hcast : (m : ℚ) < (2 ^ 52 + 1 : Nat) := by
        push_cast
        linarith
      have hnat : m < 2 ^ 52 + 1 := by exact_mod_cast hcast
      rw [fractionCount_eq] at hge ⊢
      omega
    have he : -1074 < e := lt_of_le_of_ne h.le (Ne.symm hbottom)
    have hm : (m : ℚ) = 2 ^ 52 := by
      rw [hleast, fractionCount_eq]
      norm_num
    rw [if_pos ⟨hleast, he⟩, hm] at hlow
    refine ⟨e - 1, (2 ^ 53 : Nat), rounds_below_least he hlow hbelow, ?_, by omega, by omega⟩
    rw [hm, zpow_sub_one₀ (by norm_num)]
    push_cast
    ring

/-! ## The double that is read -/

theorem Double.ofUnpacked_injective : Function.Injective Double.ofUnpacked := by
  have hsign : Function.Injective Double.ofSign := by
    intro s t h
    cases s <;> cases t <;> first | rfl | cases h
  intro u v h
  cases u with
  | notANumber => cases v <;> first | rfl | cases h
  | infinity s =>
    cases v with
    | infinity t =>
      injection h with h
      rw [hsign h]
    | _ => cases h
  | zero s =>
    cases v with
    | zero t =>
      injection h with h
      rw [hsign h]
    | finite t m e hm =>
      injection h with _ h
      omega
    | _ => cases h
  | finite s m e hm =>
    cases v with
    | finite t m' e' hm' =>
      injection h with hs hmantissa hexponent
      obtain rfl := hsign hs
      exact finite_congr s hmantissa hexponent hm hm'
    | zero t =>
      injection h with _ h
      omega
    | _ => cases h

/-- Doubles that denote the same are the same, signed zeros apart. -/
theorem Double.ofFloat_injective : Function.Injective Double.ofFloat := by
  intro x y h
  rw [Double.ofFloat_eq, Double.ofFloat_eq] at h
  exact eq_of_unpack_eq (Double.ofUnpacked_injective h)

theorem neg_neg_double (x : Float) : -(-x) = x := by
  apply Double.ofFloat_injective
  rw [Double.ofFloat_neg, Double.ofFloat_neg]
  cases Double.ofFloat x <;> simp [Double.neg]

theorem canonical_of_ofFloat {x : Float} {negative : Bool} {m : Nat} {e : Int}
    (h : Double.ofFloat x = .finite negative m e) :
    (m = 0 ∧ e = -1074) ∨ (Canonical m e ∧ e ≤ 971) := by
  rw [Double.ofFloat_eq] at h
  cases hx : x.toModel.unpack with
  | notANumber =>
    rw [hx] at h
    cases h
  | infinity s =>
    rw [hx] at h
    cases h
  | zero s =>
    rw [hx] at h
    cases h
    exact .inl ⟨rfl, rfl⟩
  | finite s m' e' hm =>
    rw [hx] at h
    cases h
    exact .inr (canonical_of_unpack hx)

/-- Of two doubles the one with the larger exponent is larger. -/
theorem Canonical.lt_of_exponent_lt {m m' : Nat} {e e' : Int} (h : Canonical m e) (h' : Canonical m' e') (he : e < e') :
    (m : ℚ) * 2 ^ e < m' * 2 ^ e' := by
  have hlt : (m : ℚ) < 2 ^ (53 : Int) := by exact_mod_cast h.lt
  have hfull : (2 : ℚ) ^ (52 : Int) ≤ m' := by
    have hge := h'.full_le (by have := h.le; omega)
    rw [fractionCount_eq] at hge
    exact_mod_cast hge
  calc (m : ℚ) * 2 ^ e < 2 ^ (53 : Int) * 2 ^ e := by gcongr
    _ = 2 ^ (53 + e) := (zpow_add₀ two_ne_zero _ _).symm
    _ ≤ 2 ^ (52 + e') := zpow_le_zpow_right₀ one_le_two (by omega)
    _ = 2 ^ (52 : Int) * 2 ^ e' := zpow_add₀ two_ne_zero _ _
    _ ≤ m' * 2 ^ e' := by gcongr

theorem Canonical.unique {m m' : Nat} {e e' : Int} (h : Canonical m e) (h' : Canonical m' e')
    (heq : (m : ℚ) * 2 ^ e = m' * 2 ^ e') : m = m' ∧ e = e' := by
  rcases lt_trichotomy e e' with hlt | rfl | hgt
  · exact absurd heq (h.lt_of_exponent_lt h' hlt).ne
  · have hunit : (0 : ℚ) < 2 ^ e := zpow_pos (by norm_num) e
    exact ⟨by exact_mod_cast mul_right_cancel₀ hunit.ne' heq, rfl⟩
  · exact absurd heq (h'.lt_of_exponent_lt h hgt).ne'

/-- A positive number is denoted by one double only. -/
theorem ofFloat_of_dyadic? {x : Float} {m : Nat} {e : Int} (h : Canonical m e)
    (hx : dyadic? x = some ((m : ℚ) * 2 ^ e)) :
    Double.ofFloat x = .finite false m e := by
  have hpos : (0 : ℚ) < m * 2 ^ e := mul_pos (by exact_mod_cast h.pos) (zpow_pos (by norm_num) e)
  unfold dyadic? at hx
  cases hdouble : Double.ofFloat x with
  | nan => simp [hdouble, Double.dyadic?] at hx
  | infinity negative => simp [hdouble, Double.dyadic?] at hx
  | finite negative k f =>
    rw [hdouble, Double.dyadic?, Option.some_inj] at hx
    have hunit : (0 : ℚ) < 2 ^ f := zpow_pos (by norm_num) f
    cases negative with
    | true =>
      have hnonneg : (0 : ℚ) ≤ k * 2 ^ f := by positivity
      rw [if_pos rfl] at hx
      linarith
    | false =>
      rw [if_neg Bool.false_ne_true, one_mul] at hx
      rcases canonical_of_ofFloat hdouble with ⟨rfl, -⟩ | ⟨hcanonical, -⟩
      · rw [Nat.cast_zero, zero_mul] at hx
        exact absurd hx hpos.ne
      · obtain ⟨rfl, rfl⟩ := hcanonical.unique h hx
        rfl

/-- The double nearest to a number that is rounded to a double is this one. -/
theorem Nearest.dyadic?_eq {q : ℚ} {x y : Float} {f : Int} {n : Nat} (hx : Nearest q x) (h : Rounds q f n)
    (hq : |q| < overflow) (hy : dyadic? y = some ((n : ℚ) * 2 ^ f)) : dyadic? x = some ((n : ℚ) * 2 ^ f) := by
  cases hx with
  | infinite _ hover => exact absurd hover hq.not_ge
  | @finite negative m e r hdouble hr _ closest =>
    obtain ⟨hm, he⟩ := Double.bounds_of_ofBits hdouble
    obtain ⟨k, hk, hbound, hparity⟩ : ∃ k : Int, r = k * 2 ^ e ∧ k.natAbs < 2 ^ 53 ∧ (m % 2 = 0 → k % 2 = 0) := by
      rw [dyadic?, hdouble, Double.dyadic?, Option.some_inj] at hr
      refine ⟨(if negative then -1 else 1) * m, ?_, ?_, ?_⟩
      · rw [← hr]
        cases negative <;> simp
      · cases negative <;> simpa using hm
      · cases negative <;> simp <;> omega
    rw [hr, Option.some_inj, hk]
    rcases closest y _ hy with hless | ⟨hsame, hor⟩
    · rcases h.closest hbound he with hless' | ⟨hsame', -⟩
      · rw [hk] at hless
        exact absurd hless hless'.not_gt
      · rw [hk] at hless
        exact absurd hless hsame'.not_gt
    · rw [hk] at hsame hor
      rcases h.closest hbound he with hless' | ⟨-, heq | hn⟩
      · exact absurd hsame hless'.ne'
      · exact heq
      · rcases hor with heq | hm
        · exact heq.symm
        · exact h.eq_of_tie hbound he hsame.symm hn (hparity hm)

/-- The number that the shortest digits of a double denote is nearest to this double alone. -/
theorem Nearest.eq_of_shortest {x y : Float} {m : Nat} {e : Int}
    (hx : Double.ofFloat x = .finite false m e) (hm : 0 < m)
    (hy : Nearest (Algebra.decimalValue (shortest m e)) y) : y = x := by
  obtain ⟨hcanonical, hle⟩ : Canonical m e ∧ e ≤ 971 := by
    rcases canonical_of_ofFloat hx with ⟨rfl, -⟩ | h
    · omega
    · exact h
  obtain ⟨f, n, hrounds, hvalue, hfe, hn⟩ := exists_rounds_of_holds hcanonical (holds_shortest hcanonical)
  have hdyadic : dyadic? x = some ((n : ℚ) * 2 ^ f) := by
    rw [dyadic?, hx, Double.dyadic?, hvalue]
    simp
  have hover : |Algebra.decimalValue (shortest m e)| < overflow := by
    have hnonneg : 0 ≤ Algebra.decimalValue (shortest m e) := by
      rw [decimalValue_eq]
      positivity
    rw [abs_of_nonneg hnonneg]
    apply hrounds.lt_overflow (by omega)
    rintro ⟨hf, htop⟩
    have hlt := hcanonical.lt
    have hsame := hn (by omega)
    omega
  have hread := hy.dyadic?_eq hrounds hover hdyadic
  rw [hvalue] at hread
  apply Double.ofFloat_injective
  rw [ofFloat_of_dyadic? hcanonical hread, hx]

/-- The text of a finite double is a numeral for it. -/
theorem exists_read?_plain {x : Float} (hx : x.isFinite = true) :
    ∃ n, Numeral.read? (plain x).toList = some n ∧ n.value = x := by
  obtain ⟨negative, m, e, hdouble⟩ := ofFloat_of_isFinite hx
  rcases Nat.eq_zero_or_pos m with rfl | hm
  · have he : e = -1074 := by
      rcases canonical_of_ofFloat hdouble with ⟨-, he⟩ | ⟨hcanonical, -⟩
      · exact he
      · exact absurd hcanonical.pos (lt_irrefl 0)
    subst he
    have hplain : (plain x).toList = if negative then ['-', '0', '.', '0'] else ['0', '.', '0'] := by
      unfold plain withSign
      rw [hdouble]
      cases negative <;> rfl
    refine ⟨⟨negative, [0, 0], -1⟩, ?_, ?_⟩
    · rw [hplain]
      cases negative <;> decide +kernel
    · apply Double.ofFloat_injective
      rw [hdouble]
      cases negative <;> decide +kernel
  · obtain ⟨n, hread, hrational⟩ := read?_plain hdouble hm
    have hnearest := Numeral.nearest_value (Numeral.read?_eq_some_iff.mp hread).lt_ten
    refine ⟨n, hread, ?_⟩
    rw [hrational] at hnearest
    cases negative with
    | false =>
      rw [if_neg Bool.false_ne_true, one_mul] at hnearest
      exact hnearest.eq_of_shortest hdouble hm
    | true =>
      have hopposite : Double.ofFloat (-x) = .finite false m e := by
        rw [Double.ofFloat_neg, hdouble]
        rfl
      have hneg := hnearest.neg
      rw [if_pos rfl, neg_one_mul, neg_neg] at hneg
      have heq := hneg.eq_of_shortest hopposite hm
      rw [← neg_neg_double n.value, heq, neg_neg_double]

/-! ## Characters of a text -/

theorem exists_pointForm {d : Digits} (hd : d.Written) :
    ∃ c more, pointForm d ['.', '0'] = c :: more ∧ c.isDigit = true ∧ ∀ x ∈ more, x.isDigit = true ∨ x = '.' := by
  have hdigit : ∀ x ∈ d.digits, x.isDigit = true ∨ x = '.' := fun x hx => .inl (hd.isDigit x hx)
  have hzeros (count : Nat) : ∀ x ∈ List.replicate count '0', x.isDigit = true ∨ x = '.' :=
    fun x hx => .inl (isDigit_zeros count x hx)
  unfold pointForm
  split
  · refine ⟨'0', _, rfl, rfl, ?_⟩
    exact List.forall_mem_cons.mpr ⟨.inr rfl, List.forall_mem_append.mpr ⟨hzeros _, hdigit⟩⟩
  · obtain ⟨first, rest, hfirst⟩ := List.exists_cons_of_ne_nil hd.nonempty
    rw [hfirst] at hdigit ⊢
    have hdigit' := (List.forall_mem_cons.mp hdigit).2
    have hc : first.isDigit = true := hd.isDigit first (by simp [hfirst])
    dsimp only
    split
    · refine ⟨first, _, rfl, hc, ?_⟩
      exact List.forall_mem_append.mpr ⟨List.forall_mem_append.mpr ⟨hdigit', hzeros _⟩, by simp⟩
    · refine ⟨first, _, rfl, hc, ?_⟩
      intro x hx
      rcases List.mem_append.mp hx with hx | hx
      · exact hdigit' x (List.mem_of_mem_take hx)
      · rcases List.mem_cons.mp hx with rfl | hx
        · exact .inr rfl
        · exact hdigit x (List.mem_of_mem_drop hx)

theorem mem_exponentForm {d : Digits} (hd : d.Written) : 'e' ∈ exponentForm d := by
  have htail : 'e' ∈ exponentText d.point := List.mem_cons_self
  obtain ⟨digits, place⟩ := d
  match digits, hd with
  | [], hd => exact absurd rfl hd.nonempty
  | [first], _ => exact List.mem_cons_of_mem _ htail
  | first :: second :: rest, _ => exact List.mem_append_right (first :: '.' :: second :: rest) htail

/-- Without an exponent the text of a number that is not below zero is digits and a point, a digit first. -/
theorem exists_plain {x : Float} {m : Nat} {e : Int} (hx : Double.ofFloat x = .finite false m e)
    (hplain : 'e' ∉ (plain x).toList) :
    ∃ c more, (plain x).toList = c :: more ∧ c.isDigit = true ∧ ∀ d ∈ more, d.isDigit = true ∨ d = '.' := by
  unfold plain withSign at hplain ⊢
  rw [hx] at hplain ⊢
  simp only [String.toList_ofList, Bool.false_eq_true, if_false] at hplain ⊢
  split
  · exact ⟨'0', ['.', '0'], rfl, rfl, by simp⟩
  · next hm =>
    have hwritten := written_shortest (Nat.pos_of_ne_zero hm) e
    rw [if_neg hm] at hplain
    split
    · exact exists_pointForm hwritten
    · next hform =>
      rw [if_neg hform] at hplain
      exact absurd (mem_exponentForm hwritten) hplain

theorem plain_neg {x : Float} {m : Nat} {e : Int} (hx : Double.ofFloat x = .finite false m e) :
    (plain (-x)).toList = '-' :: (plain x).toList := by
  have hneg : Double.ofFloat (-x) = .finite true m e := by
    rw [Double.ofFloat_neg, hx]
    rfl
  simp only [plain, withSign, hx, hneg, String.toList_ofList, if_true, Bool.false_eq_true, if_false]

/-- Of a finite number, unless it is the zero with a sign, either itself or its opposite is not below zero. -/
theorem unsigned_or_neg {x : Float} (hfinite : x.isFinite = true) (hzero : x ≠ -0.0) :
    (x ≥ 0.0 ∧ ∃ m e, Double.ofFloat x = .finite false m e) ∨
      (¬ x ≥ 0.0 ∧ ∃ m e, Double.ofFloat (-x) = .finite false m e) := by
  obtain ⟨negative, m, e, hx⟩ := ofFloat_of_isFinite hfinite
  cases negative with
  | false =>
    have hunsigned : Unsigned x := unsigned_iff.mpr (.inr ⟨false, m, e, hx, nofun⟩)
    exact .inl ⟨hunsigned.2, m, e, hx⟩
  | true =>
    right
    constructor
    · intro hge
      have hnan : x.isNaN = false := by
        have hunpack : x.isNaN = x.toModel.unpack.isNaN := rfl
        have hfinite : x.toModel.unpack.isFinite = true := hfinite
        rw [hunpack]
        cases hx : x.toModel.unpack with
        | notANumber => simp [hx, Float.Model.UnpackedFloat.isFinite] at hfinite
        | _ => rfl
      rcases unsigned_iff.mp ⟨hnan, hge⟩ with hinfinite | ⟨negative, k, f, hk, hnought⟩
      · rw [hx] at hinfinite
        cases hinfinite
      · rw [hx] at hk
        cases hk
        obtain rfl := hnought rfl
        rcases canonical_of_ofFloat hx with ⟨-, rfl⟩ | ⟨hcanonical, -⟩
        · have hnought : Double.ofFloat (-0.0) = .finite true 0 (-1074) := by decide +kernel
          exact hzero (Double.ofFloat_injective (hx.trans hnought.symm))
        · exact absurd hcanonical.pos (lt_irrefl 0)
    · refine ⟨m, e, ?_⟩
      rw [Double.ofFloat_neg, hx]
      rfl

end Metrology.Decimal
