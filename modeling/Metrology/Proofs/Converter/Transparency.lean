import Metrology.Proofs.Converter.Build

/-! # What caching keeps

A cached edge is an edge like any other for later searches. It stands for the route that it was cached for,
whose factors it multiplies before anything else does. So an answer stays the same where the route that its
edges stand for is the same and no factor comes before a cached edge; and a pair of units that has been
converted over factors alone has an edge of its own, which every later route between them takes.
-/
namespace Metrology

def Call.SamePair (k k' : Call) : Prop :=
  k.category = k'.category ∧ k.source = k'.source ∧ k.target = k'.target

namespace Converter

/-- A route after calls and the route that it stands for, with every cached edge replaced by the route that a
call cached, and so on in that route. A cached edge may not stand where a factor is pending. -/
inductive Unfolds (c : Converter) (category : String) : List Call → Bool → String → Route → Route → Prop where
  | arrived (calls : List Call) (pending : Bool) (source : String) : Unfolds c category calls pending source [] []
  | built {calls : List Call} {pending : Bool} {source : String} {hop : Graph.Hop Weight} {rest rest' : Route}
      (hbuilt : c.weight? category source hop.node = some hop.weight)
      (hrest : Unfolds c category calls hop.weight.isMultiplier hop.node rest rest') :
      Unfolds c category calls pending source (hop :: rest) (hop :: rest')
  | cached {earlier later : List Call} {value : Float} {source : String} {hop : Graph.Hop Weight}
      {r r' rest rest' : Route} (hroute : (c.after earlier).routeFor ⟨category, source, hop.node, value⟩ = .ok r)
      (hcaches : (c.after earlier).caches r = true) (hr : Unfolds c category earlier false source r r')
      (hrest : Unfolds c category (earlier ++ ⟨category, source, hop.node, value⟩ :: later) true hop.node rest rest') :
      Unfolds c category (earlier ++ ⟨category, source, hop.node, value⟩ :: later) false source (hop :: rest)
        (r' ++ rest')

variable {c : Converter}

theorem routeFor_congr {k k' : Call} (h : k.SamePair k') : c.routeFor k = c.routeFor k' := by
  obtain ⟨hcategory, hsource, htarget⟩ := h
  rw [routeFor, routeFor, hcategory, hsource, htarget]

theorem after_append (c : Converter) (calls later : List Call) :
    c.after (calls ++ later) = (c.after calls).after later := List.foldl_append

theorem after_append_cons (c : Converter) (earlier : List Call) (k : Call) (later : List Call) :
    c.after (earlier ++ k :: later) = ((c.after earlier).next k).after later := by
  rw [after, List.foldl_append, List.foldl_cons]
  rfl

theorem unfolds_of_follows {category source : String} {r : Route} (h : c.Follows category source r) (calls : List Call)
    (pending : Bool) : c.Unfolds category calls pending source r r := by
  induction r generalizing source pending with
  | nil => exact .arrived calls pending source
  | cons hop rest ih => exact .built h.1 (ih h.2 hop.weight.isMultiplier)

/-- A route computes what the route that it stands for computes. -/
theorem Unfolds.result {category source : String} {calls : List Call} {pending : Bool} {r r' : Route}
    (h : c.Unfolds category calls pending source r r') (hc : c.Coherent)
    (hf : (c.after calls).Follows category source r) :
    (r.multipliersOnly = true → r'.multipliersOnly = true) ∧
      ∀ value product, (pending = false → product = 1.0) → r.result value product = r'.result value product := by
  induction h with
  | arrived => exact ⟨id, fun _ _ _ => rfl⟩
  | @built calls pending source hop rest rest' _ _ ih =>
    obtain ⟨unit, weight⟩ := hop
    obtain ⟨hfactors, hresult⟩ := ih hf.2
    refine ⟨?_, fun value product _ => ?_⟩
    · simp only [Route.multipliersOnly, List.all_cons, Bool.and_eq_true] at hfactors ⊢
      exact fun h => ⟨h.1, hfactors h.2⟩
    · cases weight with
      | multiplier factor => exact hresult value (product * factor) (by simp [Weight.isMultiplier])
      | formula f names =>
        simp only [Route.result]
        cases f.value (Formula.Bindings.all names (Route.flush value product)) with
        | error e => rfl
        | ok output => exact hresult output 1.0 fun _ => rfl
  | @cached earlier later value source hop r r' rest rest' hroute hcaches _ _ ihr ihrest =>
    obtain ⟨hearlier, -⟩ := hc.after earlier
    obtain ⟨hnext, -⟩ := hearlier.next ⟨category, source, hop.node, value⟩
    obtain ⟨hlater, hext⟩ := hnext.after later
    obtain ⟨hfactors, hresult⟩ := ihr (hearlier.follows_route hroute)
    obtain ⟨hfactors', hresult'⟩ := ihrest hf.2
    have honly := multipliersOnly_of_caches hcaches
    have hweight := hext.weight? hnext hlater (hearlier.weight?_next hroute hcaches)
    rw [← after_append_cons] at hweight
    obtain ⟨unit, weight⟩ := hop
    obtain rfl : weight = .multiplier (r.product 1.0) := Option.some.inj (hf.1.symm.trans hweight)
    refine ⟨?_, fun value product hproduct => ?_⟩
    · simp only [Route.multipliersOnly, List.all_cons, List.all_append, Bool.and_eq_true] at hfactors hfactors' honly ⊢
      exact fun h => ⟨hfactors honly, hfactors' h.2⟩
    · have hsame : r.product 1.0 = r'.product 1.0 := by
        have heq := hresult value 1.0 fun _ => rfl
        rw [Route.result_of_multipliersOnly honly, Route.result_of_multipliersOnly (hfactors honly)] at heq
        exact congrArg Prod.snd (Except.ok.inj heq)
      rw [hproduct rfl, Route.result_multiplier, Route.result_append (hfactors honly), ← hsame]
      exact hresult' value (r.product 1.0) (by simp)

theorem answer?_eq_of_result {c' : Converter} {k : Call} {r r' : Route} (h : c.routeFor k = .ok r)
    (h' : c'.routeFor k = .ok r') (hresult : r.result k.value 1.0 = r'.result k.value 1.0) :
    c.answer? k = c'.answer? k := by
  rw [answer?_of_route h, answer?_of_route h', hresult]

/-- What a call returns after other calls, against what it returns from a converter that has just been built.
That one has a route for it too. If the route takes no cached edge, both routes and both answers are the same.
If it takes cached edges where no factor is pending, the answers are the same if the built route is the one
that the route stands for. And units that an earlier call has converted over factors alone are converted as
they were then. -/
theorem answer_after {b : Builder} (hb : b.build = .ok c) (calls : List Call) {k : Call} {x : Float}
    (hx : (c.after calls).answer? k = some x) :
    ∃ r r', (c.after calls).routeFor k = .ok r ∧ c.routeFor k = .ok r' ∧
      (c.Follows k.category k.source r → r = r' ∧ c.answer? k = some x) ∧
      (c.Unfolds k.category calls false k.source r r' → c.answer? k = some x) ∧
      ∀ earlier k' later r₁, calls = earlier ++ k' :: later → k'.SamePair k →
        (c.after earlier).routeFor k = .ok r₁ → r₁.multipliersOnly = true → (c.after earlier).answer? k = some x := by
  have hc := Builder.coherent_build hb
  obtain ⟨hafter, hext⟩ := hc.after calls
  cases hr : (c.after calls).routeFor k with
  | error e =>
    rw [(answer?_of_error hr).1] at hx
    cases hx
  | ok r =>
    obtain ⟨r', hr'⟩ := hext.exists_route hc hafter hr
    have hunfolds : c.Unfolds k.category calls false k.source r r' → c.answer? k = some x := by
      intro h
      have hresult := (h.result hc (hafter.follows_route hr)).2 k.value 1.0 fun _ => rfl
      rw [← hx]
      exact (answer?_eq_of_result hr hr' hresult).symm
    refine ⟨r, r', rfl, hr', fun hf => ?_, hunfolds, ?_⟩
    · obtain rfl := Except.ok.inj ((hext.routeFor_eq hc hafter hr hf).symm.trans hr')
      exact ⟨rfl, hunfolds (unfolds_of_follows hf calls false)⟩
    · rintro earlier k' later r₁ rfl hpair hr₁ hfactors
      obtain ⟨hearlier, -⟩ := hc.after earlier
      obtain ⟨r₂, hr₂, hresult⟩ := hearlier.result_kept ((routeFor_congr hpair).trans hr₁) hfactors later
      rw [← after_append_cons, routeFor_congr hpair, hr] at hr₂
      obtain rfl := Except.ok.inj hr₂
      rw [← hx]
      exact (answer?_eq_of_result hr hr₁ (hresult k.value)).symm

def row : Builder :=
  ((Builder.empty ⟨true, true, true⟩ converterChannel).addUnits
    [⟨"Tenth", "tn", "Length"⟩, ⟨"Yard", "yd", "Length"⟩, ⟨"Foot", "ft", "Length"⟩,
      ⟨"Inch", "in", "Length"⟩]).addDefinitions
    [⟨"Length", "Tenth", "Yard", .factor 0.1⟩, ⟨"Length", "Yard", "Foot", .factor 3⟩,
      ⟨"Length", "Foot", "Inch", .factor 12⟩]

def rowGraph : UnitGraph :=
  ⟨"Length", [⟨"Tenth", [0]⟩, ⟨"Yard", [1, 2]⟩, ⟨"Foot", [3, 4]⟩, ⟨"Inch", [5]⟩],
    [⟨1, .multiplier 0.1⟩, ⟨0, .multiplier (1.0 / 0.1)⟩, ⟨2, .multiplier 3⟩, ⟨1, .multiplier (1.0 / 3)⟩,
      ⟨3, .multiplier 12⟩, ⟨2, .multiplier (1.0 / 12)⟩]⟩

def rowConverter : Converter := ⟨[rowGraph], row.units, true, converterChannel⟩

/-- A cached edge at the start of the route: the first three units of the row have been converted before all
four. -/
theorem answer_after_start :
    row.build = .ok rowConverter ∧
      (rowConverter.after [⟨"Length", "Tenth", "Foot", 1⟩]).answer? ⟨"Length", "Tenth", "Inch", 1⟩ =
        some 3.6000000000000005 ∧
      rowConverter.answer? ⟨"Length", "Tenth", "Inch", 1⟩ = some 3.6000000000000005 := by
  have hbuild : row.build = .ok rowConverter := rfl
  have hanswer : (rowConverter.after [⟨"Length", "Tenth", "Foot", 1⟩]).answer? ⟨"Length", "Tenth", "Inch", 1⟩ =
      some 3.6000000000000005 := by decide +kernel
  have hpart : rowConverter.routeFor ⟨"Length", "Tenth", "Foot", 1⟩ =
      .ok [⟨"Yard", .multiplier 0.1⟩, ⟨"Foot", .multiplier 3⟩] := by with_unfolding_all rfl
  have hroute : (rowConverter.after [⟨"Length", "Tenth", "Foot", 1⟩]).routeFor ⟨"Length", "Tenth", "Inch", 1⟩ =
      .ok [⟨"Foot", .multiplier (1.0 * 0.1 * 3)⟩, ⟨"Inch", .multiplier 12⟩] := by with_unfolding_all rfl
  have hfresh : rowConverter.routeFor ⟨"Length", "Tenth", "Inch", 1⟩ =
      .ok [⟨"Yard", .multiplier 0.1⟩, ⟨"Foot", .multiplier 3⟩, ⟨"Inch", .multiplier 12⟩] := by with_unfolding_all rfl
  obtain ⟨r, r', hr, hr', -, hunfolds, -⟩ := answer_after hbuild _ hanswer
  obtain rfl := Except.ok.inj (hroute.symm.trans hr)
  obtain rfl := Except.ok.inj (hfresh.symm.trans hr')
  have hstart : rowConverter.Unfolds "Length" [] false "Tenth" [⟨"Yard", .multiplier 0.1⟩, ⟨"Foot", .multiplier 3⟩]
      [⟨"Yard", .multiplier 0.1⟩, ⟨"Foot", .multiplier 3⟩] := .built rfl (.built rfl (.arrived _ _ _))
  have hend : rowConverter.Unfolds "Length" [⟨"Length", "Tenth", "Foot", 1⟩] true "Foot" [⟨"Inch", .multiplier 12⟩]
      [⟨"Inch", .multiplier 12⟩] := .built rfl (.arrived _ _ _)
  exact ⟨hbuild, hanswer, hunfolds (@Unfolds.cached rowConverter "Length" [] [] 1 "Tenth" ⟨"Foot", _⟩ _ _ _ _ hpart rfl
    hstart hend)⟩

/-- Two ways from the first unit to the last, the one with fewer definitions worth half as much as the
other. -/
def fork : Builder :=
  ((Builder.empty ⟨false, true, true⟩ converterChannel).addUnits
    [⟨"Rod", "rd", "Length"⟩, ⟨"Line", "ln", "Length"⟩, ⟨"Reach", "re", "Length"⟩, ⟨"Chain", "ch", "Length"⟩,
      ⟨"Pole", "po", "Length"⟩, ⟨"Perch", "pe", "Length"⟩, ⟨"Link", "li", "Length"⟩]).addDefinitions
    [⟨"Length", "Rod", "Line", .factor 1⟩, ⟨"Length", "Line", "Reach", .factor 1⟩,
      ⟨"Length", "Reach", "Chain", .factor 1⟩,
      ⟨"Length", "Rod", "Pole", .factor 1⟩, ⟨"Length", "Pole", "Perch", .factor 1⟩,
        ⟨"Length", "Perch", "Link", .factor 1⟩,
      ⟨"Length", "Link", "Chain", .factor 2⟩]

/-- A cached edge behind a factor changes the rounding, and one that makes another way the shortest changes
the route. -/
theorem caching_changes_answers :
    (∃ c, row.build = .ok c ∧ c.caching = true ∧
      c.answer? ⟨"Length", "Tenth", "Inch", 1⟩ = some 3.6000000000000005 ∧
      (c.after [⟨"Length", "Yard", "Inch", 1⟩]).answer? ⟨"Length", "Tenth", "Inch", 1⟩ = some 3.6 ∧
      (3.6 : Float) ≠ 3.6000000000000005) ∧
    ∃ c, fork.build = .ok c ∧ c.caching = true ∧
      c.answer? ⟨"Length", "Rod", "Chain", 1⟩ = some 1 ∧
      (c.after [⟨"Length", "Rod", "Link", 1⟩]).answer? ⟨"Length", "Rod", "Chain", 1⟩ = some 2 := by
  refine ⟨⟨rowConverter, rfl, rfl, ?_, ?_, ?_⟩, ⟨_, rfl, rfl, ?_, ?_⟩⟩ <;> decide +kernel

end Converter

end Metrology
