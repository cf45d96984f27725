import Metrology.Proofs.Conversion.Account
import Metrology.Proofs.Converter.History

/-! # What a conversion returns and records

A conversion that succeeds has walked the shortest path between its units. Its value is what the stages of
that route make of the value given, and its account can be replayed to this very value. The account ends with
a cached edge exactly if an edge has been added to the graph of the category.
-/
namespace Metrology.Converter

variable {c : Converter} {k : Call} {o : Outcome} {r : Route}

theorem shortestPath_of_route {ends : Endpoints} {source target : String} (h : route ends source target = .ok r) :
    ends.graph.shortestPath ends.source ends.target = r := by
  unfold route at h
  split at h
  · next hpath =>
    split at h
    · cases h
      exact hpath
    · cases h
  · next hop rest hpath =>
    cases h
    exact hpath

/-- What a conversion that succeeds has done, and what it leaves behind if it is remembered. -/
theorem convert_eq_ok (h : c.convert k.category k.source k.target k.value = .ok o) :
    ∃ (ends : Endpoints) (r : Route) (w : Walk), c.endpoints k.category k.source k.target = .ok ends ∧
      route ends k.source k.target = .ok r ∧
      r.walk k.source k.value 1.0 = .ok w ∧ o.value = w.value * w.product ∧
      ((o.account = .path (r.units k.source) :: Route.steps w ∧ o.converter = c) ∨
        (o.account = .path (r.units k.source) :: Route.steps w ++ [.cache k.source k.target w.product] ∧
          o.converter = c.remember ends w.product)) := by
  unfold convert at h
  split at h
  · cases h
  · next ends hends =>
    split at h
    · cases h
    · next r hroute =>
      split at h
      · cases h
      · next w hwalk =>
        refine ⟨ends, r, w, hends, hroute, hwalk, ?_⟩
        dsimp only at h
        split at h
        · cases h
          exact ⟨rfl, Or.inr ⟨rfl, rfl⟩⟩
        · cases h
          exact ⟨rfl, Or.inl ⟨rfl, rfl⟩⟩

theorem table_next (c : Converter) (k : Call) : (c.next k).table = c.table := by
  cases hconvert : c.convert k.category k.source k.target k.value with
  | error e => simp only [next, hconvert]
  | ok o =>
    simp only [next, hconvert]
    obtain ⟨ends, r, w, -, -, -, -, ⟨-, hsame⟩ | ⟨-, hremembers⟩⟩ := convert_eq_ok hconvert
    · rw [hsame]
    · rw [hremembers]
      rfl

theorem table_after (c : Converter) (calls : List Call) : (c.after calls).table = c.table := by
  induction calls generalizing c with
  | nil => rfl
  | cons k rest ih => exact (ih (c.next k)).trans (c.table_next k)

theorem exists_convert_of_walk {ends : Endpoints} {w : Walk}
    (hends : c.endpoints k.category k.source k.target = .ok ends)
    (hroute : route ends k.source k.target = .ok r) (hwalk : r.walk k.source k.value 1.0 = .ok w) :
    ∃ o, c.convert k.category k.source k.target k.value = .ok o ∧ o.value = w.value * w.product := by
  simp only [convert, hends, hroute, hwalk]
  cases c.caches r with
  | true => exact ⟨_, rfl, rfl⟩
  | false => exact ⟨_, rfl, rfl⟩

/-- Factors alone convert every value, by one and the same factor. -/
theorem exists_convert_of_multipliersOnly {ends : Endpoints}
    (hends : c.endpoints k.category k.source k.target = .ok ends)
    (hroute : route ends k.source k.target = .ok r) (hfactors : r.multipliersOnly = true) :
    ∃ o, c.convert k.category k.source k.target k.value = .ok o ∧ o.value = k.value * r.product 1.0 := by
  have hwalk := r.map_walk k.source k.value 1.0
  rw [Route.result_of_multipliersOnly hfactors] at hwalk
  cases hw : r.walk k.source k.value 1.0 with
  | error e =>
    rw [hw] at hwalk
    cases hwalk
  | ok w =>
    rw [hw] at hwalk
    obtain ⟨hvalue, hproduct⟩ := Prod.mk.inj (Except.ok.inj hwalk)
    obtain ⟨o, ho, hresult⟩ := exists_convert_of_walk hends hroute hw
    refine ⟨o, ho, ?_⟩
    rw [hresult, hvalue, hproduct]

/-- A conversion returns what the stages of its route make of the value. If the route has no formula, every
value is converted by a factor that does not depend on it. -/
theorem value_of_stages (h : c.convert k.category k.source k.target k.value = .ok o) :
    ∃ (ends : Endpoints) (r : Route), c.endpoints k.category k.source k.target = .ok ends ∧
      ends.graph.shortestPath ends.source ends.target = r ∧
      (r.stages.flatMap Route.Stage.weights = r.map Graph.Hop.weight ∧ (∀ stage ∈ r.stages, stage.weights ≠ []) ∧
        r.stages.IsChain fun a b => ¬ (a.isRun = true ∧ b.isRun = true)) ∧
      Route.Stage.applyAll k.value r.stages = .ok o.value ∧
      (r.multipliersOnly = true → ∃ factor, o.value = k.value * factor ∧
        ∀ value, ∃ o', c.convert k.category k.source k.target value = .ok o' ∧ o'.value = value * factor) := by
  obtain ⟨ends, r, w, hends, hroute, hwalk, hvalue, -⟩ := convert_eq_ok h
  refine ⟨ends, r, hends, shortestPath_of_route hroute, ⟨r.weights_stages, r.weights_ne_nil, r.stages_apart⟩, ?_, ?_⟩
  · rw [hvalue]
    exact Route.applyAll_of_walk hwalk
  · intro hfactors
    refine ⟨r.product 1.0, ?_, ?_⟩
    · obtain ⟨o', ho', hresult⟩ := exists_convert_of_multipliersOnly hends hroute hfactors
      cases h.symm.trans ho'
      exact hresult
    · intro value
      exact exists_convert_of_multipliersOnly (k := ⟨k.category, k.source, k.target, value⟩) hends hroute hfactors

/-- Two factors that cancel out, a formula, and a third factor behind it. -/
def relay : Converter where
  graphs := [{
    id := "Length"
    nodes := [⟨"A", [0]⟩, ⟨"B", [1]⟩, ⟨"C", [2]⟩, ⟨"D", [3]⟩, ⟨"E", []⟩]
    edges := [⟨1, .multiplier 2⟩, ⟨2, .multiplier 0.5⟩,
      ⟨3, .formula ⟨"{c} + 1", .binary .add (.var "c") (.number 1)⟩ ["c", "C"]⟩, ⟨4, .multiplier 3⟩] }]
  table := []
  caching := true
  channel := ""

/-- Nothing is applied before the formula, since the pending product is one. -/
theorem value_of_stages_relay : ∃ (o : Outcome) (r : Route), relay.convert "Length" "A" "E" 5 = .ok o ∧ o.value = 18 ∧
    Route.Stage.applyAll 5 r.stages = .ok 18 := by
  have hvalue : (relay.convert "Length" "A" "E" 5).toOption.map Outcome.value = some 18 := by decide +kernel
  cases h : relay.convert "Length" "A" "E" 5 with
  | error e =>
    rw [h] at hvalue
    cases hvalue
  | ok o =>
    rw [h] at hvalue
    have hresult : o.value = 18 := Option.some.inj hvalue
    obtain ⟨-, r, -, -, -, hstages, -⟩ := value_of_stages (k := ⟨"Length", "A", "E", 5⟩) h
    rw [hresult] at hstages
    exact ⟨o, r, rfl, hresult, hstages⟩

/-- The account of a conversion names the units of its route and has a step for each edge. It can be replayed
from the value given to the value returned, and ends with a cached edge exactly if the graph of the category
has got that edge. -/
theorem account_replays (h : c.convert k.category k.source k.target k.value = .ok o) :
    ∃ (ends : Endpoints) (r : Route) (steps last : List Account),
      c.endpoints k.category k.source k.target = .ok ends ∧ ends.graph.shortestPath ends.source ends.target = r ∧
      o.account = .path (k.source :: r.map Graph.Hop.node) :: steps ++ last ∧
      Account.RecordsAll k.source r steps ∧
      (⟨k.value, 1.0⟩ : Replay).Bears steps ∧ (⟨k.value, 1.0⟩ : Replay).after steps = ⟨o.value, 1.0⟩ ∧
      ((last = [] ∧ o.converter = c) ∨
        ∃ factor, last = [.cache k.source k.target factor] ∧
          c.graph? k.category = some ends.graph ∧ ends.graph.indexOf? k.source = some ends.source ∧
          ends.graph.indexOf? k.target = some ends.target ∧
          (∃ g, o.converter.graph? k.category = some g ∧
            g = ends.graph.link ends.source ends.target (.multiplier factor) ∧
            g.edges = ends.graph.edges ++ [⟨ends.target, .multiplier factor⟩]) ∧
          ∀ category, category ≠ k.category → o.converter.graph? category = c.graph? category) := by
  obtain ⟨ends, r, w, hends, hroute, hwalk, hvalue, hleft⟩ := convert_eq_ok h
  obtain ⟨hbears, hafter⟩ := Route.replay_walk hwalk
  have hrecords := Route.recordsAll_walk hwalk
  have hpath := shortestPath_of_route hroute
  rw [← hvalue] at hafter
  rcases hleft with ⟨haccount, hsame⟩ | ⟨haccount, hremember⟩
  · refine ⟨ends, r, Route.steps w, [], hends, hpath, ?_, hrecords, hbears, hafter, Or.inl ⟨rfl, hsame⟩⟩
    rw [haccount, List.append_nil]
    rfl
  · obtain ⟨hg, hs, ht⟩ := endpoints_eq_ok.mp hends
    obtain ⟨hadded, hothers⟩ := graph?_remember_of_endpoints hends w.product
    rw [← hremember] at hadded hothers
    exact ⟨ends, r, Route.steps w, [.cache k.source k.target w.product], hends, hpath, haccount,
      hrecords, hbears, hafter,
      Or.inr ⟨w.product, rfl, hg, hs, ht, hadded, hothers⟩⟩

/-- Two factors that cancel out leave nothing to flush, but an edge behind. A factor before a formula is
flushed, and so is one behind it. -/
theorem account_replays_relay :
    (∃ (o : Outcome) (steps : List Account) (factor : Float), relay.convert "Length" "A" "C" 5 = .ok o ∧
      o.account = .path ["A", "B", "C"] :: steps ++ [.cache "A" "C" factor] ∧
      (⟨5, 1.0⟩ : Replay).Bears steps ∧ (⟨5, 1.0⟩ : Replay).after steps = ⟨5, 1.0⟩) ∧
    ∃ (o : Outcome) (steps : List Account), relay.convert "Length" "B" "E" 4 = .ok o ∧
      o.account = .path ["B", "C", "D", "E"] :: steps ∧
      steps.map Account.kind = ["multiply", "flush", "formula", "multiply", "flush"] ∧
      (⟨4, 1.0⟩ : Replay).Bears steps ∧ (⟨4, 1.0⟩ : Replay).after steps = ⟨9, 1.0⟩ := by
  constructor
  · have hresult : (relay.convert "Length" "A" "C" 5).toOption.map
        (fun o => (o.value, (o.converter.graph? "Length").map fun g => g.edges.length)) =
          some (5, some 5) := by decide +kernel
    have hunits : (relay.endpoints "Length" "A" "C").toOption.map
        (fun ends => (ends.graph.shortestPath ends.source ends.target).map Graph.Hop.node) = some ["B", "C"] := by
      decide +kernel
    cases h : relay.convert "Length" "A" "C" 5 with
    | error e =>
      rw [h] at hresult
      cases hresult
    | ok o =>
      obtain ⟨ends, r, steps, last, hends, hpath, haccount, -, hbears, hafter, hlast⟩ :=
        account_replays (k := ⟨"Length", "A", "C", 5⟩) h
      rw [h] at hresult
      obtain ⟨hvalue, hedges⟩ := Prod.mk.inj (Option.some.inj hresult)
      rw [hends] at hunits
      have hnodes : r.map Graph.Hop.node = ["B", "C"] := hpath ▸ Option.some.inj hunits
      rw [hnodes] at haccount
      rw [hvalue] at hafter
      rcases hlast with ⟨rfl, hsame⟩ | ⟨factor, rfl, -⟩
      · rw [hsame] at hedges
        have hbuilt : ((relay.graph? "Length").map fun g => g.edges.length) = some 4 := rfl
        rw [hbuilt] at hedges
        cases hedges
      · exact ⟨o, steps, factor, rfl, haccount, hbears, hafter⟩
  · have hresult : (relay.convert "Length" "B" "E" 4).toOption.map (fun o => (o.value, o.account.map Account.kind)) =
        some (9, ["path", "multiply", "flush", "formula", "multiply", "flush"]) := by decide +kernel
    have hunits : (relay.endpoints "Length" "B" "E").toOption.map
        (fun ends => (ends.graph.shortestPath ends.source ends.target).map Graph.Hop.node) = some ["C", "D", "E"] := by
      decide +kernel
    cases h : relay.convert "Length" "B" "E" 4 with
    | error e =>
      rw [h] at hresult
      cases hresult
    | ok o =>
      obtain ⟨ends, r, steps, last, hends, hpath, haccount, -, hbears, hafter, hlast⟩ :=
        account_replays (k := ⟨"Length", "B", "E", 4⟩) h
      rw [h] at hresult
      obtain ⟨hvalue, hkinds⟩ := Prod.mk.inj (Option.some.inj hresult)
      rw [hends] at hunits
      have hnodes : r.map Graph.Hop.node = ["C", "D", "E"] := hpath ▸ Option.some.inj hunits
      rw [haccount, List.cons_append, List.map_cons, List.cons.injEq] at hkinds
      rw [hnodes] at haccount
      rw [hvalue] at hafter
      rcases hlast with ⟨rfl, -⟩ | ⟨factor, rfl, -⟩
      · rw [List.append_nil] at haccount hkinds
        exact ⟨o, steps, rfl, haccount, hkinds.2, hbears, hafter⟩
      · -- What is walked with a formula leaves no edge, so nothing is said to be cached.
        have hend := congrArg List.getLast? hkinds.2
        simp [Account.kind] at hend

end Metrology.Converter
