import Metrology.Graph.Basic

/-! # Shortest paths

Breadth-first search for a path with the fewest edges. The search keeps a queue of nodes to expand and notes
for every node how it was reached first; it ends as soon as the target is reached. Each round takes a node off
the queue, and each node that joins the queue uses up an edge whose target had not been seen, `visit_measure`,
so every search ends.
-/
namespace Metrology

structure Reached where
  node : Nat
  previous : Nat
  edge : Nat
  deriving DecidableEq, Repr

/-- The nodes still to expand, and the nodes reached so far with the latest first. -/
structure Frontier where
  queue : List Nat
  reached : List Reached
  deriving DecidableEq, Repr

namespace Graph

variable {ω : Type}

def seen (source : Nat) (reached : List Reached) (n : Nat) : Bool :=
  n == source || reached.any fun r => r.node == n

/-- Follows edges that leave one node; a new node is noted and queued, and the target ends the round. -/
def visit (g : Graph ω) (source target node : Nat) : List Nat → Frontier → Frontier
  | [], f => f
  | e :: rest, f =>
    match g.edges[e]? with
    | none => g.visit source target node rest f
    | some edge =>
      if seen source f.reached edge.target then g.visit source target node rest f
      else if edge.target = target then { f with reached := ⟨edge.target, node, e⟩ :: f.reached }
      else g.visit source target node rest
        ⟨f.queue ++ [edge.target], ⟨edge.target, node, e⟩ :: f.reached⟩

def unseenEdges (g : Graph ω) (source : Nat) (reached : List Reached) : Nat :=
  g.edges.countP fun edge => !seen source reached edge.target

theorem unseenEdges_cons_lt (g : Graph ω) (source : Nat) (reached : List Reached) (r : Reached) (edge : Edge ω)
    (hmem : edge ∈ g.edges) (hnode : r.node = edge.target) (hnew : seen source reached edge.target = false) :
    g.unseenEdges source (r :: reached) < g.unseenEdges source reached := by
  unfold unseenEdges
  generalize g.edges = edges at hmem ⊢
  have hle : ∀ xs : List (Edge ω),
      xs.countP (fun e => !seen source (r :: reached) e.target) ≤
        xs.countP (fun e => !seen source reached e.target) := by
    intro xs
    apply List.countP_mono_left
    intro e _ h
    simp only [seen, List.any_cons, Bool.not_eq_true', Bool.or_eq_false_iff] at h ⊢
    exact ⟨h.1, h.2.2⟩
  induction edges with
  | nil => cases hmem
  | cons e rest ih =>
    rw [List.countP_cons, List.countP_cons]
    cases hmem with
    | head =>
      have hnow : seen source (r :: reached) edge.target = true := by simp [seen, hnode]
      have := hle rest
      simp only [hnow, hnew]
      simp
      omega
    | tail _ hmem =>
      have := ih hmem
      have h1 := hle [e]
      rw [List.countP_cons, List.countP_cons] at h1
      simp only [List.countP_nil] at h1
      omega

/-- What a round adds to the queue, it takes from the edges to unseen nodes. -/
theorem visit_measure (g : Graph ω) (source target node : Nat) (es : List Nat) (f : Frontier) :
    g.unseenEdges source (g.visit source target node es f).reached + (g.visit source target node es f).queue.length ≤
      g.unseenEdges source f.reached + f.queue.length := by
  induction es generalizing f with
  | nil => exact Nat.le_refl _
  | cons e rest ih =>
    unfold visit
    split
    · exact ih f
    · rename_i edge hedge
      have hmem : edge ∈ g.edges := List.mem_of_getElem? hedge
      split
      · exact ih f
      · rename_i hnew
        have hlt := g.unseenEdges_cons_lt source f.reached ⟨edge.target, node, e⟩ edge hmem rfl (by simpa using hnew)
        split
        · dsimp only
          omega
        · have := ih ⟨f.queue ++ [edge.target], ⟨edge.target, node, e⟩ :: f.reached⟩
          simp only [List.length_append, List.length_cons, List.length_nil] at this
          omega

def explore (g : Graph ω) (source target : Nat) (f : Frontier) : List Reached :=
  match hq : f.queue with
  | [] => f.reached
  | node :: queue =>
    if f.reached.any fun r => r.node == target then f.reached
    else
      have : f.queue.length = queue.length + 1 := hq ▸ List.length_cons
      have := g.visit_measure source target node (g.edgesFrom node) ⟨queue, f.reached⟩
      g.explore source target (g.visit source target node (g.edgesFrom node) ⟨queue, f.reached⟩)
termination_by g.unseenEdges source f.reached + f.queue.length
decreasing_by
  dsimp only at this
  omega

/-- The nodes and edges by which a node was reached, from the source on. A node is reached from one that was
reached before it, so the rest of the list holds all of the way back. -/
def trail : List Reached → Nat → List Reached
  | [], _ => []
  | r :: older, node => if r.node = node then trail older r.previous ++ [r] else trail older node

structure Hop (ω : Type) where
  node : String
  weight : ω
  deriving DecidableEq, Repr

def hop? (g : Graph ω) (r : Reached) : Option (Hop ω) :=
  match g.nodes[r.node]?, g.edges[r.edge]? with
  | some n, some e => some ⟨n.value, e.weight⟩
  | _, _ => none

/-- A path with the fewest edges; it is empty from a node to itself and if there is none. -/
def shortestPath (g : Graph ω) (source target : Nat) : List (Hop ω) :=
  if source = target then []
  else (trail (g.explore source target ⟨[source], []⟩) target).filterMap g.hop?

/-- Shortest paths between any two numbers. A negative source counts from the end and is a place of its own,
which no edge leads back to; a source that does not exist has no paths except to itself. -/
def pathFrom? (g : Graph ω) (source target : Int) : Option (List (Hop ω)) :=
  if source = target then some []
  else
    let start := if source < 0 then source + g.size else source
    if 0 ≤ start ∧ start < g.size then
      if target < 0 then some []
      else if 0 ≤ source then some (g.shortestPath source.toNat target.toNat)
      else
        let twin : Node := ⟨"", g.edgesFrom start.toNat⟩
        some (({ g with nodes := g.nodes ++ [twin] } : Graph ω).shortestPath g.size target.toNat)
    else none

end Graph

end Metrology
