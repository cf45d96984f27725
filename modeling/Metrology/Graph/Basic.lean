/-! # Directed graphs with weighted edges

Nodes and edges are numbered in the order in which they were added. A node keeps its value and the numbers of
the edges that leave it, an edge its target and its weight. Values of nodes are distinct, since a value that
is present is not added again, and several edges may join the same nodes.
-/
namespace Metrology

structure Node where
  value : String
  edges : List Nat
  deriving DecidableEq, Repr

structure Edge (ω : Type) where
  target : Nat
  weight : ω
  deriving DecidableEq, Repr

structure Graph (ω : Type) where
  id : String
  nodes : List Node
  edges : List (Edge ω)

structure MissingNode where
  source : Int
  target : Int
  deriving DecidableEq, Repr

def MissingNode.message (e : MissingNode) : String :=
  "Node does not exist (source: " ++ toString e.source ++ ", target: " ++ toString e.target ++ ")"

namespace Graph

variable {ω : Type}

def empty (id : String) : Graph ω := ⟨id, [], []⟩

def size (g : Graph ω) : Nat := g.nodes.length

def indexOf? (g : Graph ω) (value : String) : Option Nat := g.nodes.findIdx? fun n => n.value == value

/-- The index of a value, which is added at the end if it is new. -/
def addNode (g : Graph ω) (value : String) : Graph ω × Nat :=
  match g.indexOf? value with
  | some i => (g, i)
  | none => ({ g with nodes := g.nodes ++ [⟨value, []⟩] }, g.size)

/-- Appends an edge and notes its number at its source; nothing happens if an end is missing. -/
def link (g : Graph ω) (source target : Nat) (weight : ω) : Graph ω :=
  if source < g.size ∧ target < g.size then
    { g with
      nodes := g.nodes.modify source fun n => { n with edges := n.edges ++ [g.edges.length] }
      edges := g.edges ++ [⟨target, weight⟩] }
  else g

def hasIndex (g : Graph ω) (i : Int) : Bool := 0 ≤ i && i < g.size

def addEdge (g : Graph ω) (source target : Int) (weight : ω) : Except MissingNode (Graph ω) :=
  if g.hasIndex source && g.hasIndex target then .ok (g.link source.toNat target.toNat weight)
  else .error ⟨source, target⟩

def edgesFrom (g : Graph ω) (i : Nat) : List Nat := (g.nodes[i]?.map Node.edges).getD []

/-- The weight of the first edge from one node to another. -/
def weight? (g : Graph ω) (source target : Int) : Option ω :=
  if g.hasIndex source && g.hasIndex target then
    (((g.edgesFrom source.toNat).filterMap fun e => g.edges[e]?).find?
      fun edge => edge.target == target.toNat).map Edge.weight
  else none

/-- The value of a node; a negative index counts from the end. -/
def value? (g : Graph ω) (i : Int) : Option String :=
  let i := if i < 0 then i + g.size else i
  if 0 ≤ i then g.nodes[i.toNat]?.map Node.value else none

end Graph

end Metrology
