import Metrology.Yaml.Kind
import Metrology.Yaml.Layout

/-! # Nodes

The nodes of a document are numbered, and a collection holds the numbers of its parts. So an alias is just
another place where the number of a node stands, and a node may be a part of itself. The tag of a scalar
without one follows from its text. An anchor can be used as soon as its node has begun, and no two anchors
have one name.
-/
namespace Metrology.Yaml

inductive Shape where
  | scalar (text : String)
  | sequence (items : List Nat)
  | mapping (entries : List (Nat × Nat))

structure Node where
  kind : Option Kind
  shape : Shape

abbrev Handles := List (String × String)

structure Reading where
  tokens : List Token
  nodes : Array Node
  anchors : List (String × Nat)

abbrev Reader := StateT Reading (OptionT (Except Nat))

namespace Reader

def peek? : Reader (Option Token) := do
  match (← get).tokens.head? with
  | some (.impossible code) => throwThe Nat code
  | t => return t

def skip : Reader Unit := modify fun r => { r with tokens := r.tokens.tail }

def nextIs (p : Token → Bool) : Reader Bool := return (← peek?).any p

def accept (t : Token) : Reader Bool := do
  if (← peek?) = some t then
    skip
    return true
  else return false

def expect (t : Token) : Reader Unit := do
  if ← accept t then return ()
  else failure

end Reader

open Reader

structure Properties where
  anchor : Option String
  tag : Option String

def expand (handles : Handles) : Option String → String → Option String
  | none, suffix => some suffix
  | some handle, suffix => (handles.lookup handle).map fun expansion => expansion ++ suffix

def readProperties (handles : Handles) : Reader Properties := do
  let tag? : Reader (Option String) := do
    match ← peek? with
    | some (.tag handle suffix) =>
      skip
      match expand handles handle suffix with
      | some tag => return some tag
      | none => failure
    | _ => return none
  match ← peek? with
  | some (.anchor name) =>
    skip
    return ⟨some name, ← tag?⟩
  | _ =>
    let tag ← tag?
    match ← peek? with
    | some (.anchor name) =>
      if tag.isSome then
        skip
        return ⟨some name, tag⟩
      else return ⟨none, tag⟩
    | _ => return ⟨none, tag⟩

def beginNode (anchor : Option String) (n : Node) : Reader Nat := do
  let r ← get
  let number := r.nodes.size
  match anchor with
  | none => set { r with nodes := r.nodes.push n }
  | some name =>
    if r.anchors.any fun a => a.1 == name then failure
    else set { r with nodes := r.nodes.push n, anchors := (name, number) :: r.anchors }
  return number

def completeNode (number : Nat) (shape : Shape) : Reader Nat := do
  modify fun r => { r with nodes := r.nodes.modify number fun n => { n with shape } }
  return number

def emptyNode : Reader Nat := beginNode none ⟨some (kindOf ""), .scalar ""⟩

/-- The kind of a node whose tag is missing, or is a single mark that leaves it open. -/
def kindOr (tag : Option String) (kind : Kind) : Option Kind :=
  match tag with
  | none => some kind
  | some tag => if tag = "!" then some kind else Kind.ofTag? tag

/-- The kind of a scalar; one that is not plain is a text unless it is tagged. -/
def scalarKind (tag : Option String) (plain : Bool) (text : String) : Option Kind :=
  if tag.isNone && !plain then some .text else kindOr tag (kindOf text)

def endsItem : Token → Bool
  | .item | .blockEnd => true
  | _ => false

def endsEntry : Token → Bool
  | .key | .value | .blockEnd => true
  | _ => false

def endsFlowEntry (close : Token) (t : Token) : Bool := t = .comma || t = close

mutual

/-- Reads a node. Blocks are not allowed between brackets, and a sequence that is not indented only inside a
mapping. Each call passes a token or goes to a part, which bounds the depth of calls. -/
def readNode (handles : Handles) (block indentless : Bool) : Nat → Reader Nat
  | 0 => failure
  | bound + 1 => do
    match ← peek? with
    | some (.alias name) =>
      skip
      match (← get).anchors.lookup name with
      | some number => return number
      | none => failure
    | _ =>
      let p ← readProperties handles
      readContent handles block indentless p bound

/-- Reads a node after its properties. With properties there is a node even where nothing that can be one
comes next. -/
def readContent (handles : Handles) (block indentless : Bool) (p : Properties) : Nat → Reader Nat
  | 0 => failure
  | bound + 1 => do
    let sequence (items : Reader (List Nat)) : Reader Nat := do
      let number ← beginNode p.anchor ⟨kindOr p.tag .list, .sequence []⟩
      completeNode number (.sequence (← items))
    let mapping (entries : Reader (List (Nat × Nat))) : Reader Nat := do
      let number ← beginNode p.anchor ⟨kindOr p.tag .map, .mapping []⟩
      completeNode number (.mapping (← entries))
    match ← peek?, block, indentless with
    | some .item, _, true => sequence (readItems handles true bound)
    | some (.scalar plain text), _, _ =>
      skip
      beginNode p.anchor ⟨scalarKind p.tag plain text, .scalar text⟩
    | some .flowSequence, _, _ =>
      skip
      sequence (readFlowItems handles true bound)
    | some .flowMapping, _, _ =>
      skip
      mapping (readFlowEntries handles true bound)
    | some .blockSequence, true, _ =>
      skip
      sequence (readItems handles false bound)
    | some .blockMapping, true, _ =>
      skip
      mapping (readEntries handles bound)
    | _, _, _ =>
      if p.anchor.isSome || p.tag.isSome then beginNode p.anchor ⟨kindOr p.tag (kindOf ""), .scalar ""⟩
      else failure

/-- Reads the items of a block sequence; one that is not indented has no end of its own. -/
def readItems (handles : Handles) (indentless : Bool) : Nat → Reader (List Nat)
  | 0 => failure
  | bound + 1 => do
    if ← accept .item then
      let stops := fun t => endsItem t || (indentless && endsEntry t)
      let n ← if ← nextIs stops then emptyNode else readNode handles true false bound
      return n :: (← readItems handles indentless bound)
    else
      if !indentless then expect .blockEnd
      return []

def readPart (handles : Handles) (block : Bool) (stops : Token → Bool) : Nat → Reader Nat
  | 0 => failure
  | bound + 1 => do
    if ← nextIs stops then emptyNode
    else readNode handles block block bound

def readValue (handles : Handles) (block : Bool) (stops : Token → Bool) : Nat → Reader Nat
  | 0 => failure
  | bound + 1 => do
    if ← accept .value then readPart handles block stops bound
    else emptyNode

def readEntries (handles : Handles) : Nat → Reader (List (Nat × Nat))
  | 0 => failure
  | bound + 1 => do
    if ← accept .key then
      let k ← readPart handles true endsEntry bound
      let v ← readValue handles true endsEntry bound
      return (k, v) :: (← readEntries handles bound)
    else
      expect .blockEnd
      return []

/-- Reads the items between square brackets; an item with a key is a mapping with a single entry. -/
def readFlowItems (handles : Handles) (first : Bool) : Nat → Reader (List Nat)
  | 0 => failure
  | bound + 1 => do
    if ← accept .flowSequenceEnd then return []
    else
      if !first then expect .comma
      if ← accept .key then
        let stops := endsFlowEntry .flowSequenceEnd
        let k ← readPart handles false (fun t => t = .value || stops t) bound
        let v ← readValue handles false stops bound
        let n ← beginNode none ⟨some .map, .mapping [(k, v)]⟩
        return n :: (← readFlowItems handles false bound)
      else if ← accept .flowSequenceEnd then return []
      else
        let n ← readNode handles false false bound
        return n :: (← readFlowItems handles false bound)

def readFlowEntries (handles : Handles) (first : Bool) : Nat → Reader (List (Nat × Nat))
  | 0 => failure
  | bound + 1 => do
    if ← accept .flowMappingEnd then return []
    else
      if !first then expect .comma
      if ← accept .key then
        let stops := endsFlowEntry .flowMappingEnd
        let k ← readPart handles false (fun t => t = .value || stops t) bound
        let v ← readValue handles false stops bound
        return (k, v) :: (← readFlowEntries handles false bound)
      else if ← accept .flowMappingEnd then return []
      else
        let n ← readNode handles false false bound
        return (n, ← emptyNode) :: (← readFlowEntries handles false bound)

end

/-- Reads the directives of a document: at most one version, which has to be of the first generation, and
handles of different names. The usual handles need no directive. -/
def readDirectives (version : Bool) (handles : Handles) : List Token → Option (Handles × List Token)
  | .directive (.version major) :: rest =>
    if version || major ≠ 1 then none else readDirectives true handles rest
  | .directive (.handle name expansion) :: rest =>
    if handles.any fun h => h.1 == name then none
    else readDirectives version ((name, expansion) :: handles) rest
  | .directive .unknown :: rest => readDirectives version handles rest
  | tokens => some (handles ++ [("!", "!"), ("!!", standardTag "")], tokens)

def isDocumentToken : Token → Bool
  | .directive _ | .documentStart | .documentEnd => true
  | _ => false

structure Graph where
  nodes : Array Node
  root : Nat

def Graph.ofTokens? (tokens : List Token) : OptionT (Except Nat) (Option Graph) :=
  let bound := 8 * tokens.length + 8
  match tokens with
  | [] => return none
  | t :: _ => do
    let (root, r) ←
      if t = .documentStart || t matches .directive _ then
        match readDirectives false [] tokens with
        | some (handles, .documentStart :: rest) =>
          let read := if rest.head?.all isDocumentToken then emptyNode else readNode handles true false bound
          read ⟨rest, #[], []⟩
        | _ => failure
      else readNode [("!", "!"), ("!!", standardTag "")] true false bound ⟨tokens, #[], []⟩
    match r.tokens.dropWhile fun t => t = .documentEnd with
    | [] => return some ⟨r.nodes, root⟩
    | .impossible code :: _ => throwThe Nat code
    | _ => failure

end Metrology.Yaml
