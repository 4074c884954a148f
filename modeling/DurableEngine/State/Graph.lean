/-
  DurableEngine.State.Graph

  The repository's reading of a definition graph and its check of the
  successors a scheduler proposes (`internal/state/graph.go`).

  A Go map keyed by node ID is a list of nodes with distinct IDs, in document
  order; the order only decides which of several errors is reported first.
-/

import DurableEngine.Lib.Tx
import DurableEngine.Lib.Unmarshal
import DurableEngine.State.Statements

namespace DurableEngine.State

open Lib

structure DefinitionGraphNode where
  id : String
  kind : String
  next : List String
  branches : List String
  join : String
deriving DecidableEq, Repr

structure DefinitionGraph where
  entry : String
  nodes : List DefinitionGraphNode

/-- The node declared under `id`. -/
def DefinitionGraph.find (graph : DefinitionGraph) (id : String) : Option DefinitionGraphNode :=
  graph.nodes.find? (fun n => n.id = id)

def quote (s : String) : String := "\"" ++ s ++ "\""

/-- `decodeDefinitionNext`; `none` is an absent member. -/
def decodeDefinitionNext (raw : Option Json) : Except String (List String) :=
  match raw with
  | none | some .null => .ok []
  | some (.str one) => if one = "" then .error "next node ID is empty" else .ok [one]
  | some v =>
      match unmarshalStrings v with
      | none => .error "next must be a node ID or array"
      | some many => if "" ∈ many then .error "next node ID is empty" else .ok many

/-- The object form of a node. -/
def decodeDefinitionNode (rawNode : Json) : Except String DefinitionGraphNode :=
  let object : Option (List (String × Json) × String × String × List String × String) := do
    let ms ← structMembers rawNode
    let id ← field storeString "" "id" ms
    let kind ← field storeString "" "kind" ms
    let branches ← field storeStrings .zero "branches" ms
    let join ← field storeString "" "join" ms
    some (ms, id, kind, branches.elems, join)
  match object with
  | none => .error "graph node object requires an ID"
  | some (ms, id, kind, branches, join) => do
      rejectIf (id = "") "graph node object requires an ID"
      match decodeDefinitionNext (rawField "next" ms) with
      | .error e => .error ("node " ++ quote id ++ ": " ++ e)
      | .ok next => .ok ⟨id, if kind = "" then "activity" else kind, next, branches, join⟩

/-- Decode one element of `nodes` and add it to the map. -/
def addDefinitionNode (nodes : List DefinitionGraphNode) (rawNode : Json) :
    Except String (List DefinitionGraphNode) := do
  let node ← match unmarshalString rawNode with
    | some shorthand => do
        rejectIf (shorthand = "") "graph node ID is empty"
        .ok ⟨shorthand, "activity", [], [], ""⟩
    | none => decodeDefinitionNode rawNode
  rejectIf (nodes.any (fun n => n.id = node.id)) ("duplicate graph node " ++ quote node.id)
  return nodes ++ [node]

/-- The first reference of a node that is not declared. -/
def undeclaredRef (nodes : List DefinitionGraphNode) (node : DefinitionGraphNode) : Option String :=
  (node.next ++ node.branches ++ [node.join]).find?
    (fun ref => ref ≠ "" && !nodes.any (fun n => n.id = ref))

/-- `decodeDefinitionGraph`. -/
def decodeDefinitionGraph (raw : Json) : Except String DefinitionGraph := do
  rejectIf (!raw.shallow) "decode graph"
  let ms ← getOr (structMembers raw) "decode graph"
  let entry ← getOr (field storeString "" "entry" ms) "decode graph"
  let rawNodes ← getOr (field storeRaws [] "nodes" ms) "decode graph"
  rejectIf (rawNodes = []) "graph has no nodes"
  let nodes ← rawNodes.foldlM addDefinitionNode []
  rejectIf (entry = "" ∧ nodes.length ≠ 1)
    "graph entry is required when more than one node is declared"
  let entry := if entry = "" then (nodes.head?.map (·.id)).getD "" else entry
  rejectIf (!nodes.any (fun n => n.id = entry)) ("graph entry " ++ quote entry ++ " is not declared")
  match nodes.findSome? (fun n => (undeclaredRef nodes n).map (fun ref => (n.id, ref))) with
  | some (id, ref) => .error ("node " ++ quote id ++ " references undeclared node " ++ quote ref)
  | none => return ⟨entry, nodes⟩

/-- `definitionGraph.node`. -/
def DefinitionGraph.node (graph : DefinitionGraph) (id : String) :
    Except Err DefinitionGraphNode :=
  getOr (graph.find id) (.wrapped .graphViolation ("node " ++ quote id ++ " is not declared"))

structure GraphNodeInput where
  nodeID : String
  iteration : Int
  dependencies : List String
  input : RawMessage

def isFanout (kind : String) : Bool := kind = "fanout" || kind = "fan_out"

/-- The successors a node declares, in the order the store expects them. -/
def expectedSuccessors (source : DefinitionGraphNode) : List String :=
  source.next ++ (if isFanout source.kind then
    source.branches ++ (if source.join = "" then [] else [source.join]) else [])

/-- The proposed successors one by one: iteration, repetition, declaration. -/
def checkSuccessors (graph : DefinitionGraph) (sourceIteration : Int) :
    List String → List GraphNodeInput → Except Err Unit
  | _, [] => .ok ()
  | seen, item :: rest => do
      rejectIf (item.iteration < 0 ∨ item.iteration ≠ sourceIteration)
        (.wrapped .graphViolation ("successor " ++ quote item.nodeID ++ " has iteration " ++
          toString item.iteration ++ ", want " ++ toString sourceIteration))
      rejectIf (item.nodeID ∈ seen)
        (.wrapped .graphViolation ("duplicate successor " ++ quote item.nodeID))
      let _ ← graph.node item.nodeID
      checkSuccessors graph sourceIteration (item.nodeID :: seen) rest

/-- The position of the first proposed successor that is not the declared one. -/
def mismatchAt : Nat → List String → List GraphNodeInput → Option (Nat × String)
  | i, id :: ids, item :: items =>
      if item.nodeID = id then mismatchAt (i + 1) ids items else some (i, item.nodeID)
  | _, _, _ => none

/-- The proposed successors are the declared ones: any one of several for an
    activity, else all of them in order. -/
def checkExpected (source : DefinitionGraphNode) (expected : List String)
    (next : List GraphNodeInput) : Except Err Unit :=
  if source.kind = "activity" ∧ 1 < expected.length then
    rejectIf (¬ (next.length = 1 ∧ ∀ item ∈ next, item.nodeID ∈ expected))
      (.wrapped .graphViolation
        ("activity " ++ quote source.id ++ " selected an undeclared successor"))
  else if expected.length ≠ next.length then
    .error (.wrapped .graphViolation ("node " ++ quote source.id ++ " expected " ++
      toString expected.length ++ " successors, got " ++ toString next.length))
  else match mismatchAt 0 expected next with
    | some (index, id) => .error (.wrapped .graphViolation ("node " ++ quote source.id ++
        " successor " ++ quote id ++ " is not declared at position " ++ toString index))
    | none => .ok ()

/-- `validateGraphSuccessors`. -/
def validateGraphSuccessors (graph : DefinitionGraph) (source : DefinitionGraphNode)
    (sourceIteration : Int) (next : List GraphNodeInput) : Except Err Unit := do
  checkExpected source (expectedSuccessors source) next
  checkSuccessors graph sourceIteration [] next
  rejectIf (isFanout source.kind ∧
      ∃ item ∈ next, item.nodeID = source.join ∧ item.dependencies ≠ source.branches)
    (.wrapped .graphViolation
      ("join " ++ quote source.join ++ " dependencies do not match fan-out branches"))

-- ============================================================================
-- Effect classes
-- ============================================================================

/-- `decodeEffectClasses`: the classes of a definition by node ID. -/
def decodeEffectClasses (raw : RawMessage) : Except Err (List (String × EffectClass)) := do
  let classes ← match raw with
    | .empty => .error (.sentinel .missingEffectClass)
    | .malformed => .error (.text "decode activity effect classes")
    | .json v => getOr (unmarshalStringMap v) (.text "decode activity effect classes")
  classes.mapM (fun c =>
    if c.1 = "" then .error (.text ("invalid effect class for activity " ++ quote c.1))
    else match EffectClass.ofText c.2 with
      | none => .error (.text ("invalid effect class for activity " ++ quote c.1))
      | some cls => .ok (c.1, cls))

/-- `effect_classes ->> nodeID` of a stored document. -/
def effectClassText (effectClasses : Jsonb) (nodeID : String) : Option String :=
  match effectClasses.doc with
  | .obj ms =>
      match ms.lookup nodeID with
      | some (.str s) => some s
      | _ => none
  | _ => none

end DurableEngine.State
