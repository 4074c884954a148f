/-
  DurableEngine.Engine.Graph

  The interpreter's own view of a definition graph (`internal/engine/engine.go`):
  `ParseGraph`, the successors of a node and the choice an activity's output
  makes among them.

  The store decodes the same document a second time when it advances a node.
  `decodeDefinitionGraph_of_parseGraph` says that it accepts every graph the
  interpreter accepts, with the same nodes.
-/

import DurableEngine.State.Store

namespace DurableEngine.Engine

open Lib State

-- ============================================================================
-- ParseGraph
-- ============================================================================

structure Node where
  id : String
  kind : String
  next : List String
  branches : List String
  join : String
  delay : Int
deriving DecidableEq, Repr

structure Graph where
  entry : String
  nodes : List Node

/-- The node declared under `id`. -/
def Graph.find (graph : Graph) (id : String) : Option Node :=
  graph.nodes.find? (fun n => n.id = id)

/-- `decodeNext`; `none` is an absent member. -/
def decodeNext (raw : Option Json) : Except String (List String) :=
  match raw with
  | none | some .null => .ok []
  | some (.str one) => if one = "" then .error "next node ID cannot be empty" else .ok [one]
  | some v =>
      match unmarshalStrings v with
      | none => .error "next must be a node ID or array of node IDs"
      | some many => if "" ∈ many then .error "next node ID cannot be empty" else .ok many

/-- `time.Duration(ms) * time.Millisecond`, in 64 bits. -/
def milliseconds (ms : Int) : Int := (ms * 1000000).bmod (2 ^ 64)

/-- The fields of the object form of a node. -/
def nodeDocument (rawNode : Json) :
    Option (String × String × Option Json × List String × String × Int) := do
  let ms ← structMembers rawNode
  let id ← field storeString "" "id" ms
  let kind ← field storeString "" "kind" ms
  let branches ← field storeStrings .zero "branches" ms
  let join ← field storeString "" "join" ms
  let delayMS ← field storeInt 0 "delay_ms" ms
  some (id, kind, rawField "next" ms, branches.elems, join, delayMS)

/-- Decode one element of `nodes` and add it to the map. -/
def addNode (nodes : List Node) (rawNode : Json) : Except String (List Node) :=
  match unmarshalString rawNode with
  | some shorthand => do
      rejectIf (shorthand = "") "workflow graph node ID cannot be empty"
      rejectIf (nodes.any (fun n => n.id = shorthand))
        ("duplicate workflow graph node " ++ quote shorthand)
      return nodes ++ [⟨shorthand, "activity", [], [], "", 0⟩]
  | none =>
      match nodeDocument rawNode with
      | none => .error "workflow graph nodes must have non-empty IDs"
      | some (id, kind, rawNext, branches, join, delayMS) => do
          rejectIf (id = "") "workflow graph nodes must have non-empty IDs"
          rejectIf (nodes.any (fun n => n.id = id)) ("duplicate workflow graph node " ++ quote id)
          match decodeNext rawNext with
          | .error e => .error ("node " ++ quote id ++ ": " ++ e)
          | .ok next => .ok (nodes ++ [⟨id, if kind = "" then "activity" else kind, next, branches,
              join, milliseconds delayMS⟩])

/-- The first reference of a node that is not declared. -/
def danglingRef (nodes : List Node) (node : Node) : Option String :=
  (node.next ++ node.branches ++ [node.join]).find?
    (fun ref => ref ≠ "" && !nodes.any (fun n => n.id = ref))

/-- `ParseGraph`. -/
def parseGraph (raw : Json) : Except String Graph := do
  rejectIf (!raw.shallow) "decode workflow graph"
  let ms ← getOr (structMembers raw) "decode workflow graph"
  let entry ← getOr (field storeString "" "entry" ms) "decode workflow graph"
  let rawNodes ← getOr (field storeRaws [] "nodes" ms) "decode workflow graph"
  rejectIf (rawNodes = []) "workflow graph must contain nodes"
  let nodes ← rawNodes.foldlM addNode []
  rejectIf (entry = "" ∧ nodes.length ≠ 1)
    "graph entry is required when more than one node is declared"
  let entry := if entry = "" then (nodes.head?.map (·.id)).getD "" else entry
  rejectIf (!nodes.any (fun n => n.id = entry)) ("graph entry " ++ quote entry ++ " is not declared")
  match nodes.findSome? (fun n => (danglingRef nodes n).map (fun ref => (n.id, ref))) with
  | some (id, ref) => .error ("node " ++ quote id ++ " references undeclared node " ++ quote ref)
  | none => return ⟨entry, nodes⟩

-- ============================================================================
-- Successors
-- ============================================================================

/-- The member `next` of an activity's output. -/
def branchChoice (payload : Json) : Option String :=
  if payload.shallow then (structMembers payload).bind (field storeString "" "next") else none

/-- `validateActivityResult`. -/
def validateActivityResult (node : Node) (payload : RawMessage) : Except String Unit :=
  if node.next.length ≤ 1 then .ok ()
  else match payload with
    | .json v =>
        match branchChoice v with
        | some choice => rejectIf (choice = "" ∨ choice ∉ node.next)
            "activity output selected an undeclared successor"
        | none => .error "activity output selected an undeclared successor"
    | _ => .error "activity output selected an undeclared successor"

/-- A stored document handed on as input. -/
def rawOf (document : Option Jsonb) : RawMessage :=
  match document with
  | some d => .json d.doc
  | none => .empty

/-- `nextInputs`. -/
def nextInputs (node : NodeInstance) (definitionNode : Node) (graph : Graph) :
    Except String (List GraphNodeInput) :=
  definitionNode.next.mapM (fun id => do
    rejectIf ((graph.find id).isNone) ("next node " ++ quote id ++ " is not declared")
    return ⟨id, node.key.iteration, [], .json node.input.doc⟩)

/-- The successors an activity's result selects. -/
def selectNext (nodeID : String) (definitionNode : Node) (payload : Option Jsonb) :
    Except String (List String) :=
  if 1 < definitionNode.next.length then
    match payload.bind (fun p => branchChoice p.doc) with
    | some choice =>
        if choice = "" then .error ("activity " ++ quote nodeID ++ " returned no branch choice")
        else .ok [choice]
    | none => .error ("activity " ++ quote nodeID ++ " returned no branch choice")
  else .ok definitionNode.next

/-- `nextInputsForResult`. -/
def nextInputsForResult (key : NodeKey) (definitionNode : Node) (graph : Graph)
    (payload : Option Jsonb) : Except String (List GraphNodeInput) := do
  let next ← selectNext key.nodeID definitionNode payload
  next.mapM (fun id => do
    rejectIf ((graph.find id).isNone) ("next node " ++ quote id ++ " is not declared")
    rejectIf (definitionNode.next ≠ [] ∧ id ∉ definitionNode.next)
      ("activity " ++ quote key.nodeID ++ " selected an undeclared successor " ++ quote id)
    return ⟨id, key.iteration, [], rawOf payload⟩)

-- ============================================================================
-- The store's reading of the graph
-- ============================================================================

/-- What the store keeps of a node. -/
def Node.definition (node : Node) : DefinitionGraphNode :=
  ⟨node.id, node.kind, node.next, node.branches, node.join⟩

theorem decodeDefinitionNext_of_decodeNext {raw : Option Json} {next : List String}
    (h : decodeNext raw = .ok next) : decodeDefinitionNext raw = .ok next := by
  unfold decodeNext at h
  split at h
  · exact h
  · exact h
  · rename_i one
    split at h
    · cases h
    · rename_i hne
      simpa only [decodeDefinitionNext, if_neg hne] using h
  · rename_i v hnull hstr
    split at h
    · cases h
    · rename_i many hstrings
      split at h
      · cases h
      · rename_i hne
        unfold decodeDefinitionNext
        split
        · rename_i heq
          cases heq
        · rename_i heq
          cases heq
          cases hnull rfl
        · rename_i one heq
          cases heq
          cases hstr one rfl
        · rename_i heq
          cases heq
          simpa only [hstrings, if_neg hne] using h

theorem any_definition (nodes : List Node) (id : String) :
    (nodes.map Node.definition).any (fun n => n.id = id) = nodes.any (fun n => n.id = id) := by
  rw [List.any_map]
  rfl

theorem addDefinitionNode_of_addNode {nodes nodes' : List Node} {rawNode : Json}
    (h : addNode nodes rawNode = .ok nodes') :
    addDefinitionNode (nodes.map Node.definition) rawNode = .ok (nodes'.map Node.definition) := by
  unfold addNode at h
  unfold addDefinitionNode
  split at h
  · rename_i shorthand hshort
    simp only [bind_eq_ok, rejectIf_eq_ok, exists_const, pure_eq_ok] at h
    obtain ⟨hne, hdup, rfl⟩ := h
    simp only [hshort, rejectIf_of_not _ hne, ok_bind, any_definition, rejectIf_of_not _ hdup,
      List.map_append, List.map_singleton]
    rfl
  · rename_i hshort
    split at h
    · cases h
    · rename_i id kind rawNext branches join delayMS hdoc
      simp only [bind_eq_ok, rejectIf_eq_ok, exists_const] at h
      obtain ⟨hne, hdup, h⟩ := h
      simp only [nodeDocument, Option.bind_eq_bind, Option.bind_eq_some_iff, Option.some.injEq,
        Prod.mk.injEq] at hdoc
      obtain ⟨ms, hms, _, hid, _, hkind, _, hbranches, _, hjoin, _, -, rfl, rfl, rfl, rfl, rfl, rfl⟩ :=
        hdoc
      split at h
      · cases h
      · rename_i next hnext
        cases h
        simp only [hshort, decodeDefinitionNode, hms, hid, hkind, hbranches, hjoin,
          Option.bind_eq_bind, Option.bind_some, rejectIf_of_not _ hne, ok_bind,
          decodeDefinitionNext_of_decodeNext hnext, any_definition, rejectIf_of_not _ hdup,
          List.map_append, List.map_singleton]
        rfl

theorem foldlM_definition {rawNodes : List Json} {nodes nodes' : List Node}
    (h : rawNodes.foldlM addNode nodes = .ok nodes') :
    rawNodes.foldlM addDefinitionNode (nodes.map Node.definition) =
      .ok (nodes'.map Node.definition) := by
  induction rawNodes generalizing nodes with
  | nil =>
      cases h
      rfl
  | cons rawNode rawNodes ih =>
      rw [List.foldlM_cons, bind_eq_ok] at h
      obtain ⟨nodes₁, hadd, hrest⟩ := h
      rw [List.foldlM_cons, addDefinitionNode_of_addNode hadd]
      exact ih hrest

theorem danglingRef_definition (nodes : List Node) (node : Node) :
    undeclaredRef (nodes.map Node.definition) node.definition = danglingRef nodes node := by
  simp only [undeclaredRef, danglingRef, any_definition]
  rfl

theorem head_definition (nodes : List Node) :
    ((nodes.map Node.definition).head?.map (·.id)).getD "" = (nodes.head?.map (·.id)).getD "" := by
  cases nodes <;> rfl

theorem refs_definition (nodes : List Node) :
    (nodes.map Node.definition).findSome? (fun n =>
        (undeclaredRef (nodes.map Node.definition) n).map (fun ref => (n.id, ref))) =
      nodes.findSome? (fun n => (danglingRef nodes n).map (fun ref => (n.id, ref))) := by
  rw [List.findSome?_map]
  congr 1
  funext n
  simp only [Function.comp, danglingRef_definition]
  rfl

/-- The store accepts every graph that the interpreter accepts, with the same nodes. -/
theorem decodeDefinitionGraph_of_parseGraph {raw : Json} {graph : Graph}
    (h : parseGraph raw = .ok graph) :
    decodeDefinitionGraph raw = .ok ⟨graph.entry, graph.nodes.map Node.definition⟩ := by
  simp only [parseGraph, bind_eq_ok, getOr_eq_ok, rejectIf_eq_ok, exists_const] at h
  obtain ⟨hshallow, ms, hms, entry, hentry, rawNodes, hraw, hne, nodes, hnodes, hone, hdecl, h⟩ := h
  have hfold := foldlM_definition hnodes
  rw [List.map_nil] at hfold
  split at h
  · cases h
  · rename_i hrefs
    cases h
    simp only [decodeDefinitionGraph, rejectIf_of_not _ hshallow, hms, hentry, hraw, getOr_some, ok_bind,
      rejectIf_of_not _ hne, hfold, List.length_map, rejectIf_of_not _ hone, head_definition,
      any_definition, rejectIf_of_not _ hdecl, refs_definition, hrefs]
    rfl

theorem find_definition (graph : Graph) (id : String) :
    DefinitionGraph.find ⟨graph.entry, graph.nodes.map Node.definition⟩ id =
      (graph.find id).map Node.definition := by
  simp only [DefinitionGraph.find, Graph.find, List.find?_map]
  rfl

end DurableEngine.Engine
