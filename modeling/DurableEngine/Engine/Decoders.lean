/-
  DurableEngine.Engine.Decoders

  The two decoders of a definition graph against one description of the
  documents they read.

  `GraphForm` says which documents declare which graph, in the words of the
  format and not of a decoder.  The repository's decoder accepts exactly those
  documents (`decodeDefinitionGraph_ok_iff`).  The interpreter also reads
  `delay_ms`, so it accepts those of them whose delays are integers
  (`parseGraph_ok_iff`).
-/

import DurableEngine.Engine.Graph

namespace DurableEngine.Engine

open Lib State

-- ============================================================================
-- The documents
-- ============================================================================

/-- The successors a `next` member declares. -/
inductive NextForm : Option Json → List String → Prop where
  | absent : NextForm none []
  | null : NextForm (some .null) []
  | one (id : String) (named : id ≠ "") : NextForm (some (.str id)) [id]
  | many (xs : List Json) (ids : List String) (texts : storeElements [] xs = some ids)
      (named : "" ∉ ids) : NextForm (some (.arr xs)) ids

/-- The node an element of `nodes` declares, its delay apart. -/
inductive NodeForm : Json → DefinitionGraphNode → Prop where
  | shorthand (id : String) (named : id ≠ "") :
      NodeForm (.str id) ⟨id, "activity", [], [], ""⟩
  | object (ms : List (String × Json)) (id kind join : String) (next : List String) (branches : StringSlice)
      (hid : field storeString "" "id" ms = some id)
      (hkind : field storeString "" "kind" ms = some kind)
      (hbranches : field storeStrings .zero "branches" ms = some branches)
      (hjoin : field storeString "" "join" ms = some join)
      (hnext : NextForm (rawField "next" ms) next) (named : id ≠ "") :
      NodeForm (.obj ms) ⟨id, if kind = "" then "activity" else kind, next, branches.elems, join⟩

/-- The delay an element of `nodes` declares. -/
inductive DelayForm : Json → Int → Prop where
  | shorthand (id : String) : DelayForm (.str id) 0
  | object (ms : List (String × Json)) (delayMS : Int)
      (hdelay : field storeInt 0 "delay_ms" ms = some delayMS) :
      DelayForm (.obj ms) (milliseconds delayMS)

/-- The entry of a graph: the one declared, or the only node. -/
def entryOf (entry : String) (nodes : List DefinitionGraphNode) : String :=
  if entry = "" then (nodes.head?.map (·.id)).getD "" else entry

/-- The nodes of a graph have distinct names, its entry is one of them, and so
    is everything they refer to. -/
structure Declared (entry : String) (nodes : List DefinitionGraphNode) : Prop where
  distinct : (nodes.map (·.id)).Nodup
  single : entry = "" → nodes.length = 1
  entered : entryOf entry nodes ∈ nodes.map (·.id)
  closed : ∀ n ∈ nodes, ∀ ref ∈ n.next ++ n.branches ++ [n.join], ref ≠ "" →
    ref ∈ nodes.map (·.id)

/-- The graph a document declares. -/
inductive GraphForm : Json → DefinitionGraph → Prop where
  | intro (ms : List (String × Json)) (entry : String) (rawNodes : List Json)
      (nodes : List DefinitionGraphNode) (shallow : (JsonTree.obj ms).depth ≤ maxNestingDepth)
      (hentry : field storeString "" "entry" ms = some entry)
      (hraw : field storeRaws [] "nodes" ms = some rawNodes) (some : rawNodes ≠ [])
      (hnodes : List.Forall₂ NodeForm rawNodes nodes) (declared : Declared entry nodes) :
      GraphForm (.obj ms) ⟨entryOf entry nodes, nodes⟩

/-- Every object among the nodes of a document has a delay that is an integer, if any. -/
def DelaysReadable (raw : Json) : Prop :=
  ∀ ms rawNodes, raw = .obj ms → field storeRaws [] "nodes" ms = some rawNodes →
    ∀ fields, .obj fields ∈ rawNodes → (field storeInt 0 "delay_ms" fields).isSome

-- ============================================================================
-- Nodes
-- ============================================================================

theorem decodeDefinitionNext_ok_iff (raw : Option Json) (next : List String) :
    decodeDefinitionNext raw = .ok next ↔ NextForm raw next := by
  constructor
  · intro h
    unfold decodeDefinitionNext at h
    split at h
    · cases h
      exact .absent
    · cases h
      exact .null
    · split at h
      · cases h
      · rename_i hne
        cases h
        exact .one _ hne
    · rename_i v hnull hstr
      split at h
      · cases h
      · rename_i many hstrings
        split at h
        · cases h
        · rename_i hne
          cases h
          cases v with
          | arr xs => exact .many xs next (unmarshalStrings_arr xs ▸ hstrings) hne
          | null => cases hnull rfl
          | str s => cases hstr s rfl
          | bool b => cases hstrings
          | num n => cases hstrings
          | obj ms => cases hstrings
  · intro h
    cases h with
    | absent => rfl
    | null => rfl
    | one id named => simp only [decodeDefinitionNext, if_neg named]
    | many xs _ texts named =>
        simp only [decodeDefinitionNext, unmarshalStrings_arr, texts, if_neg named]

/-- Both decoders read `next` alike. -/
theorem decodeNext_ok_iff (raw : Option Json) (next : List String) :
    decodeNext raw = .ok next ↔ NextForm raw next := by
  constructor
  · intro h
    exact (decodeDefinitionNext_ok_iff raw next).mp (decodeDefinitionNext_of_decodeNext h)
  · intro h
    cases h with
    | absent => rfl
    | null => rfl
    | one id named => simp only [decodeNext, if_neg named]
    | many xs _ texts named => simp only [decodeNext, unmarshalStrings_arr, texts, if_neg named]

theorem decodeDefinitionNode_ok_iff (raw : Json) (n : DefinitionGraphNode)
    (h : unmarshalString raw = none) : decodeDefinitionNode raw = .ok n ↔ NodeForm raw n := by
  cases raw with
  | null => cases h
  | str s => cases h
  | bool b => exact ⟨fun hn => (nomatch hn), fun hn => (nomatch hn)⟩
  | num x => exact ⟨fun hn => (nomatch hn), fun hn => (nomatch hn)⟩
  | arr xs => exact ⟨fun hn => (nomatch hn), fun hn => (nomatch hn)⟩
  | obj ms =>
      constructor
      · intro hn
        simp only [decodeDefinitionNode, structMembers, Option.bind_eq_bind, Option.bind_some] at hn
        split at hn
        · cases hn
        · rename_i ms' id kind branches join hobject
          simp only [Option.bind_eq_some_iff, Option.some.injEq, Prod.mk.injEq] at hobject
          obtain ⟨_, hid, _, hkind, _, hbranches, _, hjoin, rfl, rfl, rfl, rfl, rfl⟩ := hobject
          simp only [bind_eq_ok, rejectIf_eq_ok, exists_const] at hn
          obtain ⟨named, hn⟩ := hn
          split at hn
          · cases hn
          · rename_i next hnext
            cases hn
            exact .object ms _ _ _ next _ hid hkind hbranches hjoin
              ((decodeDefinitionNext_ok_iff _ _).mp hnext) named
      · intro hn
        cases hn with
        | object _ id kind join next branches hid hkind hbranches hjoin hnext named =>
            simp only [decodeDefinitionNode, structMembers, hid, hkind, hbranches, hjoin,
              Option.bind_eq_bind, Option.bind_some, rejectIf_of_not _ named, ok_bind,
              (decodeDefinitionNext_ok_iff _ _).mpr hnext]

theorem any_id_iff (nodes : List DefinitionGraphNode) (id : String) :
    nodes.any (fun n => n.id = id) = true ↔ id ∈ nodes.map (·.id) := by
  simp [List.any_eq_true, List.mem_map]

theorem addDefinitionNode_ok_iff (nodes nodes' : List DefinitionGraphNode) (raw : Json) :
    addDefinitionNode nodes raw = .ok nodes' ↔
      ∃ n, NodeForm raw n ∧ n.id ∉ nodes.map (·.id) ∧ nodes' = nodes ++ [n] := by
  unfold addDefinitionNode
  cases hshort : unmarshalString raw with
  | none =>
      simp only [bind_eq_ok, decodeDefinitionNode_ok_iff raw _ hshort, rejectIf_eq_ok, exists_const,
        pure_eq_ok, any_id_iff, eq_comm (b := nodes')]
  | some s =>
      simp only [bind_eq_ok, rejectIf_eq_ok, exists_const, Except.ok.injEq, exists_eq_left',
        pure_eq_ok, any_id_iff]
      cases raw with
      | null =>
          cases hshort
          refine ⟨fun h => absurd rfl h.1, ?_⟩
          rintro ⟨_, h, _⟩
          cases h
      | str t =>
          cases hshort
          constructor
          · rintro ⟨named, hnew, rfl⟩
            exact ⟨_, .shorthand _ named, hnew, rfl⟩
          · rintro ⟨n, hform, hnew, rfl⟩
            cases hform with
            | shorthand _ named => exact ⟨named, hnew, rfl⟩
      | bool b => cases hshort
      | num x => cases hshort
      | arr xs => cases hshort
      | obj ms => cases hshort

/-- The interpreter adds the node the repository adds, with the delay it also reads. -/
theorem addNode_ok_iff (nodes nodes' : List Node) (raw : Json) :
    addNode nodes raw = .ok nodes' ↔
      ∃ n : Node, (NodeForm raw n.definition ∧ DelayForm raw n.delay) ∧ n.id ∉ nodes.map (·.id) ∧
        nodes' = nodes ++ [n] := by
  have hany : ∀ id, nodes.any (fun n => n.id = id) = true ↔ id ∈ nodes.map (·.id) := by
    simp [List.any_eq_true, List.mem_map]
  constructor
  · intro h
    unfold addNode at h
    split at h
    · rename_i s hshort
      simp only [bind_eq_ok, rejectIf_eq_ok, exists_const, pure_eq_ok, hany] at h
      obtain ⟨named, hnew, rfl⟩ := h
      cases raw with
      | str t =>
          cases hshort
          exact ⟨⟨_, _, _, _, _, 0⟩, ⟨.shorthand _ named, .shorthand _⟩, hnew, rfl⟩
      | null =>
          cases hshort
          cases named rfl
      | bool b => cases hshort
      | num x => cases hshort
      | arr xs => cases hshort
      | obj ms => cases hshort
    · rename_i hshort
      split at h
      · cases h
      · rename_i id kind rawNext branches join delayMS hdoc
        simp only [bind_eq_ok, rejectIf_eq_ok, exists_const, hany] at h
        obtain ⟨named, hnew, h⟩ := h
        simp only [nodeDocument, Option.bind_eq_bind, Option.bind_eq_some_iff, Option.some.injEq,
          Prod.mk.injEq] at hdoc
        obtain ⟨ms, hms, _, hid, _, hkind, _, hbranches, _, hjoin, _, hdelay, rfl, rfl, rfl, rfl,
          rfl, rfl⟩ := hdoc
        split at h
        · cases h
        · rename_i next hnext
          cases h
          cases raw with
          | obj ms' =>
              cases hms
              exact ⟨⟨_, _, next, _, _, _⟩, ⟨.object ms _ _ _ next _ hid hkind hbranches hjoin
                ((decodeNext_ok_iff _ _).mp hnext) named, .object ms _ hdelay⟩, hnew, rfl⟩
          | null => cases hshort
          | str t => cases hshort
          | bool b => cases hms
          | num x => cases hms
          | arr xs => cases hms
  · rintro ⟨⟨id, kind, next, branches, join, delay⟩, ⟨hform, hdelay⟩, hnew, rfl⟩
    have hfresh : ¬ nodes.any (fun n => n.id = id) = true := fun hin => hnew ((hany id).mp hin)
    simp only [Node.definition] at hform hdelay
    cases hform with
    | shorthand _ named =>
        cases hdelay
        simp only [addNode, unmarshalString, storeString, rejectIf_of_not _ named,
          rejectIf_of_not _ hfresh, ok_bind]
        rfl
    | object ms _ kind' _ _ _ hid hkind hbranches hjoin hnext named =>
        cases hdelay with
        | object _ delayMS hms =>
            simp only [addNode, unmarshalString, storeString, nodeDocument, structMembers, hid,
              hkind, hbranches, hjoin, hms, Option.bind_eq_bind, Option.bind_some,
              rejectIf_of_not _ named, rejectIf_of_not _ hfresh, ok_bind,
              (decodeNext_ok_iff _ _).mpr hnext]

-- ============================================================================
-- Graphs
-- ============================================================================

/-- A fold that adds one named element at a time, refusing a name it has, reads
    the elements one by one and returns them when their names are distinct. -/
theorem foldlM_add_ok_iff {α : Type} {add : List α → Json → Except String (List α)}
    {Form : Json → α → Prop} {name : α → String}
    (hadd : ∀ nodes nodes' raw, add nodes raw = .ok nodes' ↔
      ∃ n, Form raw n ∧ name n ∉ nodes.map name ∧ nodes' = nodes ++ [n])
    (raws : List Json) (acc result : List α) (hacc : (acc.map name).Nodup) :
    raws.foldlM add acc = .ok result ↔
      ∃ nodes, List.Forall₂ Form raws nodes ∧ result = acc ++ nodes ∧ (result.map name).Nodup := by
  induction raws generalizing acc with
  | nil =>
      constructor
      · intro h
        cases h
        exact ⟨[], .nil, (List.append_nil _).symm, hacc⟩
      · rintro ⟨nodes, hforms, rfl, -⟩
        cases hforms
        rw [List.append_nil]
        rfl
  | cons raw raws ih =>
      rw [List.foldlM_cons, bind_eq_ok]
      constructor
      · rintro ⟨acc', hraw, hrest⟩
        obtain ⟨n, hform, hnew, rfl⟩ := (hadd _ _ _).mp hraw
        have hacc' : ((acc ++ [n]).map name).Nodup := by
          rw [List.map_append, List.map_singleton]
          exact List.Nodup.append hacc (List.nodup_singleton _)
            (List.disjoint_singleton.mpr hnew)
        obtain ⟨nodes, hforms, hresult, hnodup⟩ := (ih _ hacc').mp hrest
        exact ⟨n :: nodes, .cons hform hforms, by rw [hresult, List.append_assoc]; rfl, hnodup⟩
      · rintro ⟨nodes, hforms, rfl, hnodup⟩
        cases hforms with
        | cons hform hforms =>
            rename_i n nodes
            have hsplit : acc ++ n :: nodes = (acc ++ [n]) ++ nodes := by
              rw [List.append_assoc]
              rfl
            rw [hsplit, List.map_append] at hnodup
            have hacc' := hnodup.of_append_left
            have hnew : name n ∉ acc.map name := by
              rw [List.map_append] at hacc'
              exact fun hin => List.disjoint_of_nodup_append hacc' hin (List.mem_singleton.mpr rfl)
            refine ⟨acc ++ [n], (hadd _ _ _).mpr ⟨n, hform, hnew, rfl⟩, (ih _ hacc').mpr ?_⟩
            exact ⟨nodes, hforms, hsplit, by rw [hsplit, List.map_append]; exact hnodup⟩

theorem undeclaredRef_eq_none_iff (nodes : List DefinitionGraphNode) :
    nodes.findSome? (fun n => (undeclaredRef nodes n).map (fun ref => (n.id, ref))) = none ↔
      ∀ n ∈ nodes, ∀ ref ∈ n.next ++ n.branches ++ [n.join], ref ≠ "" → ref ∈ nodes.map (·.id) := by
  simp only [List.findSome?_eq_none_iff, Option.map_eq_none_iff, undeclaredRef,
    List.find?_eq_none, Bool.and_eq_true, decide_eq_true_eq, Bool.not_eq_true', not_and,
    Bool.not_eq_false, any_id_iff]

/-- The repository accepts exactly the documents that declare a graph. -/
theorem decodeDefinitionGraph_ok_iff (raw : Json) (graph : DefinitionGraph) :
    decodeDefinitionGraph raw = .ok graph ↔ GraphForm raw graph := by
  have hfold := fun raws nodes =>
    foldlM_add_ok_iff addDefinitionNode_ok_iff raws [] nodes List.nodup_nil
  constructor
  · intro h
    simp only [decodeDefinitionGraph, bind_eq_ok, getOr_eq_ok, rejectIf_eq_ok, exists_const] at h
    obtain ⟨hshallow, ms, hms, entry, hentry, rawNodes, hraw, hne, nodes, hnodes, hone, hdecl, h⟩ := h
    obtain ⟨_, hforms, rfl, hnodup⟩ := (hfold _ _).mp hnodes
    split at h
    · cases h
    · rename_i hrefs
      cases h
      cases raw with
      | obj ms' =>
          cases hms
          rw [Bool.not_eq_true', Bool.not_eq_false, any_id_iff] at hdecl
          have hdepth : Json.shallow (.obj ms) = true := by simpa using hshallow
          exact .intro ms entry rawNodes _ (of_decide_eq_true hdepth) hentry hraw hne hforms
            ⟨hnodup, fun he => by_contra (fun hl => hone ⟨he, hl⟩), hdecl,
              (undeclaredRef_eq_none_iff _).mp hrefs⟩
      | null =>
          cases hms
          cases hraw
          cases hne rfl
      | str t => cases hms
      | bool b => cases hms
      | num x => cases hms
      | arr xs => cases hms
  · intro h
    cases h with
    | intro ms entry rawNodes nodes hshallow hentry hraw hne hforms declared =>
        have hdeep : ¬ (!Json.shallow (.obj ms)) = true := by simpa [Json.shallow] using hshallow
        have hnodes := (hfold rawNodes nodes).mpr ⟨nodes, hforms, rfl, declared.distinct⟩
        have hone : ¬ (entry = "" ∧ nodes.length ≠ 1) := fun h => h.2 (declared.single h.1)
        have hdecl : ¬ (!nodes.any (fun n => n.id = entryOf entry nodes)) = true := by
          rw [(any_id_iff _ _).mpr declared.entered]
          exact Bool.false_ne_true
        simp only [decodeDefinitionGraph, rejectIf_of_not _ hdeep, structMembers, hentry, hraw, getOr_some, ok_bind,
          rejectIf_of_not _ hne, hnodes, rejectIf_of_not _ hone,
          (undeclaredRef_eq_none_iff _).mpr declared.closed]
        exact bind_eq_ok.mpr ⟨(), rejectIf_of_not _ hdecl, rfl⟩

/-- The nodes the interpreter keeps of a document. -/
def NodesRead (raws : List Json) (nodes : List Node) : Prop :=
  List.Forall₂ (fun raw (n : Node) => NodeForm raw n.definition ∧ DelayForm raw n.delay) raws nodes

/-- With readable delays the interpreter keeps what the repository keeps. -/
theorem NodesRead.of_forms {raws : List Json} {nodes : List DefinitionGraphNode}
    (hforms : List.Forall₂ NodeForm raws nodes)
    (hdelays : ∀ fields, .obj fields ∈ raws → (field storeInt 0 "delay_ms" fields).isSome) :
    ∃ read, NodesRead raws read ∧ read.map Node.definition = nodes := by
  induction hforms with
  | nil => exact ⟨[], .nil, rfl⟩
  | @cons raw n raws nodes hform hforms ih =>
      obtain ⟨read, hread, hmap⟩ := ih (fun fields hin => hdelays fields (List.mem_cons_of_mem _ hin))
      obtain ⟨delay, hdelay⟩ : ∃ delay, DelayForm raw delay := by
        cases hform with
        | shorthand id named => exact ⟨0, .shorthand id⟩
        | object ms =>
            obtain ⟨delayMS, hms⟩ := Option.isSome_iff_exists.mp (hdelays ms List.mem_cons_self)
            exact ⟨_, .object ms delayMS hms⟩
      exact ⟨⟨n.id, n.kind, n.next, n.branches, n.join, delay⟩ :: read, .cons ⟨hform, hdelay⟩ hread,
        congrArg (n :: ·) hmap⟩

theorem DelayForm.readable {fields : List (String × Json)} {delay : Int}
    (h : DelayForm (.obj fields) delay) : (field storeInt 0 "delay_ms" fields).isSome := by
  generalize hraw : JsonTree.obj fields = raw at h
  cases h with
  | shorthand id => cases hraw
  | object _ delayMS hms =>
      cases hraw
      exact Option.isSome_of_eq_some hms

theorem NodesRead.delays {raws : List Json} {nodes : List Node} (h : NodesRead raws nodes)
    (fields : List (String × Json)) (hin : .obj fields ∈ raws) :
    (field storeInt 0 "delay_ms" fields).isSome := by
  induction h with
  | nil => cases hin
  | cons hform _ ih =>
      rcases List.mem_cons.mp hin with rfl | hin
      · exact hform.2.readable
      · exact ih hin

/-- The interpreter accepts exactly the documents that declare a graph and whose delays it
    can read. -/
theorem parseGraph_ok_iff (raw : Json) :
    (∃ graph, parseGraph raw = .ok graph) ↔ (∃ graph, GraphForm raw graph) ∧ DelaysReadable raw := by
  have hfold := fun raws nodes => foldlM_add_ok_iff addNode_ok_iff raws [] nodes List.nodup_nil
  constructor
  · rintro ⟨graph, h⟩
    refine ⟨⟨_, (decodeDefinitionGraph_ok_iff _ _).mp (decodeDefinitionGraph_of_parseGraph h)⟩, ?_⟩
    rintro ms rawNodes rfl hraw fields hin
    simp only [parseGraph, structMembers, getOr_some, ok_bind, bind_eq_ok, getOr_eq_ok,
      rejectIf_eq_ok, exists_const] at h
    obtain ⟨-, entry, -, rawNodes', hraw', -, nodes, hnodes, -⟩ := h
    cases hraw.symm.trans hraw'
    obtain ⟨nodes, hread, -⟩ := (hfold _ _).mp hnodes
    exact NodesRead.delays hread fields hin
  · rintro ⟨⟨graph, hform⟩, hdelays⟩
    cases hform with
    | intro ms entry rawNodes nodes hshallow hentry hraw hne hforms declared =>
        have hdeep : ¬ (!Json.shallow (.obj ms)) = true := by simpa [Json.shallow] using hshallow
        obtain ⟨read, hread, rfl⟩ := NodesRead.of_forms hforms (hdelays ms rawNodes rfl hraw)
        have hdistinct : (read.map (·.id)).Nodup := by
          have h := declared.distinct
          rwa [List.map_map] at h
        have hnodes := (hfold rawNodes read).mpr ⟨read, hread, rfl, hdistinct⟩
        have hone : ¬ (entry = "" ∧ read.length ≠ 1) := fun h =>
          h.2 (by rw [← declared.single h.1, List.length_map])
        have hdecl : ¬ (!read.any (fun n => n.id = entryOf entry (read.map Node.definition))) =
            true := by
          rw [← any_definition, (any_id_iff _ _).mpr declared.entered]
          exact Bool.false_ne_true
        have hrefs := (undeclaredRef_eq_none_iff _).mpr declared.closed
        rw [refs_definition] at hrefs
        simp only [entryOf, head_definition] at hdecl
        refine ⟨⟨if entry = "" then (read.head?.map (·.id)).getD "" else entry, read⟩, ?_⟩
        simp only [parseGraph, rejectIf_of_not _ hdeep, structMembers, hentry, hraw, getOr_some, ok_bind,
          rejectIf_of_not _ hne, hnodes, rejectIf_of_not _ hone, hrefs]
        exact bind_eq_ok.mpr ⟨(), rejectIf_of_not _ hdecl, rfl⟩

-- ============================================================================
-- Agreement
-- ============================================================================

/-- `decodeDefinitionGraph` on the bytes it receives. -/
def decodeDefinitionBytes : RawMessage → Except String DefinitionGraph
  | .json v => decodeDefinitionGraph v
  | _ => .error "decode graph"

/-- `ParseGraph` on the bytes it receives. -/
def parseBytes : RawMessage → Except String Graph
  | .json v => parseGraph v
  | _ => .error "decode workflow graph"

/-- Both decoders accept the bytes or neither does, and what they accept has
    the same entry and the same nodes. -/
structure DecodersAgree (raw : RawMessage) : Prop where
  accepted : (∃ graph, decodeDefinitionBytes raw = .ok graph) ↔ ∃ graph, parseBytes raw = .ok graph
  same : ∀ stored parsed, decodeDefinitionBytes raw = .ok stored → parseBytes raw = .ok parsed →
    stored.entry = parsed.entry ∧ ∀ id, stored.find id = (parsed.find id).map Node.definition

/-- The decoders agree on exactly those bytes that declare no graph or have integer delays. -/
theorem decoders_agree_iff (raw : RawMessage) :
    DecodersAgree raw ↔ ∀ v graph, raw = .json v → GraphForm v graph → DelaysReadable v := by
  constructor
  · rintro hagree v graph rfl hform
    have hstored := (decodeDefinitionGraph_ok_iff v graph).mpr hform
    exact ((parseGraph_ok_iff v).mp (hagree.accepted.mp ⟨graph, hstored⟩)).2
  · intro hdelays
    cases raw with
    | empty => exact ⟨⟨fun ⟨_, h⟩ => (nomatch h), fun ⟨_, h⟩ => (nomatch h)⟩, fun _ _ h => (nomatch h)⟩
    | malformed =>
        exact ⟨⟨fun ⟨_, h⟩ => (nomatch h), fun ⟨_, h⟩ => (nomatch h)⟩, fun _ _ h => (nomatch h)⟩
    | json v =>
        refine ⟨⟨?_, ?_⟩, ?_⟩
        · rintro ⟨graph, h⟩
          have hform := (decodeDefinitionGraph_ok_iff v graph).mp h
          exact (parseGraph_ok_iff v).mpr ⟨⟨graph, hform⟩, hdelays v graph rfl hform⟩
        · rintro ⟨graph, h⟩
          exact ⟨_, decodeDefinitionGraph_of_parseGraph h⟩
        · intro stored parsed hstored hparsed
          cases hstored.symm.trans (decodeDefinitionGraph_of_parseGraph hparsed)
          exact ⟨rfl, find_definition parsed⟩

/-- A graph of one activity whose delay is a text. -/
def spelledDelay : Json :=
  .obj [("nodes", .arr [.obj [("id", .str "root"), ("delay_ms", .str "soon")]])]

/-- The repository stores the graph, and the interpreter cannot read it. -/
theorem decoders_disagree : ¬ DecodersAgree (.json spelledDelay) := by
  intro h
  have hstored : (decodeDefinitionBytes (.json spelledDelay)).toOption.isSome = true := by decide
  have hparsed : (parseBytes (.json spelledDelay)).toOption.isSome = false := by decide
  obtain ⟨graph, hgraph⟩ := Option.isSome_iff_exists.mp hstored
  obtain ⟨parsed, hok⟩ := h.accepted.mp ⟨graph, toOption_eq_some hgraph⟩
  rw [hok] at hparsed
  cases hparsed

end DurableEngine.Engine
