/-
  DurableEngine.Engine.Successors

  The successors a pass proposes for a node against the ones the store expects.

  The engine computes them when it runs the node (`runNode`) and again, in
  another way, when it finds the node succeeded (`recoverSucceeded`); the store
  computes them a third time from the same graph (`validateGraphSuccessors`).
  `Proposes` collects the lists a program may hand to `AdvanceGraph`, whatever
  the store replies to its other calls, and the theorems say for which nodes of
  an accepted graph all of them are expected.
-/

import DurableEngine.Engine.Decoders
import DurableEngine.Engine.Run

namespace DurableEngine.Engine

open Lib State

-- ============================================================================
-- What the store expects
-- ============================================================================

theorem checkSuccessors_ok_iff (graph : DefinitionGraph) (iteration : Int) (seen : List String)
    (next : List GraphNodeInput) (hiter : ∀ item ∈ next, item.iteration = iteration)
    (hnonneg : 0 ≤ iteration) :
    checkSuccessors graph iteration seen next = .ok () ↔
      (next.map (·.nodeID)).Nodup ∧ (∀ item ∈ next, item.nodeID ∉ seen) ∧
        ∀ item ∈ next, ∃ n, graph.find item.nodeID = some n := by
  induction next generalizing seen with
  | nil => simp [checkSuccessors]
  | cons item rest ih =>
      have hitem := hiter item List.mem_cons_self
      have hok : ¬ (item.iteration < 0 ∨ item.iteration ≠ iteration) := by omega
      have hrest := ih (item.nodeID :: seen) (fun i hi => hiter i (List.mem_cons_of_mem _ hi))
      simp only [checkSuccessors, rejectIf_of_not _ hok, ok_bind, bind_eq_ok, rejectIf_eq_ok,
        exists_const, DefinitionGraph.node, getOr_eq_ok, hrest, List.mem_cons, forall_eq_or_imp,
        List.map_cons, List.nodup_cons, List.mem_map, not_or, not_exists, not_and]
      constructor
      · rintro ⟨hnew, n, hn, hnodup, hdisj, hdecl⟩
        exact ⟨⟨fun i hi => (hdisj i hi).1, hnodup⟩, ⟨hnew, fun i hi => (hdisj i hi).2⟩, ⟨n, hn⟩, hdecl⟩
      · rintro ⟨⟨hne, hnodup⟩, ⟨hnew, hdisj⟩, ⟨n, hn⟩, hdecl⟩
        exact ⟨hnew, n, hn, hnodup, fun i hi => ⟨hne i hi, hdisj i hi⟩, hdecl⟩

theorem mismatchAt_eq_none_iff (i : Nat) (ids : List String) (items : List GraphNodeInput)
    (hlength : ids.length = items.length) :
    mismatchAt i ids items = none ↔ items.map (·.nodeID) = ids := by
  induction ids generalizing i items with
  | nil =>
      cases items with
      | nil => simp [mismatchAt]
      | cons item items => cases hlength
  | cons id ids ih =>
      cases items with
      | nil => cases hlength
      | cons item items =>
          have htail : ids.length = items.length := by simpa using hlength
          unfold mismatchAt
          split
          · rename_i heq
            simp [ih (i + 1) items htail, heq]
          · rename_i hne
            simp [hne]

/-- All the declared successors in order. -/
theorem checkExpected_ok_iff (source : DefinitionGraphNode) (expected : List String)
    (next : List GraphNodeInput) (hall : ¬ (source.kind = "activity" ∧ 1 < expected.length)) :
    checkExpected source expected next = .ok () ↔ next.map (·.nodeID) = expected := by
  unfold checkExpected
  rw [if_neg hall]
  split
  · rename_i hlength
    refine ⟨fun h => (nomatch h), fun h => absurd ?_ hlength⟩
    rw [← h, List.length_map]
  · rename_i hlength
    rw [← mismatchAt_eq_none_iff 0 expected next (by omega)]
    split
    · rename_i hat
      simp [hat]
    · rename_i hat
      simp [hat]

/-- The store accepts a list of successors of the source's iteration. -/
theorem validateGraphSuccessors_ok_iff (graph : DefinitionGraph) (source : DefinitionGraphNode)
    (iteration : Int) (next : List GraphNodeInput)
    (hiter : ∀ item ∈ next, item.iteration = iteration) (hnonneg : 0 ≤ iteration) :
    validateGraphSuccessors graph source iteration next = .ok () ↔
      checkExpected source (expectedSuccessors source) next = .ok () ∧
        (next.map (·.nodeID)).Nodup ∧ (∀ item ∈ next, ∃ n, graph.find item.nodeID = some n) ∧
        (isFanout source.kind = true →
          ∀ item ∈ next, item.nodeID = source.join → item.dependencies = source.branches) := by
  have hrest := checkSuccessors_ok_iff graph iteration [] next hiter hnonneg
  simp only [List.not_mem_nil, not_false_eq_true, implies_true, true_and] at hrest
  simp only [validateGraphSuccessors, bind_eq_ok, rejectIf_eq_ok, exists_const, hrest, not_and,
    not_exists, not_not, ne_eq, and_assoc]
  exact ⟨fun h => h.elim (fun _ h => h), fun h => ⟨(), h⟩⟩

-- ============================================================================
-- What a program proposes
-- ============================================================================

/-- The successors of an advancement. -/
def proposal : ∀ {β : Type}, Call β → Option (List GraphNodeInput)
  | _, .store (.advanceGraph input) => some input.next
  | _, _ => none

/-- Some replies lead the program to an advancement to `next`. -/
def Proposes {α : Type} (p : EngineM α) (next : List GraphNodeInput) : Prop :=
  p.run.Calls (fun c => proposal c = some next)

/-- The program never advances a node. -/
def Quiet {α : Type} (p : EngineM α) : Prop := ∀ next, ¬ Proposes p next

section Programs

variable {α β : Type} {next : List GraphNodeInput}

theorem Proposes.of_bind {p : EngineM α} {f : α → EngineM β} (h : Proposes (p >>= f) next) :
    Proposes p next ∨ ∃ a, Proposes (f a) next := by
  rcases Prog.Calls.of_bind (p := p.run) h with hp | ⟨r, hr⟩
  · exact .inl hp
  · cases r with
    | error e => exact hr.elim
    | ok a => exact .inr ⟨a, hr⟩

theorem Quiet.pure (a : α) : Quiet (Pure.pure a : EngineM α) := fun _ h => h

theorem Quiet.throw (e : Err) : Quiet (MonadExcept.throw e : EngineM α) := fun _ h => h

theorem Quiet.bind {p : EngineM α} {f : α → EngineM β} (hp : Quiet p) (hf : ∀ a, Quiet (f a)) :
    Quiet (p >>= f) := by
  intro next h
  rcases h.of_bind with h | ⟨a, h⟩
  · exact hp next h
  · exact hf a next h

theorem Quiet.store {op : Op α} (h : proposal (.store op) = none) : Quiet (Engine.store op) := by
  rintro next (hop | ⟨b, hb⟩)
  · rw [h] at hop
    cases hop
  · exact hb

theorem Quiet.tryStore {op : Op α} (h : proposal (.store op) = none) :
    Quiet (Engine.tryStore op) := by
  rintro next (hop | ⟨b, hb⟩)
  · rw [h] at hop
    cases hop
  · exact hb

theorem Quiet.driver (activity : Activity) (p : Prog SinkCall α) :
    Quiet (ExceptT.lift (driverCalls activity p) : EngineM α) := by
  intro next
  induction p with
  | done a => exact id
  | call op k ih =>
      cases op with
      | save sequence schemaVersion payload =>
          rintro (hop | ⟨b, hb⟩)
          · cases hop
          · exact ih _ hb
      | load =>
          rintro (hop | ⟨b, hb⟩)
          · cases hop
          · exact ih _ hb

theorem proposes_localCheck {x : Except String α} {f : α → EngineM β} :
    Proposes (localCheck x >>= f) next ↔ ∃ a, x = .ok a ∧ Proposes (f a) next := by
  cases x with
  | ok a => exact ⟨fun h => ⟨a, rfl, h⟩, fun ⟨_, ha, h⟩ => by cases ha; exact h⟩
  | error e => exact ⟨fun h => h.elim, fun ⟨_, ha, _⟩ => (nomatch ha)⟩

theorem proposes_advance {input : AdvanceGraphInput} {f : AdvanceGraphResult → EngineM β}
    (hf : ∀ a, Quiet (f a)) :
    Proposes (store (.advanceGraph input) >>= f) next ↔ next = input.next := by
  constructor
  · rintro (hop | ⟨b, hb⟩)
    · cases hop
      rfl
    · cases b with
      | error e => exact hb.elim
      | ok a => exact (hf a next hb).elim
  · rintro rfl
    exact .inl rfl

end Programs

section Engine

variable (e : Engine)

theorem quiet_executeAttempt (node : NodeInstance) (definitionNode : Node) (attempt : Attempt)
    (lease : LeaseRef) : Quiet (e.executeAttempt node definitionNode attempt lease) := by
  refine .bind ?_ (fun claim => ?_)
  · unfold claimFor
    split
    · exact .store rfl
    · exact .pure _
  · split
    · exact .throw _
    · refine .bind (.driver _ _) (fun returned => .bind (.store rfl) (fun _ => ?_))
      exact .bind (.store rfl) (fun w => .bind (.store rfl) (fun _ => .pure _))

theorem quiet_startActivity (workflow : Workflow) (node : NodeInstance) (definitionNode : Node)
    (lease : LeaseRef) : Quiet (e.startActivity workflow node definitionNode lease) := by
  unfold startActivity
  refine .bind (.bind (.tryStore rfl) (fun _ => .pure _)) (fun effect => ?_)
  split
  · exact .throw _
  · refine .bind (.store rfl) (fun attempt => ?_)
    split
    · exact .pure _
    · exact quiet_executeAttempt e _ _ _ _

theorem quiet_runActivity (workflow : Workflow) (node : NodeInstance) (definitionNode : Node)
    (lease : LeaseRef) : Quiet (e.runActivity workflow node definitionNode lease) :=
  .bind (.store rfl) (fun _ => .bind (.store rfl) (fun w => quiet_startActivity e w _ _ _))

/-- What running a node proposes, by its kind. -/
inductive RunBuilds (node : NodeInstance) (d : Node) (graph : Graph) :
    List GraphNodeInput → Prop where
  | fanout (kind : isFanout d.kind = true) : RunBuilds node d graph (fanoutNext node d)
  | join (kind : d.kind = "join") (next : List GraphNodeInput)
      (built : nextInputs node d graph = .ok next) : RunBuilds node d graph next
  | timer (kind : d.kind = "timer") (fired : node.timerFired = true) (next : List GraphNodeInput)
      (built : nextInputs node d graph = .ok next) : RunBuilds node d graph next
  | ending (kind : d.kind = "success" ∨ d.kind = "succeed" ∨ d.kind = "failure" ∨ d.kind = "fail") :
      RunBuilds node d graph []

theorem proposes_advanceFromControl {workflow : Workflow} {node : NodeInstance} {d : Node}
    {graph : Graph} {lease : LeaseRef} {next : List GraphNodeInput} :
    Proposes (e.advanceFromControl workflow node d graph lease) next ↔
      nextInputs node d graph = .ok next := by
  unfold advanceFromControl
  rw [proposes_localCheck]
  constructor
  · rintro ⟨built, hbuilt, h⟩
    rw [proposes_advance (fun _ => .pure _)] at h
    rw [h]
    exact hbuilt
  · intro h
    exact ⟨next, h, (proposes_advance (fun _ => .pure _)).mpr rfl⟩

theorem proposes_runNode_iff (workflow : Workflow) (node : NodeInstance) (d : Node) (graph : Graph)
    (lease : LeaseRef) (next : List GraphNodeInput) :
    Proposes (e.runNode workflow node d graph lease) next ↔ RunBuilds node d graph next := by
  have hadvance : ∀ input : AdvanceGraphInput,
      Proposes (do let _ ← store (.advanceGraph input); pure () : EngineM Unit) next ↔
        next = input.next := fun input => proposes_advance (fun _ => .pure _)
  constructor
  · intro h
    unfold runNode at h
    split at h
    · exact (quiet_runActivity e _ _ _ _ next h).elim
    · split at h
      · rename_i kind
        rw [(hadvance _).mp h]
        exact .fanout kind
      · split at h
        · rename_i kind
          exact .join kind next ((proposes_advanceFromControl e).mp h)
        · split at h
          · rename_i kind
            split at h
            · exact (Quiet.bind (.store rfl) (fun _ => .pure _) next h).elim
            · rename_i fired
              exact .timer kind (by simpa using fired) next ((proposes_advanceFromControl e).mp h)
          · split at h
            · rename_i kind
              rw [(hadvance _).mp h]
              exact .ending (kind.elim .inl (fun hk => .inr (.inl hk)))
            · split at h
              · rename_i kind
                rw [(hadvance _).mp h]
                exact .ending (kind.elim (fun hk => .inr (.inr (.inl hk)))
                  (fun hk => .inr (.inr (.inr hk))))
              · exact (Quiet.throw _ next h).elim
  · intro h
    unfold runNode
    cases h with
    | fanout kind =>
        rw [if_neg (by rintro hk; rw [hk] at kind; cases kind), if_pos kind]
        exact (hadvance _).mpr rfl
    | join kind _ built =>
        rw [if_neg (by rw [kind]; decide), if_neg (by rw [kind]; decide), if_pos kind]
        exact (proposes_advanceFromControl e).mpr built
    | timer kind fired _ built =>
        rw [if_neg (by rw [kind]; decide), if_neg (by rw [kind]; decide),
          if_neg (by rw [kind]; decide), if_pos kind, if_neg (by rw [fired]; decide)]
        exact (proposes_advanceFromControl e).mpr built
    | ending kind =>
        rcases kind with kind | kind | kind | kind
        all_goals
          rw [if_neg (by rw [kind]; decide), if_neg (by rw [kind]; decide),
            if_neg (by rw [kind]; decide), if_neg (by rw [kind]; decide)]
        · rw [if_pos (.inl kind)]
          exact (hadvance _).mpr rfl
        · rw [if_pos (.inr kind)]
          exact (hadvance _).mpr rfl
        · rw [if_neg (by rw [kind]; decide), if_pos (.inl kind)]
          exact (hadvance _).mpr rfl
        · rw [if_neg (by rw [kind]; decide), if_pos (.inr kind)]
          exact (hadvance _).mpr rfl

/-- What recovering a node proposes. -/
def recoverBuilds (node : NodeInstance) (d : Node) (graph : Graph) :
    Except String (List GraphNodeInput) :=
  if d.kind = "activity" then nextInputsForResult node.key d graph node.acceptedResult
  else nextInputs node d graph

theorem proposes_recoverSucceeded_iff (workflow : Workflow) (node : NodeInstance) (d : Node)
    (graph : Graph) (lease : LeaseRef) (next : List GraphNodeInput) :
    Proposes (e.recoverSucceeded workflow node d graph lease) next ↔
      recoverBuilds node d graph = .ok next := by
  unfold recoverSucceeded
  rw [proposes_localCheck]
  constructor
  · rintro ⟨built, hbuilt, h⟩
    rcases h.of_bind with h | ⟨nodes, h⟩
    · exact (Quiet.store rfl next h).elim
    · split at h
      · exact h.elim
      · rw [proposes_advance (fun _ => .pure _)] at h
        rw [h]
        exact hbuilt
  · intro h
    refine ⟨next, h, .inr ⟨.ok [], ?_⟩⟩
    -- no node is listed, so a successor is missing unless there is none
    have hgo : ¬ ((!successorMissing [] next) = true ∧ next ≠ []) := by
      cases next with
      | nil => exact fun hne => hne.2 rfl
      | cons item rest => simp [successorMissing]
    change Proposes (if (!successorMissing [] next) = true ∧ next ≠ [] then pure false else do
      let _ ← store (.advanceGraph (e.advanceInput workflow node.key lease next))
      pure true) next
    rw [if_neg hgo]
    exact (proposes_advance (fun _ => .pure _)).mpr rfl

end Engine

-- ============================================================================
-- Nodes of an accepted graph
-- ============================================================================

theorem NextForm.named {raw : Option Json} {next : List String} (h : NextForm raw next) :
    "" ∉ next := by
  cases h with
  | absent => exact List.not_mem_nil
  | null => exact List.not_mem_nil
  | one id named => exact fun h => named (List.mem_singleton.mp h).symm
  | many xs ids texts named => exact named

theorem NodeForm.named {raw : Json} {n : DefinitionGraphNode} (h : NodeForm raw n) :
    n.id ≠ "" ∧ "" ∉ n.next := by
  cases h with
  | shorthand id named => exact ⟨named, List.not_mem_nil⟩
  | object ms id kind join next branches hid hkind hbranches hjoin hnext named =>
      exact ⟨named, hnext.named⟩

/-- The nodes of a declared graph and what they refer to. -/
theorem GraphForm.node {raw : Json} {stored : DefinitionGraph} (h : GraphForm raw stored)
    {n : DefinitionGraphNode} (hn : n ∈ stored.nodes) :
    (n.id ≠ "" ∧ "" ∉ n.next) ∧ ∀ ref ∈ n.next ++ n.branches ++ [n.join], ref ≠ "" →
      ref ∈ stored.nodes.map (·.id) := by
  cases h with
  | intro ms entry rawNodes nodes hshallow hentry hraw hne hforms declared =>
      refine ⟨?_, declared.closed n hn⟩
      have hnamed : ∀ {raws nodes}, List.Forall₂ NodeForm raws nodes → n ∈ nodes →
          n.id ≠ "" ∧ "" ∉ n.next := by
        intro raws nodes hforms hn
        induction hforms with
        | nil => cases hn
        | cons hform _ ih =>
            rcases List.mem_cons.mp hn with rfl | hn
            · exact hform.named
            · exact ih hn
      exact hnamed hforms hn

/-- A graph that both decoders read from a document. -/
structure Accepted (raw : Json) (graph : Graph) (stored : DefinitionGraph) : Prop where
  parsed : parseGraph raw = .ok graph
  decoded : decodeDefinitionGraph raw = .ok stored

section Accepted

variable {raw : Json} {graph : Graph} {stored : DefinitionGraph} {node : NodeInstance} {d : Node}

theorem Accepted.stored_eq (h : Accepted raw graph stored) :
    stored = ⟨graph.entry, graph.nodes.map Node.definition⟩ := by
  have hstored := decodeDefinitionGraph_of_parseGraph h.parsed
  rw [h.decoded] at hstored
  exact Except.ok.inj hstored

/-- The store declares what the interpreter declares. -/
theorem Accepted.find_stored (h : Accepted raw graph stored) (id : String) :
    (∃ n, stored.find id = some n) ↔ ∃ n, graph.find id = some n := by
  rw [h.stored_eq, find_definition]
  simp only [Option.map_eq_some_iff]
  constructor
  · rintro ⟨_, n, hn, -⟩
    exact ⟨n, hn⟩
  · rintro ⟨n, hn⟩
    exact ⟨_, n, hn, rfl⟩

/-- A declared node has a name, and so have its successors. -/
theorem Accepted.named (h : Accepted raw graph stored) {id : String} (hd : graph.find id = some d) :
    id ≠ "" ∧ "" ∉ d.next := by
  have hform := (decodeDefinitionGraph_ok_iff raw stored).mp h.decoded
  have hmem : d.definition ∈ stored.nodes := by
    rw [h.stored_eq]
    exact List.mem_map_of_mem (List.mem_of_find?_eq_some hd)
  have hid : d.id = id := by simpa using List.find?_some hd
  obtain ⟨hne, hnext⟩ := (hform.node hmem).1
  exact ⟨hid ▸ hne, hnext⟩

/-- What a node refers to by name is declared. -/
theorem Accepted.declared (h : Accepted raw graph stored) {id : String}
    (hd : graph.find id = some d) {ref : String} (href : ref ∈ d.next ++ d.branches ++ [d.join])
    (hne : ref ≠ "") : ∃ n, graph.find ref = some n := by
  have hform := (decodeDefinitionGraph_ok_iff raw stored).mp h.decoded
  have hmem : d.definition ∈ stored.nodes := by
    rw [h.stored_eq]
    exact List.mem_map_of_mem (List.mem_of_find?_eq_some hd)
  have hin := (hform.node hmem).2 ref href hne
  rw [h.stored_eq, List.map_map] at hin
  obtain ⟨n, hn, hid⟩ := List.mem_map.mp hin
  exact Option.isSome_iff_exists.mp (List.find?_isSome.mpr ⟨n, hn, decide_eq_true hid⟩)

/-- The successors in `next`, all of which are declared. -/
theorem Accepted.nextInputs (h : Accepted raw graph stored)
    (hd : graph.find node.key.nodeID = some d) :
    Engine.nextInputs node d graph =
      .ok (d.next.map (fun id => ⟨id, node.key.iteration, [], .json node.input.doc⟩)) := by
  have hall : ∀ id ∈ d.next, ∃ n, graph.find id = some n := by
    intro id hid
    refine h.declared hd (by simp [hid]) ?_
    rintro rfl
    exact (h.named hd).2 hid
  unfold Engine.nextInputs
  generalize d.next = next at hall
  induction next with
  | nil => rfl
  | cons id next ih =>
      obtain ⟨n, hn⟩ := hall id List.mem_cons_self
      rw [List.mapM_cons, ih (fun i hi => hall i (List.mem_cons_of_mem _ hi))]
      simp [hn, rejectIf]

/-- The store accepts `next` as it is declared if it expects nothing else and no name is
    repeated. -/
theorem Accepted.valid_next (h : Accepted raw graph stored)
    (hd : graph.find node.key.nodeID = some d) (hiter : 0 ≤ node.key.iteration)
    (hkind : d.kind ≠ "activity") {next : List GraphNodeInput}
    (hnext : Engine.nextInputs node d graph = .ok next) :
    validateGraphSuccessors stored d.definition node.key.iteration next = .ok () ↔
      d.next.Nodup ∧ (isFanout d.kind = true → d.branches = [] ∧ d.join = "") := by
  rw [h.nextInputs hd] at hnext
  cases hnext
  have hids : (d.next.map (fun id => (⟨id, node.key.iteration, [], .json node.input.doc⟩ :
      GraphNodeInput))).map (·.nodeID) = d.next := by
    rw [List.map_map]
    exact List.map_id d.next
  rw [validateGraphSuccessors_ok_iff _ _ _ _ (by simp) hiter,
    checkExpected_ok_iff _ _ _ (fun hk => hkind hk.1), hids]
  have hexpected : d.next = expectedSuccessors d.definition ↔
      (isFanout d.kind = true → d.branches = [] ∧ d.join = "") := by
    rw [expectedSuccessors, eq_comm]
    change d.next ++ _ = d.next ↔ _
    rw [List.append_right_eq_self]
    by_cases hfan : isFanout d.kind = true
    · by_cases hjoin : d.join = "" <;> simp [Node.definition, hfan, hjoin]
    · simp [Node.definition, hfan]
  constructor
  · rintro ⟨hexp, hnodup, -, -⟩
    exact ⟨hnodup, hexpected.mp hexp⟩
  · rintro ⟨hnodup, hfan⟩
    refine ⟨hexpected.mpr hfan, hnodup, ?_, ?_⟩
    · intro item hitem
      obtain ⟨id, hid, rfl⟩ := List.mem_map.mp hitem
      refine (h.find_stored id).mpr (h.declared hd (by simp [hid]) ?_)
      rintro rfl
      exact (h.named hd).2 hid
    · -- without a join no successor is one
      intro hk item hitem hjoin
      obtain ⟨id, hid, rfl⟩ := List.mem_map.mp hitem
      have hempty : id = "" := hjoin.trans (hfan hk).2
      rw [hempty] at hid
      exact ((h.named hd).2 hid).elim

/-- The store accepts what running a fan-out proposes if it declares no further successor and its
    branches and their join are named and distinct. -/
theorem Accepted.valid_fanout (h : Accepted raw graph stored)
    (hd : graph.find node.key.nodeID = some d) (hiter : 0 ≤ node.key.iteration)
    (hfan : isFanout d.kind = true) :
    validateGraphSuccessors stored d.definition node.key.iteration (fanoutNext node d) = .ok () ↔
      d.next = [] ∧ d.branches.Nodup ∧ "" ∉ d.branches ∧ d.join ∉ d.branches := by
  have hids : (fanoutNext node d).map (·.nodeID) =
      d.branches ++ (if d.join = "" then [] else [d.join]) := by
    rw [fanoutNext, List.map_append, List.map_map]
    congr 1
    · exact List.map_id d.branches
    · split <;> rfl
  have hkind : ¬ (d.definition.kind = "activity" ∧ 1 < (expectedSuccessors d.definition).length) := by
    rintro ⟨hk, -⟩
    change d.kind = _ at hk
    rw [hk] at hfan
    cases hfan
  have hitems : ∀ item ∈ fanoutNext node d, item.iteration = node.key.iteration := by
    intro item hitem
    rcases List.mem_append.mp hitem with hin | hin
    · obtain ⟨branch, -, rfl⟩ := List.mem_map.mp hin
      rfl
    · split at hin
      · cases hin
      · cases List.mem_singleton.mp hin
        rfl
  have hexpected : d.branches ++ (if d.join = "" then [] else [d.join]) =
      expectedSuccessors d.definition ↔ d.next = [] := by
    rw [expectedSuccessors, eq_comm]
    change d.next ++ (if isFanout d.kind = true then _ else _) = _ ↔ _
    rw [if_pos hfan]
    exact List.append_left_eq_self
  have hnodup : (d.branches ++ (if d.join = "" then [] else [d.join])).Nodup ∧ "" ∉ d.branches ↔
      d.branches.Nodup ∧ "" ∉ d.branches ∧ d.join ∉ d.branches := by
    by_cases hjoin : d.join = ""
    · simp [hjoin]
    · rw [if_neg hjoin, List.nodup_append]
      simp only [List.nodup_singleton, true_and, List.mem_singleton, forall_eq]
      constructor
      · rintro ⟨⟨hn, hne⟩, hempty⟩
        exact ⟨hn, hempty, fun hin => hne _ hin rfl⟩
      · rintro ⟨hn, hempty, hout⟩
        exact ⟨⟨hn, fun b hb heq => hout (heq ▸ hb)⟩, hempty⟩
  rw [validateGraphSuccessors_ok_iff _ _ _ _ hitems hiter, checkExpected_ok_iff _ _ _ hkind, hids,
    hexpected]
  constructor
  · rintro ⟨hnext, hdistinct, hdecl, -⟩
    refine ⟨hnext, hnodup.mp ⟨hdistinct, fun hin => ?_⟩⟩
    have hitem : (⟨"", node.key.iteration, [], .json node.input.doc⟩ : GraphNodeInput) ∈
        fanoutNext node d := List.mem_append_left _ (List.mem_map_of_mem hin)
    obtain ⟨n, hn⟩ := (h.find_stored "").mp (hdecl _ hitem)
    exact (h.named hn).1 rfl
  · rintro ⟨hnext, hrest⟩
    obtain ⟨hdistinct, hempty⟩ := hnodup.mpr hrest
    refine ⟨hnext, hdistinct, ?_, ?_⟩
    · intro item hitem
      refine (h.find_stored _).mpr ?_
      rcases List.mem_append.mp hitem with hin | hin
      · obtain ⟨branch, hbranch, rfl⟩ := List.mem_map.mp hin
        exact h.declared hd (by simp [hbranch]) (fun heq => hempty (heq ▸ hbranch))
      · split at hin
        · cases hin
        · rename_i hjoin
          cases List.mem_singleton.mp hin
          exact h.declared hd (by simp) hjoin
    · -- only the join itself has the name of the join
      intro _ item hitem hjoin
      rcases List.mem_append.mp hitem with hin | hin
      · obtain ⟨branch, hbranch, rfl⟩ := List.mem_map.mp hin
        have heq : branch = d.join := hjoin
        rw [heq] at hbranch
        exact (hrest.2.2 hbranch).elim
      · split at hin
        · cases hin
        · cases List.mem_singleton.mp hin
          rfl

/-- What a result selects, with the input it hands on. -/
theorem nextInputsForResult_ok {key : NodeKey} {payload : Option Jsonb} {next : List GraphNodeInput}
    (h : nextInputsForResult key d graph payload = .ok next) :
    ∃ ids, selectNext key.nodeID d payload = .ok ids ∧
      next = ids.map (fun id => ⟨id, key.iteration, [], rawOf payload⟩) ∧
      ∀ id ∈ ids, (∃ n, graph.find id = some n) ∧ (d.next = [] ∨ id ∈ d.next) := by
  simp only [nextInputsForResult, bind_eq_ok] at h
  obtain ⟨ids, hids, h⟩ := h
  refine ⟨ids, hids, ?_⟩
  clear hids
  induction ids generalizing next with
  | nil =>
      cases h
      exact ⟨rfl, fun _ hin => absurd hin List.not_mem_nil⟩
  | cons id ids ih =>
      simp only [List.mapM_cons, bind_eq_ok, rejectIf_eq_ok, exists_const, pure_eq_ok] at h
      obtain ⟨_, ⟨hdecl, hsel, rfl⟩, rest, hrest, rfl⟩ := h
      obtain ⟨rfl, hall⟩ := ih hrest
      rw [Option.isNone_iff_eq_none] at hdecl
      refine ⟨rfl, fun i hi => ?_⟩
      rcases List.mem_cons.mp hi with rfl | hi
      · exact ⟨Option.ne_none_iff_exists'.mp hdecl,
          or_iff_not_imp_left.mpr (fun hne => by_contra (fun hout => hsel ⟨hne, hout⟩))⟩
      · exact hall i hi

/-- The store accepts whatever the result of an activity selects. -/
theorem Accepted.valid_activity (h : Accepted raw graph stored) (hiter : 0 ≤ node.key.iteration)
    (hkind : d.kind = "activity") {payload : Option Jsonb} {next : List GraphNodeInput}
    (hnext : nextInputsForResult node.key d graph payload = .ok next) :
    validateGraphSuccessors stored d.definition node.key.iteration next = .ok () := by
  obtain ⟨ids, hselect, rfl, hall⟩ := nextInputsForResult_ok hnext
  have hfan : isFanout d.definition.kind = false := by
    rw [show d.definition.kind = "activity" from hkind]
    rfl
  have hexpected : expectedSuccessors d.definition = d.next := by
    rw [expectedSuccessors, hfan]
    exact List.append_nil _
  have hids : (ids.map (fun id => (⟨id, node.key.iteration, [], rawOf payload⟩ :
      GraphNodeInput))).map (·.nodeID) = ids := by
    rw [List.map_map]
    exact List.map_id ids
  rw [validateGraphSuccessors_ok_iff _ _ _ _ (by simp) hiter, hexpected, hids]
  have hdecl : ∀ item ∈ ids.map (fun id => (⟨id, node.key.iteration, [], rawOf payload⟩ :
      GraphNodeInput)), ∃ n, stored.find item.nodeID = some n := by
    intro item hitem
    obtain ⟨id, hid, rfl⟩ := List.mem_map.mp hitem
    exact (h.find_stored id).mpr (hall id hid).1
  have hplain : ¬ isFanout d.definition.kind = true := by
    rw [hfan]
    exact Bool.false_ne_true
  unfold selectNext at hselect
  split at hselect
  · -- one of several successors
    rename_i hmany
    obtain ⟨choice, rfl⟩ : ∃ choice, ids = [choice] := by
      split at hselect
      · split at hselect
        · cases hselect
        · exact ⟨_, (Except.ok.inj hselect).symm⟩
      · cases hselect
    refine ⟨?_, List.nodup_singleton _, hdecl, fun hf => (hplain hf).elim⟩
    have hchosen : choice ∈ d.next := by
      rcases (hall choice List.mem_cons_self).2 with hnil | hin
      · rw [hnil] at hmany
        cases hmany
      · exact hin
    rw [checkExpected, if_pos ⟨hkind, hmany⟩]
    exact rejectIf_of_not _ (not_not.mpr ⟨rfl, by simpa using hchosen⟩)
  · -- the declared one, if any
    rename_i hfew
    cases hselect
    refine ⟨(checkExpected_ok_iff _ _ _ (fun hk => hfew hk.2)).mpr hids, ?_, hdecl,
      fun hf => (hplain hf).elim⟩
    exact List.nodup_iff_count_le_one.mpr (fun a => (List.count_le_length).trans (not_lt.mp hfew))

end Accepted

-- ============================================================================
-- Which nodes
-- ============================================================================

/-- Everything that running the node proposes is what the store expects. -/
structure RunsExpected (node : NodeInstance) (d : Node) : Prop where
  fanout : isFanout d.kind = true →
    d.next = [] ∧ d.branches.Nodup ∧ "" ∉ d.branches ∧ d.join ∉ d.branches
  join : d.kind = "join" → d.next.Nodup
  timer : d.kind = "timer" → node.timerFired = true → d.next.Nodup
  ending : d.kind = "success" ∨ d.kind = "succeed" ∨ d.kind = "failure" ∨ d.kind = "fail" →
    d.next = []

/-- Everything that recovering the node proposes is what the store expects. -/
structure RecoversExpected (d : Node) : Prop where
  distinct : d.kind ≠ "activity" → d.next.Nodup
  fanout : isFanout d.kind = true → d.branches = [] ∧ d.join = ""

/-- For which nodes of an accepted graph the store expects every list of successors that the
    engine proposes, when it runs the node and when it recovers it. -/
theorem proposals_expected_iff {raw : Json} {graph : Graph} {stored : DefinitionGraph}
    (h : Accepted raw graph stored) (e : Engine) (workflow : Workflow) (lease : LeaseRef)
    (node : NodeInstance) {d : Node} (hd : graph.find node.key.nodeID = some d)
    (hiter : 0 ≤ node.key.iteration) :
    ((∀ next, Proposes (e.runNode workflow node d graph lease) next →
        validateGraphSuccessors stored d.definition node.key.iteration next = .ok ()) ↔
      RunsExpected node d) ∧
    ((∀ next, Proposes (e.recoverSucceeded workflow node d graph lease) next →
        validateGraphSuccessors stored d.definition node.key.iteration next = .ok ()) ↔
      RecoversExpected d) := by
  simp only [proposes_runNode_iff, proposes_recoverSucceeded_iff]
  have hnext := h.nextInputs hd
  have hplain : d.kind ≠ "activity" → isFanout d.kind = false → ∀ next,
      nextInputs node d graph = .ok next →
      (validateGraphSuccessors stored d.definition node.key.iteration next = .ok () ↔
        d.next.Nodup) := by
    intro hactivity hfan next hbuilt
    rw [h.valid_next hd hiter hactivity hbuilt, hfan]
    exact and_iff_left (fun hf => (nomatch hf))
  refine ⟨⟨fun hvalid => ⟨fun hfan => ?_, fun hk => ?_, fun hk hfired => ?_, fun hk => ?_⟩, ?_⟩,
    ⟨fun hvalid => ⟨fun hk => ?_, fun hfan => ?_⟩, ?_⟩⟩
  · exact (h.valid_fanout hd hiter hfan).mp (hvalid _ (.fanout hfan))
  · exact (hplain (by rw [hk]; decide) (by rw [hk]; rfl) _ hnext).mp (hvalid _ (.join hk _ hnext))
  · exact (hplain (by rw [hk]; decide) (by rw [hk]; rfl) _ hnext).mp
      (hvalid _ (.timer hk hfired _ hnext))
  · have hactivity : d.kind ≠ "activity" := by
      rcases hk with hk | hk | hk | hk <;> rw [hk] <;> decide
    have hfan : isFanout d.kind = false := by
      rcases hk with hk | hk | hk | hk <;> rw [hk] <;> rfl
    have hempty := hvalid _ (.ending hk)
    rw [validateGraphSuccessors_ok_iff _ _ _ _ (by simp) hiter,
      checkExpected_ok_iff _ _ _ (fun ha => hactivity ha.1)] at hempty
    exact (List.append_eq_nil_iff.mp hempty.1.symm).1
  · intro hexpected next hbuilds
    cases hbuilds with
    | fanout kind => exact (h.valid_fanout hd hiter kind).mpr (hexpected.fanout kind)
    | join kind _ built =>
        exact (hplain (by rw [kind]; decide) (by rw [kind]; rfl) _ built).mpr (hexpected.join kind)
    | timer kind fired _ built =>
        exact (hplain (by rw [kind]; decide) (by rw [kind]; rfl) _ built).mpr
          (hexpected.timer kind fired)
    | ending kind =>
        have hactivity : d.kind ≠ "activity" := by
          rcases kind with hk | hk | hk | hk <;> rw [hk] <;> decide
        have hfan : isFanout d.kind = false := by
          rcases kind with hk | hk | hk | hk <;> rw [hk] <;> rfl
        have hnone : nextInputs node d graph = .ok [] := by
          rw [hnext, hexpected.ending kind]
          rfl
        refine (hplain hactivity hfan _ hnone).mpr ?_
        rw [hexpected.ending kind]
        exact List.nodup_nil
  · have hvalid := hvalid _ ((if_neg hk).trans hnext)
    exact ((h.valid_next hd hiter hk hnext).mp hvalid).1
  · have hk : d.kind ≠ "activity" := by
      intro ha
      rw [ha] at hfan
      cases hfan
    have hvalid := hvalid _ ((if_neg hk).trans hnext)
    exact ((h.valid_next hd hiter hk hnext).mp hvalid).2 hfan
  · intro hexpected next hbuilds
    unfold recoverBuilds at hbuilds
    split at hbuilds
    · rename_i hk
      exact h.valid_activity hiter hk hbuilds
    · rename_i hk
      exact (h.valid_next hd hiter hk hbuilds).mpr ⟨hexpected.distinct hk, hexpected.fanout⟩

/-- A graph that splits into one branch and merges again; `members` are further members of
    the fan-out node. -/
def splitGraph (members : List (String × Json)) : Json :=
  .obj [("entry", .str "split"), ("nodes", .arr [
    graphNode "split" "fanout" ([("branches", .arr [.str "left"]), ("join", .str "merge")] ++ members),
    .str "left", graphNode "merge" "join" []])]

/-- The fan-out node of the graph at run time. -/
def splitNode : NodeInstance :=
  ⟨⟨"w", "split", 0⟩, .succeeded, [], ⟨.obj [], rfl, rfl⟩, none, none, 0, none, false, 1⟩

/-- A check of the fan-out node of the graph. -/
theorem split_checked {m : List (String × Json)} {c : Graph → DefinitionGraph → Node → Bool}
    (h : (parseGraph (splitGraph m)).toOption.any (fun graph =>
      (decodeDefinitionGraph (splitGraph m)).toOption.any (fun stored =>
        (graph.find "split").any (fun d => c graph stored d))) = true) :
    ∃ graph stored d, Accepted (splitGraph m) graph stored ∧ graph.find "split" = some d ∧
      c graph stored d = true := by
  obtain ⟨graph, hgraph, h⟩ := (Option.any_eq_true _ _).mp h
  obtain ⟨stored, hstored, h⟩ := (Option.any_eq_true _ _).mp h
  obtain ⟨d, hd, h⟩ := (Option.any_eq_true _ _).mp h
  exact ⟨graph, stored, d, ⟨toOption_eq_some hgraph, toOption_eq_some hstored⟩, hd, h⟩

/-- Running the fan-out node proposes what the store expects. -/
theorem proposals_expected_split :
    ∃ graph stored d, Accepted (splitGraph []) graph stored ∧ graph.find "split" = some d ∧
      ∀ (e : Engine) workflow lease next,
        Proposes (e.runNode workflow splitNode d graph lease) next →
        validateGraphSuccessors stored d.definition 0 next = .ok () := by
  obtain ⟨graph, stored, d, haccepted, hd, hcheck⟩ := split_checked (m := [])
    (c := fun _ _ d => d.kind = "fanout" && d.next = [] && d.branches = ["left"] &&
      d.join = "merge") (by decide +kernel)
  simp only [Bool.and_eq_true, decide_eq_true_eq] at hcheck
  obtain ⟨⟨⟨hkind, hnext⟩, hbranches⟩, hjoin⟩ := hcheck
  refine ⟨graph, stored, d, haccepted, hd, fun e workflow lease => ?_⟩
  refine (proposals_expected_iff haccepted e workflow lease splitNode hd (by decide)).1.mpr
    ⟨fun _ => ⟨hnext, ?_, ?_, ?_⟩, fun _ => ?_, fun _ _ => ?_, fun _ => hnext⟩
  · rw [hbranches]
    decide
  · rw [hbranches]
    decide
  · rw [hbranches, hjoin]
    decide
  · rw [hnext]
    exact List.nodup_nil
  · rw [hnext]
    exact List.nodup_nil

/-- Recovering the fan-out node proposes no successors, which the store rejects; with a `next` of
    its own the store already rejects what running it proposes. -/
theorem proposals_unexpected :
    (∃ graph stored d next, Accepted (splitGraph []) graph stored ∧ graph.find "split" = some d ∧
      (∀ (e : Engine) workflow lease,
        Proposes (e.recoverSucceeded workflow splitNode d graph lease) next) ∧
      validateGraphSuccessors stored d.definition 0 next ≠ .ok ()) ∧
    ∃ graph stored d next, Accepted (splitGraph [("next", .str "left")]) graph stored ∧
      graph.find "split" = some d ∧
      (∀ (e : Engine) workflow lease,
        Proposes (e.runNode workflow splitNode d graph lease) next) ∧
      validateGraphSuccessors stored d.definition 0 next ≠ .ok () := by
  have hne : ∀ {x : Except Err Unit}, x.toOption.isNone = true → x ≠ .ok () := by
    rintro x h rfl
    cases h
  constructor
  · obtain ⟨graph, stored, d, haccepted, hd, hcheck⟩ := split_checked (m := [])
      (c := fun graph stored d => (recoverBuilds splitNode d graph).toOption.any (fun next =>
        (validateGraphSuccessors stored d.definition 0 next).toOption.isNone)) (by decide +kernel)
    obtain ⟨next, hnext, hinvalid⟩ := (Option.any_eq_true _ _).mp hcheck
    exact ⟨graph, stored, d, next, haccepted, hd, fun e workflow lease =>
      (proposes_recoverSucceeded_iff e workflow _ _ _ lease _).mpr (toOption_eq_some hnext),
      hne hinvalid⟩
  · obtain ⟨graph, stored, d, haccepted, hd, hcheck⟩ := split_checked
      (m := [("next", .str "left")])
      (c := fun _ stored d => isFanout d.kind &&
        (validateGraphSuccessors stored d.definition 0 (fanoutNext splitNode d)).toOption.isNone)
      (by decide +kernel)
    obtain ⟨hkind, hinvalid⟩ := Bool.and_eq_true_iff.mp hcheck
    exact ⟨graph, stored, d, _, haccepted, hd, fun e workflow lease =>
      (proposes_runNode_iff e workflow _ _ _ lease _).mpr (.fanout hkind), hne hinvalid⟩

end DurableEngine.Engine
