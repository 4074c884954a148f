/-
  DurableEngine.Services.Demand

  What the local runtime tells about claimable work: `DurableDemand`
  (`internal/state/demand.go`) counts it, `RuntimeActivity`
  (`internal/state/runtime.go`) looks up the task of a dispatch payload, and
  `ClaimAttempt` hands it out.

  The three read the same rows.  In a reachable state the node's pointer, the
  current flag and the attempt's state agree, so a count of attempts is a
  count of the nodes whose next claim succeeds.
-/

import DurableEngine.Engine.Branches
import DurableEngine.State.Generations
import Mathlib

namespace DurableEngine.Services

open Lib State Engine

-- ============================================================================
-- DurableDemand
-- ============================================================================

/-- `DemandSample`, without the age of the oldest attempt. -/
structure DemandSample where
  namespace_ : String
  sampledAt : Int
  activeClaims : Nat
  claimableAttempts : Nat
  demand : Nat
deriving DecidableEq, Repr

/-- The `WHERE` clause of the sample. -/
def inDemand (ns : String) (db : DB) (a : Attempt) : Bool :=
  a.isCurrent && (a.state = .dispatchable || a.state = .claimed) &&
    (db.workflows.get a.key.node.workflowID).any (fun w =>
      w.namespace_ = ns && w.state = .waitingActivity) &&
    (db.nodes.get a.key.node).any (fun n => n.currentAttempt = some a.key.number)

/-- The attempts that wait for a worker, as `DurableDemand` selects them. -/
def claimableRows (ns : String) (db : DB) : List Attempt :=
  (db.attempts.select (inDemand ns db)).filter (·.state = .dispatchable)

/-- `DurableDemand`. -/
def durableDemand (ns : String) (db : DB) : Except Err DemandSample := do
  rejectIf (ns = "") (.text "demand namespace required")
  let attempts := db.attempts.select (inDemand ns db)
  let active := (attempts.filter (fun a =>
    a.state = .claimed && a.heartbeatDeadline.any (fun deadline => db.now < deadline))).length
  let claimable := (claimableRows ns db).length
  return ⟨ns, db.now, active, claimable, active + claimable⟩

-- ============================================================================
-- RuntimeActivity
-- ============================================================================

structure RuntimeActivity where
  workflowID : String
  nodeID : String
  iteration : Int
  attemptNumber : Int
  activityName : String
  activityVersion : String
  input : Option Json

def RuntimeActivity.key (task : RuntimeActivity) : AttemptKey :=
  ⟨⟨task.workflowID, task.nodeID, task.iteration⟩, task.attemptNumber⟩

/-- `json.Unmarshal` of a dispatch payload. -/
def unmarshalTask : RawMessage → Option RuntimeActivity
  | .json v => do
      let ms ← structMembers v
      let workflowID ← field storeString "" "workflow_id" ms
      let nodeID ← field storeString "" "node_id" ms
      let iteration ← field storeInt 0 "iteration" ms
      let attemptNumber ← field storeInt 0 "attempt_number" ms
      let activityName ← field storeString "" "activity_name" ms
      let activityVersion ← field storeString "" "activity_version" ms
      some ⟨workflowID, nodeID, iteration, attemptNumber, activityName, activityVersion,
        rawField "input" ms⟩
  | _ => none

/-- The version of an activity that the definition names. -/
def declaredVersion (definition : DefinitionView) (nodeID : String) : String :=
  ((unmarshalStringMap definition.row.activityVersions.doc).bind (·.lookup nodeID)).getD ""

/-- `RuntimeActivity`: no task where the payload is out of date. -/
def runtimeActivity (env : Env) (ns : String) (payload : RawMessage) (db : DB) :
    Except Err (Option RuntimeActivity) := do
  let task ← getOr (unmarshalTask payload) (.text "decode dispatch payload")
  let wf ← getWorkflow task.workflowID db
  if wf.namespace_ ≠ ns ∨ wf.state ≠ .waitingActivity then return none
  else
    let node ← getNode task.key.node db
    if node.currentAttempt ≠ some task.attemptNumber then return none
    else
      let attempt ← getAttempt task.key db
      if attempt.isCurrent = false ∨ attempt.state ≠ .dispatchable then return none
      else
        let definition ← getDefinition wf.definitionID wf.definitionVersion db
        rejectIf (!runtimeSupports env definition task.nodeID)
          (.text "activity is not enabled in the local runtime registry")
        return some { task with
          activityName := task.nodeID
          activityVersion := declaredVersion definition task.nodeID
          input := some node.input.doc }

-- ============================================================================
-- Claims
-- ============================================================================

/-- A worker's request for the node under a request ID of its own. -/
structure NewRequest (input : ClaimInput) (k : NodeKey) (db : DB) : Prop where
  node : input.key = k
  worker : input.workerID ≠ ""
  request : input.requestID ≠ ""
  fresh : db.workerRequest input.requestID = none

/-- The call succeeds and hands out the attempt. -/
def Gets (amb : Ambient) (input : ClaimInput) (k : AttemptKey) (db : DB) : Prop :=
  ∃ r db', claimAttempt amb input db = .ok (r, db') ∧ r.attemptNumber = k.number

/-- A new request that names the node of the attempt gets it. -/
def Claimable (k : AttemptKey) (db : DB) : Prop :=
  ∃ amb input, NewRequest input k.node db ∧ input.expectedAttempt = 0 ∧ Gets amb input k db

/-- The attempt is dispatched and its workflow waits for activities. -/
def Awaits (k : AttemptKey) (db : DB) : Prop :=
  (∃ a : Attempt, a.key = k ∧ a.Dispatched db) ∧
    ∃ w, db.workflows.get k.node.workflowID = some w ∧ w.state = .waitingActivity

variable {env : Env} {db : DB} {k : AttemptKey}

/-- A new request gets the attempt exactly when the attempt awaits it. -/
theorem gets_iff (h : Reachable env db) {amb : Ambient} {input : ClaimInput}
    (hnew : NewRequest input k.node db)
    (hexpected : input.expectedAttempt = 0 ∨ input.expectedAttempt = k.number) :
    Gets amb input k db ↔ Awaits k db := by
  have hid : input.workflowID = k.node.workflowID := by
    rw [← hnew.node]
    rfl
  have hname : input.nodeID = k.node.nodeID := by
    rw [← hnew.node]
    rfl
  constructor
  · rintro ⟨r, db', hclaim, hnumber⟩
    simp only [claimAttempt, bind_eq_ok, getOr_eq_ok, rejectIf_eq_ok, exists_const, not_not,
      hnew.fresh] at hclaim
    obtain ⟨-, w, hw, hwaits, hbind⟩ := hclaim
    simp only [bindClaim, bind_eq_ok, getOr_eq_ok, rejectIf_eq_ok, exists_const, pure_eq_ok,
      Prod.mk.injEq, not_or, not_not, Bool.not_eq_false] at hbind
    obtain ⟨n, hn, -, a, ha, ⟨hcurrent, hstate⟩, rfl, -⟩ := hbind
    -- an attempt is never numbered 0
    obtain ⟨N, hgen⟩ := h.generation input.key
    have hptr : n.currentAttempt = some (n.currentAttempt.getD 0) := by
      rw [← pointer_of_get hn]
      rw [← pointer_of_get hn] at ha
      exact hgen.current _ a ha hcurrent
    dsimp only at hnumber
    rw [hnumber, hnew.node] at ha
    rw [hnumber] at hptr
    rw [hnew.node] at hn
    have hkey : a.key = k := Table.key_of_get ha
    exact ⟨⟨a, hkey, by rw [hkey]; exact ha, ⟨n, by rw [hkey]; exact hn, by rw [hkey]; exact hptr⟩,
      hcurrent, hstate⟩, w, hid ▸ hw, hwaits⟩
  · rintro ⟨⟨a, rfl, ha⟩, w, hw, hwaits⟩
    obtain ⟨n, hn, hcurrent⟩ := ha.pointed
    have hprovided := h.provided
    simp only [Gets, claimAttempt, bindClaim, bind_eq_ok, getOr_eq_ok, rejectIf_eq_ok, exists_const,
      hnew.fresh, pure_eq_ok]
    refine ⟨_, _, ⟨?_, w, by rw [hid]; exact hw, by simp [hwaits], n, by rw [hnew.node]; exact hn, ?_, a,
      by rw [hnew.node, hcurrent]; exact ha.stored, by simp [ha.current, ha.dispatchable], rfl⟩, ?_⟩
    · rw [hid, hname]
      simp [(hprovided.workflow _ w hw).1, (hprovided.node _ n hn).1, hnew.worker, hnew.request]
    · rw [hcurrent, Option.getD_some]
      rintro ⟨hgiven, hne⟩
      exact hexpected.elim hgiven (fun heq => hne heq.symm)
    · rw [hcurrent]
      rfl

/-- There is a request ID that no attempt is bound to. -/
theorem exists_newRequest (k : NodeKey) (db : DB) :
    ∃ input, NewRequest input k db ∧ input.expectedAttempt = 0 := by
  have hinj : Function.Injective (fun n : Nat => String.ofList (List.replicate n 'r')) := by
    intro m n heq
    have hlength := congrArg (fun s => s.toList.length) heq
    simpa using hlength
  have : Infinite String := Infinite.of_injective _ hinj
  obtain ⟨request, hnew⟩ :=
    ("" :: db.attempts.rows.filterMap (·.workerRequestID)).toFinset.exists_notMem
  simp only [List.mem_toFinset, List.mem_cons, List.mem_filterMap, not_or, not_exists, not_and] at hnew
  refine ⟨⟨0, k.workflowID, k.nodeID, k.iteration, "worker", request, 0⟩, ⟨rfl, ?_, hnew.1, ?_⟩, rfl⟩
  · exact show "worker" ≠ "" by decide
  · refine List.find?_eq_none.mpr (fun a ha => ?_)
    simpa using hnew.2 a ha

theorem claimable_iff (h : Reachable env db) : Claimable k db ↔ Awaits k db := by
  constructor
  · rintro ⟨amb, input, hnew, hexpected, hgets⟩
    exact (gets_iff h hnew (.inl hexpected)).mp hgets
  · intro hawaits
    obtain ⟨input, hnew, hexpected⟩ := exists_newRequest k.node db
    exact ⟨.drawn 0, input, hnew, hexpected, (gets_iff h hnew (.inl hexpected)).mpr hawaits⟩

-- ============================================================================
-- Demand
-- ============================================================================

/-- The workflow of the node is in the namespace. -/
def InNamespace (ns : String) (db : DB) (k : NodeKey) : Prop :=
  ∃ w, db.workflows.get k.workflowID = some w ∧ w.namespace_ = ns

theorem mem_claimableRows {ns : String} {a : Attempt} : a ∈ claimableRows ns db ↔
    a.Dispatched db ∧ ∃ w, db.workflows.get a.key.node.workflowID = some w ∧ w.namespace_ = ns ∧
      w.state = .waitingActivity := by
  simp only [claimableRows, inDemand, List.mem_filter, Table.mem_select, Table.mem_rows_iff,
    Bool.and_eq_true, Bool.or_eq_true, Option.any_eq_true, decide_eq_true_eq]
  constructor
  · rintro ⟨⟨hget, ⟨⟨hcurrent, -⟩, w, hw, hns, hwaits⟩, n, hn, hptr⟩, hstate⟩
    exact ⟨⟨hget, ⟨n, hn, hptr⟩, hcurrent, hstate⟩, w, hw, hns, hwaits⟩
  · rintro ⟨ha, w, hw, hns, hwaits⟩
    obtain ⟨n, hn, hptr⟩ := ha.pointed
    exact ⟨⟨ha.stored, ⟨⟨ha.current, .inl ha.dispatchable⟩, w, hw, hns, hwaits⟩, n, hn, hptr⟩,
      ha.dispatchable⟩

/-- The rows of the sample are the claimable attempts of the namespace. -/
theorem key_mem_claimableRows {ns : String} : k ∈ (claimableRows ns db).map Attempt.key ↔
    InNamespace ns db k.node ∧ Awaits k db := by
  simp only [List.mem_map, mem_claimableRows]
  constructor
  · rintro ⟨a, ⟨ha, w, hw, hns, hwaits⟩, rfl⟩
    exact ⟨⟨w, hw, hns⟩, ⟨a, rfl, ha⟩, w, hw, hwaits⟩
  · rintro ⟨⟨w, hw, hns⟩, ⟨a, rfl, ha⟩, w', hw', hwaits⟩
    cases hw.symm.trans hw'
    exact ⟨a, ⟨ha, w, hw, hns, hwaits⟩, rfl⟩

theorem nodup_claimableRows (ns : String) (db : DB) : ((claimableRows ns db).map Attempt.key).Nodup :=
  db.attempts.nodup.sublist ((List.filter_sublist.trans List.filter_sublist).map _)

theorem ncard_eq_length {α : Type} [DecidableEq α] {S : Set α} {l : List α} (hl : l.Nodup)
    (h : ∀ x, x ∈ l ↔ x ∈ S) : S.ncard = l.length := by
  have hset : S = (l.toFinset : Set α) := by
    ext x
    rw [Finset.mem_coe, List.mem_toFinset, h]
  rw [hset, Set.ncard_coe_finset, List.toFinset_card_of_nodup hl]

/-- A node awaits a claim for at most one attempt. -/
theorem Awaits.eq_of_node {k k' : AttemptKey} (h : Awaits k db) (h' : Awaits k' db)
    (hnode : k.node = k'.node) : k = k' := by
  obtain ⟨⟨a, rfl, ha⟩, -⟩ := h
  obtain ⟨⟨b, rfl, hb⟩, -⟩ := h'
  obtain ⟨n, hn, hcurrent⟩ := ha.pointed
  obtain ⟨m, hm, hcurrent'⟩ := hb.pointed
  rw [hnode, hm, Option.some.injEq] at hn
  subst hn
  rw [hcurrent', Option.some.injEq] at hcurrent
  exact AttemptKey.mk.injEq .. |>.mpr ⟨hnode, hcurrent.symm⟩

/-- A task is the current attempt of its node, and it awaits a claim. -/
theorem awaits_of_runtimeActivity {ns : String} {payload : RawMessage} {task : RuntimeActivity}
    (h : runtimeActivity env ns payload db = .ok (some task)) :
    Awaits task.key db ∧ InNamespace ns db task.key.node := by
  simp only [runtimeActivity, bind_eq_ok, getOr_eq_ok, getWorkflow, getNode, getAttempt] at h
  obtain ⟨t, -, w, hw, h⟩ := h
  split at h
  · cases h
  · rename_i hlive
    simp only [bind_eq_ok, getOr_eq_ok] at h
    obtain ⟨n, hn, h⟩ := h
    split at h
    · cases h
    · rename_i hptr
      simp only [bind_eq_ok, getOr_eq_ok] at h
      obtain ⟨a, ha, h⟩ := h
      split at h
      · cases h
      · rename_i hstate
        simp only [bind_eq_ok, rejectIf_eq_ok, exists_const, pure_eq_ok, Option.some.injEq] at h
        obtain ⟨definition, -, -, rfl⟩ := h
        simp only [not_or, not_not, Bool.not_eq_false] at hlive hptr hstate
        have hkey : a.key = t.key := Table.key_of_get ha
        refine ⟨⟨⟨a, hkey, by rw [hkey]; exact ha, ⟨n, by rw [hkey]; exact hn, by rw [hkey]; exact hptr⟩,
          hstate.1, hstate.2⟩, w, hw, hlive.2⟩, w, hw, hlive.1⟩

/-- The demand of a namespace is its claimable work. -/
structure DemandExact (env : Env) (db : DB) (ns : String) (sample : DemandSample) : Prop where
  attempts : sample.claimableAttempts =
    {k : AttemptKey | InNamespace ns db k.node ∧ Claimable k db}.ncard
  nodes : sample.claimableAttempts =
    {k : NodeKey | InNamespace ns db k ∧ ∃ m, Claimable ⟨k, m⟩ db}.ncard
  uniform : ∀ k amb input, NewRequest input k.node db →
    input.expectedAttempt = 0 ∨ input.expectedAttempt = k.number →
    (Gets amb input k db ↔ Claimable k db)
  tasks : ∀ payload task, runtimeActivity env ns payload db = .ok (some task) →
    ∀ amb input, NewRequest input task.key.node db → input.expectedAttempt = task.attemptNumber →
      Gets amb input task.key db

/-- In every reachable state and for every namespace, the sample counts the attempts that a new
    request can claim, each once, and a task can be claimed by its number. -/
theorem demand_exact (h : Reachable env db) {ns : String} (hns : ns ≠ "") :
    ∃ sample, durableDemand ns db = .ok sample ∧ DemandExact env db ns sample := by
  refine ⟨_, by rw [durableDemand, rejectIf_of_not _ hns]; rfl, ?_, ?_, fun k amb input hnew hexpected => ?_,
    fun payload task htask amb input hnew hexpected => ?_⟩
  · rw [ncard_eq_length (nodup_claimableRows ns db) (fun k => ?_), List.length_map]
    rw [Set.mem_ofPred_eq, claimable_iff h, key_mem_claimableRows]
  · have hnodes : (((claimableRows ns db).map Attempt.key).map AttemptKey.node).Nodup := by
      refine List.Nodup.map_on (fun k hk k' hk' hnode => ?_) (nodup_claimableRows ns db)
      exact (key_mem_claimableRows.mp hk).2.eq_of_node (key_mem_claimableRows.mp hk').2 hnode
    rw [ncard_eq_length hnodes (fun k => ?_), List.length_map, List.length_map]
    rw [List.mem_map, Set.mem_ofPred_eq]
    constructor
    · rintro ⟨key, hkey, rfl⟩
      obtain ⟨hin, hawaits⟩ := key_mem_claimableRows.mp hkey
      exact ⟨hin, key.number, (claimable_iff h).mpr hawaits⟩
    · rintro ⟨hin, m, hclaimable⟩
      exact ⟨⟨k, m⟩, key_mem_claimableRows.mpr ⟨hin, (claimable_iff h).mp hclaimable⟩, rfl⟩
  · rw [gets_iff h hnew hexpected, claimable_iff h]
  · exact (gets_iff h hnew (.inr hexpected)).mpr (awaits_of_runtimeActivity htask).1

/-- One dispatched activity. -/
theorem demand_exact_dispatched : ∃ db sample, Reachable .plain db ∧
    durableDemand "ns" db = .ok sample ∧ sample.claimableAttempts = 1 ∧
    DemandExact .plain db "ns" sample := by
  have hrun : (runScript? .plain 0 (soloScript.take 5) (DB.init 0)).any (fun db =>
      (durableDemand "ns" db).toOption.any (·.claimableAttempts = 1)) = true := by
    decide +kernel
  obtain ⟨db, hdb, hcheck⟩ := (Option.any_eq_true _ _).mp hrun
  obtain ⟨sample, hsample, hone⟩ := (Option.any_eq_true _ _).mp hcheck
  have hreach := reachable_of_runScript? hdb
  obtain ⟨counted, hok, hexact⟩ := demand_exact hreach (show "ns" ≠ "" by decide)
  have hsame : sample = counted := Except.ok.inj ((toOption_eq_some hsample).symm.trans hok)
  exact ⟨db, counted, hreach, hok, hsame ▸ of_decide_eq_true hone, hexact⟩

end DurableEngine.Services
