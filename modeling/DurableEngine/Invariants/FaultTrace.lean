/-
  DurableEngine.Invariants.FaultTrace

  Fault traces, after `ParseFaultTrace` of `internal/invariants/m5.go`.

  One pass over the records of many runs keeps a summary, a sequence number
  and a seed for each run.  Each record reads and changes only what is kept
  for its own run, so a trace is accepted exactly when the records of each run
  are in order, and the summary of a run is that of its own records.
-/

import DurableEngine.Invariants.FaultRecords
import DurableEngine.Lib.Keyed
import DurableEngine.State.Graph

namespace DurableEngine.Invariants

open Lib State

-- ============================================================================
-- Summaries
-- ============================================================================

/-- `FaultEvidence`. -/
structure FaultEvidence where
  runID : String
  seed : Int
  boundary : String
  workflowID : String
  nodeID : String
  attemptNumber : Int
  effectKey : String
  boundaryReached : Bool
  boundaryMissed : Bool
  requestedAction : String
  observedAction : String
  processExitKnown : Bool
  processReturnCode : Option Int
  cleanupCompleted : Bool
  cleanupTimedOut : Bool
  fields : String → Option Json

/-- The summary of a run at its first record. -/
def FaultEvidence.first (record : FaultTraceRecord) : FaultEvidence where
  runID := record.runID
  seed := record.seed
  boundary := record.boundary
  workflowID := ""
  nodeID := ""
  attemptNumber := 0
  effectKey := ""
  boundaryReached := false
  boundaryMissed := false
  requestedAction := ""
  observedAction := ""
  processExitKnown := false
  processReturnCode := none
  cleanupCompleted := false
  cleanupTimedOut := false
  fields := fun _ => none

/-- `decodeCommand`. -/
def decodeCommand (raw : Option Json) : String :=
  match raw with
  | none | some .null => ""
  | some (.str command) => command
  | some v =>
      match unmarshalStrings v with
      | some (_ :: _) => "process_started"
      | _ => ""

/-- A member of a decoded map. -/
def mapValue (fields : List (String × Json)) (name : String) : Option Json :=
  ((fields.filter (fun m => m.1 = name)).map Prod.snd).getLast?

/-- The fields of a record are added to those of the run. -/
def mergeFields (old : String → Option Json) (fields : List (String × Json)) : String → Option Json :=
  fun name => (mapValue fields name).or (old name)

/-- `applyDurableIdentity`. -/
def applyDurableIdentity (fault : FaultEvidence) (fields : List (String × Json)) : FaultEvidence :=
  let text (name old : String) : String :=
    match mapValue fields name with
    | some (.str s) => s
    | _ => old
  let number (old : Int) : Int :=
    match mapValue fields "durable_attempt_number" with
    | some (.num n) => n.toInt?.getD old
    | _ => old
  { fault with
    workflowID := text "durable_workflow_id" fault.workflowID
    nodeID := text "durable_node_id" fault.nodeID
    effectKey := text "durable_effect_key" fault.effectKey
    attemptNumber := number fault.attemptNumber }

/-- What the event of a record says about its run. -/
def applyEvent (fault : FaultEvidence) (record : FaultTraceRecord) : FaultEvidence :=
  if record.event = "boundary_reached" then
    { fault with
      boundaryReached := true
      boundary := if fault.boundary = "" then record.boundary else fault.boundary }
  else if record.event = "command" then
    if decodeCommand record.command ≠ "" then { fault with requestedAction := decodeCommand record.command }
    else fault
  else if record.event = "fault_observed" then
    if fault.boundaryMissed then fault else { fault with observedAction := record.action }
  else if record.event = "released" then { fault with observedAction := "released" }
  else if record.event = "boundary_timeout" ∨ record.event = "process_exited_before_boundary" then
    { fault with
      boundaryMissed := true
      observedAction := if fault.observedAction = "" then "boundary_not_reached" else fault.observedAction }
  else if record.event = "process_exited" then
    { fault with processExitKnown := true, processReturnCode := record.returnCode }
  else if record.event = "cleanup_timeout" ∨ record.event = "cleanup_unbounded" then
    { fault with cleanupTimedOut := true }
  else if record.event = "cleanup_completed" then
    { fault with cleanupCompleted := record.cleanupBounded = some true }
  else fault

/-- A record is added to the summary of its run. -/
def addRecord (fault : FaultEvidence) (record : FaultTraceRecord) : FaultEvidence :=
  let fault := if fault.boundary = "" then { fault with boundary := record.boundary } else fault
  let fault := { fault with fields := mergeFields fault.fields record.fields }
  applyEvent (applyDurableIdentity fault record.fields) record

-- ============================================================================
-- The pass
-- ============================================================================

/-- `byRun`, `lastSequence` and `order`. -/
structure ParseState where
  byRun : String → Option FaultEvidence
  lastSequence : String → Int
  order : List String

def ParseState.start : ParseState := ⟨fun _ => none, fun _ => 0, []⟩

def faultTraceSchemaVersion : String := "fault-trace.v1"

/-- The summary of the record's run, a new one if need be, and the order with it. -/
def ParseState.faultOf (s : ParseState) (record : FaultTraceRecord) : FaultEvidence × List String :=
  match s.byRun record.runID with
  | some fault => (fault, s.order)
  | none => (.first record, s.order ++ [record.runID])

/-- The loop's body for a decoded record. -/
def parseRecord (s : ParseState) (record : FaultTraceRecord) : Except String ParseState := do
  rejectIf (record.schemaVersion ≠ faultTraceSchemaVersion)
    ("unsupported fault trace schema " ++ quote record.schemaVersion)
  rejectIf (record.runID = "" ∨ record.sequence ≤ 0) "fault trace record has no run_id"
  let expected := s.lastSequence record.runID + 1
  rejectIf (record.sequence ≠ expected) ("fault trace sequence for " ++ record.runID ++ " is " ++
    toString record.sequence ++ ", want " ++ toString expected)
  let (fault, order) := s.faultOf record
  rejectIf (fault.seed ≠ record.seed) ("fault trace seed changed within run " ++ record.runID)
  pure ⟨Function.update s.byRun record.runID (some (addRecord fault record)),
    Function.update s.lastSequence record.runID record.sequence, order⟩

/-- The summaries in the order their runs appeared. -/
def ParseState.result (s : ParseState) : List FaultEvidence := s.order.filterMap s.byRun

/-- `ParseFaultTrace`: the loop over the lines, then the summaries. -/
def parseFaultTrace (text : List Char) : Except String (List FaultEvidence) :=
  ((scanLines text).foldlM (fun s line => do
    let record ← decodeRecord line
    parseRecord s record) ParseState.start).map ParseState.result

-- ============================================================================
-- One run
-- ============================================================================

/-- What is kept for a run: its summary, once there is one, and its last sequence number. -/
abbrev RunState := Option FaultEvidence × Int

/-- What a record does to its run. -/
def runStep (s : RunState) (record : FaultTraceRecord) : Except String RunState := do
  rejectIf (record.schemaVersion ≠ faultTraceSchemaVersion)
    ("unsupported fault trace schema " ++ quote record.schemaVersion)
  rejectIf (record.runID = "" ∨ record.sequence ≤ 0) "fault trace record has no run_id"
  rejectIf (record.sequence ≠ s.2 + 1) ("fault trace sequence for " ++ record.runID ++ " is " ++
    toString record.sequence ++ ", want " ++ toString (s.2 + 1))
  rejectIf ((s.1.getD (.first record)).seed ≠ record.seed)
    ("fault trace seed changed within run " ++ record.runID)
  pure (some (addRecord (s.1.getD (.first record)) record), record.sequence)

/-- The records of a run are in order. -/
structure RunWellFormed (records : List FaultTraceRecord) : Prop where
  schema : ∀ r ∈ records, r.schemaVersion = faultTraceSchemaVersion
  named : ∀ r ∈ records, r.runID ≠ ""
  sequence : records.map (·.sequence) = (List.range records.length).map (fun i : Nat => (i : Int) + 1)
  seed : ∀ r ∈ records, ∀ r' ∈ records, r.seed = r'.seed

/-- The summary of a run with one more of its records. -/
def summarize (fault : Option FaultEvidence) (record : FaultTraceRecord) : Option FaultEvidence :=
  some (addRecord (fault.getD (.first record)) record)

/-- The summary the records of a run leave. -/
def evidenceOf (records : List FaultTraceRecord) : Option FaultEvidence := records.foldl summarize none

@[simp] theorem applyEvent_seed (fault : FaultEvidence) (record : FaultTraceRecord) :
    (applyEvent fault record).seed = fault.seed ∧ (applyEvent fault record).runID = fault.runID := by
  unfold applyEvent
  repeat' split
  all_goals exact ⟨rfl, rfl⟩

/-- A run keeps its name and its seed. -/
theorem addRecord_seed (fault : FaultEvidence) (record : FaultTraceRecord) :
    (addRecord fault record).seed = fault.seed ∧ (addRecord fault record).runID = fault.runID := by
  unfold addRecord
  obtain ⟨hseed, hrun⟩ := applyEvent_seed (applyDurableIdentity
    { (if fault.boundary = "" then { fault with boundary := record.boundary } else fault) with
      fields := mergeFields (if fault.boundary = "" then { fault with boundary := record.boundary }
        else fault).fields record.fields } record.fields) record
  refine ⟨hseed.trans ?_, hrun.trans ?_⟩
  · simp only [applyDurableIdentity]
    split <;> rfl
  · simp only [applyDurableIdentity]
    split <;> rfl

theorem runStep_eq_ok_iff {s s' : RunState} {record : FaultTraceRecord} :
    runStep s record = .ok s' ↔ record.schemaVersion = faultTraceSchemaVersion ∧ record.runID ≠ "" ∧
      0 < record.sequence ∧ record.sequence = s.2 + 1 ∧ (∀ e ∈ s.1, e.seed = record.seed) ∧
      s' = (some (addRecord (s.1.getD (.first record)) record), record.sequence) := by
  have hseed : ¬ (s.1.getD (.first record)).seed ≠ record.seed ↔ ∀ e ∈ s.1, e.seed = record.seed := by
    rw [not_not]
    cases s.1 with
    | none => exact ⟨fun _ _ h => (nomatch h), fun _ => rfl⟩
    | some e => exact ⟨fun h _ he => Option.some.inj he ▸ h, fun h => h e rfl⟩
  rw [runStep]
  constructor
  · intro h
    obtain ⟨_, hschema, h⟩ := bind_eq_ok.mp h
    obtain ⟨_, hnamed, h⟩ := bind_eq_ok.mp h
    obtain ⟨_, hsequence, h⟩ := bind_eq_ok.mp h
    obtain ⟨_, hsame, h⟩ := bind_eq_ok.mp h
    obtain ⟨hnamed, hpos⟩ := not_or.mp (rejectIf_eq_ok.mp hnamed)
    exact ⟨not_not.mp (rejectIf_eq_ok.mp hschema), hnamed, Int.not_le.mp hpos,
      not_not.mp (rejectIf_eq_ok.mp hsequence), hseed.mp (rejectIf_eq_ok.mp hsame), (pure_eq_ok.mp h).symm⟩
  · rintro ⟨hschema, hnamed, hpos, hsequence, hsame, rfl⟩
    rw [rejectIf_of_not _ (not_not.mpr hschema), ok_bind,
      rejectIf_of_not _ (not_or.mpr ⟨hnamed, Int.not_le.mpr hpos⟩), ok_bind,
      rejectIf_of_not _ (not_not.mpr hsequence), ok_bind, rejectIf_of_not _ (hseed.mpr hsame)]
    rfl

/-- The records of a run go through exactly when they are in order. -/
theorem foldlM_runStep_iff {records : List FaultTraceRecord} {s : RunState} (hs : 0 ≤ s.2) :
    (∃ s', records.foldlM runStep s = .ok s') ↔
      (∀ r ∈ records, r.schemaVersion = faultTraceSchemaVersion ∧ r.runID ≠ "") ∧
      records.map (·.sequence) = (List.range records.length).map (fun i : Nat => s.2 + (i : Int) + 1) ∧
      (∀ e ∈ s.1, ∀ r ∈ records, e.seed = r.seed) ∧ ∀ r ∈ records, ∀ r' ∈ records, r.seed = r'.seed := by
  induction records generalizing s with
  | nil => exact ⟨fun _ => ⟨fun _ h => (nomatch h), rfl, fun _ _ _ h => (nomatch h), fun _ h => (nomatch h)⟩,
      fun _ => ⟨s, rfl⟩⟩
  | cons r records ih =>
      have hrange : (List.range (r :: records).length).map (fun i : Nat => s.2 + (i : Int) + 1) =
          (s.2 + 1) :: (List.range records.length).map (fun i : Nat => (s.2 + 1) + (i : Int) + 1) := by
        rw [List.length_cons, List.range_succ_eq_map, List.map_cons, List.map_map]
        refine congrArg₂ List.cons (by simp) (List.map_congr_left (fun i _ => ?_))
        simp only [Function.comp_apply, Nat.succ_eq_add_one]
        omega
      have hkept : (addRecord (s.1.getD (.first r)) r).seed = (s.1.getD (.first r)).seed :=
        (addRecord_seed _ _).1
      rw [hrange, List.map_cons, List.cons.injEq]
      constructor
      · rintro ⟨s', h⟩
        obtain ⟨t, hstep, hrest⟩ := foldlM_cons_eq_ok.mp h
        obtain ⟨hschema, hnamed, hpos, hsequence, hseed, rfl⟩ := runStep_eq_ok_iff.mp hstep
        have hfirst : (s.1.getD (.first r)).seed = r.seed := by
          cases hs : s.1 with
          | none => rfl
          | some e => exact hseed e hs
        obtain ⟨hall, hsequences, hsame, hseeds⟩ := (ih (by simp only; omega)).mp ⟨s', hrest⟩
        simp only [Option.mem_some_iff, forall_eq', hkept, hfirst] at hsame
        refine ⟨List.forall_mem_cons.mpr ⟨⟨hschema, hnamed⟩, hall⟩, ⟨hsequence, ?_⟩, ?_, ?_⟩
        · rw [hsequences, hsequence]
        · intro e he
          exact List.forall_mem_cons.mpr ⟨hseed e he, fun r' hr' => (hseed e he).trans (hsame r' hr')⟩
        · refine List.forall_mem_cons.mpr ⟨List.forall_mem_cons.mpr ⟨rfl, hsame⟩, fun r' hr' => ?_⟩
          exact List.forall_mem_cons.mpr ⟨(hsame r' hr').symm, hseeds r' hr'⟩
      · rintro ⟨hall, ⟨hsequence, hsequences⟩, hsame, hseeds⟩
        obtain ⟨⟨hschema, hnamed⟩, hall⟩ := List.forall_mem_cons.mp hall
        have hseed : ∀ e ∈ s.1, e.seed = r.seed := fun e he => hsame e he r List.mem_cons_self
        have hfirst : (s.1.getD (.first r)).seed = r.seed := by
          cases hs : s.1 with
          | none => rfl
          | some e => exact hseed e hs
        have hstep := runStep_eq_ok_iff.mpr ⟨hschema, hnamed, by omega, hsequence, hseed, rfl⟩
        obtain ⟨s', hrest⟩ := (ih (s := (some (addRecord (s.1.getD (.first r)) r), r.sequence))
          (by simp only; omega)).mpr ⟨hall, by rw [hsequences, hsequence], fun e he r' hr' => by
            cases he
            rw [hkept, hfirst]
            exact hseeds r List.mem_cons_self r' (List.mem_cons_of_mem _ hr'), fun r' hr' r'' hr'' =>
              hseeds r' (List.mem_cons_of_mem _ hr') r'' (List.mem_cons_of_mem _ hr'')⟩
        exact ⟨s', foldlM_cons_eq_ok.mpr ⟨_, hstep, hrest⟩⟩

theorem run_accepted_iff {records : List FaultTraceRecord} :
    (∃ s', records.foldlM runStep (none, 0) = .ok s') ↔ RunWellFormed records := by
  rw [foldlM_runStep_iff (Int.le_refl 0)]
  simp only [Int.zero_add]
  constructor
  · rintro ⟨hall, hsequence, -, hseed⟩
    exact ⟨fun r hr => (hall r hr).1, fun r hr => (hall r hr).2, hsequence, hseed⟩
  · rintro ⟨hschema, hnamed, hsequence, hseed⟩
    exact ⟨fun r hr => ⟨hschema r hr, hnamed r hr⟩, hsequence, fun _ h => (nomatch h), hseed⟩

theorem foldlM_runStep_summary {records : List FaultTraceRecord} {s' : RunState}
    (h : records.foldlM runStep (none, 0) = .ok s') : s'.1 = evidenceOf records := by
  have hfold : ∀ s : RunState, records.foldlM runStep s = .ok s' → s'.1 = records.foldl summarize s.1 := by
    clear h
    induction records with
    | nil =>
        intro s h
        cases pure_eq_ok.mp h
        rfl
    | cons r records ih =>
        intro s h
        obtain ⟨t, hstep, hrest⟩ := foldlM_cons_eq_ok.mp h
        obtain ⟨-, -, -, -, -, rfl⟩ := runStep_eq_ok_iff.mp hstep
        exact ih _ hrest
  exact hfold _ h

-- ============================================================================
-- All runs
-- ============================================================================

/-- What is kept for each run. -/
def ParseState.view (s : ParseState) : String → RunState := fun id => (s.byRun id, s.lastSequence id)

theorem map_bind {ε α β γ : Type} (x : Except ε α) (f : α → Except ε β) (g : β → γ) :
    (x >>= f).map g = x >>= fun a => (f a).map g := by
  cases x <;> rfl

/-- A record changes what is kept for its own run, and a new run is put at the end of the order. -/
theorem parseRecord_eq_ok_iff {s s' : ParseState} {record : FaultTraceRecord} :
    parseRecord s record = .ok s' ↔
      keyedStep (·.runID) runStep s.view record = .ok s'.view ∧
      s'.order = if (s.byRun record.runID).isSome then s.order else s.order ++ [record.runID] := by
  have hbody : parseRecord s record = (runStep (s.view record.runID) record).map (fun x =>
      ⟨Function.update s.byRun record.runID x.1, Function.update s.lastSequence record.runID x.2,
        if (s.byRun record.runID).isSome then s.order else s.order ++ [record.runID]⟩) := by
    have hfault : s.faultOf record = ((s.byRun record.runID).getD (.first record),
        if (s.byRun record.runID).isSome then s.order else s.order ++ [record.runID]) := by
      rw [ParseState.faultOf]
      cases s.byRun record.runID <;> rfl
    rw [parseRecord, hfault, runStep]
    simp only [map_bind]
    rfl
  rw [hbody, keyedStep_eq_ok_iff]
  cases runStep (s.view record.runID) record with
  | error e => exact ⟨fun h => (by cases h), fun h => by obtain ⟨⟨_, h, _⟩, _⟩ := h; cases h⟩
  | ok x =>
      simp only [Except.map, Except.ok.injEq]
      have hupdate : (fun id => (Function.update s.byRun record.runID x.1 id,
          Function.update s.lastSequence record.runID x.2 id)) = Function.update s.view record.runID x := by
        funext id
        by_cases hid : id = record.runID
        · subst hid
          simp only [Function.update_self]
        · simp only [Function.update_of_ne hid]
          rfl
      constructor
      · rintro rfl
        exact ⟨⟨x, rfl, hupdate⟩, rfl⟩
      · rintro ⟨⟨_, rfl, hview⟩, horder⟩
        rw [← hupdate] at hview
        have hmaps := fun id => Prod.mk.inj (congrFun hview id)
        obtain ⟨byRun, lastSequence, order⟩ := s'
        simp only [ParseState.mk.injEq]
        exact ⟨funext (fun id => (hmaps id).1.symm), funext (fun id => (hmaps id).2.symm), horder.symm⟩

theorem eraseDups_concat (ids : List String) (id : String) :
    (ids ++ [id]).eraseDups = if id ∈ ids then ids.eraseDups else ids.eraseDups ++ [id] := by
  have hone : [id].eraseDups = [id] := by rw [List.eraseDups_cons, List.filter_nil, List.eraseDups_nil]
  rw [List.eraseDups_append, List.removeAll, List.filter_cons, List.filter_nil]
  split <;> simp_all

/-- The pass is a pass for each run, and lists the runs as they appear. -/
theorem foldlM_parseRecord_iff {records : List FaultTraceRecord} {s s' : ParseState} {seen : List String}
    (horder : s.order = seen.eraseDups) (hlisted : ∀ id, (s.byRun id).isSome = true ↔ id ∈ seen) :
    records.foldlM parseRecord s = .ok s' ↔
      records.foldlM (keyedStep (·.runID) runStep) s.view = .ok s'.view ∧
        s'.order = (seen ++ records.map (·.runID)).eraseDups := by
  induction records generalizing s seen with
  | nil =>
      rw [List.map_nil, List.append_nil, ← horder]
      constructor
      · intro h
        cases pure_eq_ok.mp h
        exact ⟨rfl, rfl⟩
      · rintro ⟨hview, hsame⟩
        have hmaps := fun id => Prod.mk.inj (congrFun (pure_eq_ok.mp hview) id)
        obtain ⟨byRun, lastSequence, order⟩ := s
        obtain ⟨byRun', lastSequence', order'⟩ := s'
        cases hsame
        cases funext (fun id => (hmaps id).1)
        cases funext (fun id => (hmaps id).2)
        rfl
  | cons r records ih =>
      -- after the record its run is listed, and no other is new
      have hnext : ∀ t : ParseState, keyedStep (·.runID) runStep s.view r = .ok t.view →
          t.order = (if (s.byRun r.runID).isSome then s.order else s.order ++ [r.runID]) →
          t.order = (seen ++ [r.runID]).eraseDups ∧
            ∀ id, (t.byRun id).isSome = true ↔ id ∈ seen ++ [r.runID] := by
        intro t hview htorder
        obtain ⟨x, hx, hupdate⟩ := keyedStep_eq_ok_iff.mp hview
        obtain ⟨-, -, -, -, -, rfl⟩ := runStep_eq_ok_iff.mp hx
        refine ⟨?_, fun id => ?_⟩
        · rw [htorder, eraseDups_concat, horder]
          exact if_congr (hlisted r.runID) rfl rfl
        · have hid := congrArg Prod.fst (congrFun hupdate id)
          rw [show t.byRun id = (t.view id).1 from rfl, hid, List.mem_append, List.mem_singleton, ← hlisted id]
          by_cases heq : id = r.runID
          · rw [heq, Function.update_self]
            exact ⟨fun _ => .inr rfl, fun _ => rfl⟩
          · rw [Function.update_of_ne heq]
            exact ⟨.inl, fun h => h.resolve_right heq⟩
      rw [foldlM_cons_eq_ok, foldlM_cons_eq_ok, List.map_cons, ← List.singleton_append, ← List.append_assoc]
      constructor
      · rintro ⟨t, hstep, hrest⟩
        obtain ⟨hview, htorder⟩ := parseRecord_eq_ok_iff.mp hstep
        obtain ⟨hnextOrder, hnextListed⟩ := hnext t hview htorder
        obtain ⟨hrest, hfinal⟩ := (ih hnextOrder hnextListed).mp hrest
        exact ⟨⟨t.view, hview, hrest⟩, hfinal⟩
      · rintro ⟨⟨view, hview, hrest⟩, hfinal⟩
        have hstep : parseRecord s r = .ok ⟨fun id => (view id).1, fun id => (view id).2,
            if (s.byRun r.runID).isSome then s.order else s.order ++ [r.runID]⟩ :=
          parseRecord_eq_ok_iff.mpr ⟨hview, rfl⟩
        obtain ⟨hnextOrder, hnextListed⟩ := hnext ⟨_, _, _⟩ hview rfl
        exact ⟨_, hstep, (ih hnextOrder hnextListed).mpr ⟨hrest, hfinal⟩⟩

/-- The records of a run. -/
def recordsOf (records : List FaultTraceRecord) (id : String) : List FaultTraceRecord :=
  records.filter (fun r => r.runID = id)

/-- The runs of a trace as they appear in it. -/
def runOrder (records : List FaultTraceRecord) : List String := (records.map (·.runID)).eraseDups

/-- The pass goes through exactly when the records of each run are in order, and then returns what the
    records of each run say of it. -/
theorem parseRecords_iff {records : List FaultTraceRecord} {out : List FaultEvidence} :
    (∃ s, records.foldlM parseRecord .start = .ok s ∧ out = s.result) ↔
      (∀ id, RunWellFormed (recordsOf records id)) ∧
        out = (runOrder records).filterMap (fun id => evidenceOf (recordsOf records id)) := by
  have hpass : ∀ s', records.foldlM parseRecord .start = .ok s' ↔
      records.foldlM (keyedStep FaultTraceRecord.runID runStep) ParseState.start.view = .ok s'.view ∧
        s'.order = ([] ++ records.map FaultTraceRecord.runID).eraseDups := by
    have hlisted : ∀ id, (ParseState.start.byRun id).isSome = true ↔ id ∈ ([] : List String) :=
      fun id => ⟨fun h => (by cases h), fun h => absurd h List.not_mem_nil⟩
    exact fun s' => foldlM_parseRecord_iff rfl hlisted
  simp only [List.nil_append, foldlM_keyed_iff] at hpass
  constructor
  · rintro ⟨s, hfold, rfl⟩
    obtain ⟨hruns, horder⟩ := (hpass s).mp hfold
    have hbyRun : s.byRun = fun id => evidenceOf (recordsOf records id) :=
      funext (fun id => foldlM_runStep_summary (hruns id))
    refine ⟨fun id => run_accepted_iff.mp ⟨_, hruns id⟩, ?_⟩
    rw [ParseState.result, hbyRun, horder, runOrder]
  · rintro ⟨hruns, rfl⟩
    choose view hview using fun id => run_accepted_iff.mpr (hruns id)
    refine ⟨⟨fun id => (view id).1, fun id => (view id).2, runOrder records⟩, (hpass _).mpr ⟨hview, rfl⟩, ?_⟩
    exact congrArg (fun f => (runOrder records).filterMap f)
      (funext (fun id => (foldlM_runStep_summary (hview id)).symm))

-- ============================================================================
-- Traces
-- ============================================================================

/-- The pass over a text is the pass over its records. -/
theorem parseFaultTrace_eq_ok_iff {text : List Char} {out : List FaultEvidence} :
    parseFaultTrace text = .ok out ↔ ∃ records, (scanLines text).mapM decodeRecord = .ok records ∧
      ∃ s, records.foldlM parseRecord .start = .ok s ∧ out = s.result := by
  have hfold : ∀ (lines : List (List Char)) s s', lines.foldlM (fun s line => do
      let record ← decodeRecord line
      parseRecord s record) s = .ok s' ↔
        ∃ records, lines.mapM decodeRecord = .ok records ∧ records.foldlM parseRecord s = .ok s' := by
    intro lines
    induction lines with
    | nil =>
        intro s s'
        rw [List.mapM_nil]
        exact ⟨fun h => ⟨[], rfl, h⟩, fun ⟨records, hrecords, h⟩ => by cases hrecords; exact h⟩
    | cons line lines ih =>
        intro s s'
        rw [foldlM_cons_eq_ok, List.mapM_cons]
        constructor
        · rintro ⟨t, hstep, hrest⟩
          obtain ⟨record, hrecord, hstep⟩ := bind_eq_ok.mp hstep
          obtain ⟨records, hrecords, hrest⟩ := (ih t s').mp hrest
          exact ⟨record :: records, bind_eq_ok.mpr ⟨record, hrecord, bind_eq_ok.mpr ⟨records, hrecords, rfl⟩⟩,
            foldlM_cons_eq_ok.mpr ⟨t, hstep, hrest⟩⟩
        · rintro ⟨records, hrecords, h⟩
          obtain ⟨record, hrecord, hrecords⟩ := bind_eq_ok.mp hrecords
          obtain ⟨rest, hrest, hrecords⟩ := bind_eq_ok.mp hrecords
          cases pure_eq_ok.mp hrecords
          obtain ⟨t, hstep, hfold⟩ := foldlM_cons_eq_ok.mp h
          exact ⟨t, bind_eq_ok.mpr ⟨record, hrecord, hstep⟩, (ih t s').mpr ⟨rest, hrest, hfold⟩⟩
  have hresult : parseFaultTrace text = .ok out ↔ ∃ s, (scanLines text).foldlM (fun s line => do
      let record ← decodeRecord line
      parseRecord s record) ParseState.start = .ok s ∧ out = s.result := by
    rw [parseFaultTrace]
    cases (scanLines text).foldlM (fun s line => do
      let record ← decodeRecord line
      parseRecord s record) ParseState.start with
    | error e => exact ⟨fun h => (by cases h), fun ⟨_, h, _⟩ => (by cases h)⟩
    | ok s =>
        simp only [Except.map, Except.ok.injEq, exists_eq_left', eq_comm]
  rw [hresult]
  constructor
  · rintro ⟨s, hlines, rfl⟩
    obtain ⟨records, hrecords, hparse⟩ := (hfold _ _ _).mp hlines
    exact ⟨records, hrecords, s, hparse, rfl⟩
  · rintro ⟨records, hrecords, s, hparse, rfl⟩
    exact ⟨s, (hfold _ _ _).mpr ⟨records, hrecords, hparse⟩, rfl⟩

/-- The records of a run that is in order name a schema. -/
theorem schema_of_runs {records : List FaultTraceRecord} (h : ∀ id, RunWellFormed (recordsOf records id)) :
    ∀ r ∈ records, r.schemaVersion ≠ "" := by
  intro r hr
  have hmem : r ∈ recordsOf records r.runID := List.mem_filter.mpr ⟨hr, decide_eq_true rfl⟩
  rw [(h r.runID).schema r hmem]
  decide

/-- A trace is accepted exactly when it holds records and those of each run, however the runs are
    interleaved, are in order.  It lists the runs as they appear, and the summary of a run is that of
    its own records. -/
theorem fault_trace_by_run (text : List Char) (out : List FaultEvidence) :
    parseFaultTrace text = .ok out ↔ ∃ records, TextHolds text records ∧
      (∀ id, RunWellFormed (recordsOf records id)) ∧
      out = (runOrder records).filterMap (fun id => evidenceOf (recordsOf records id)) := by
  rw [parseFaultTrace_eq_ok_iff]
  constructor
  · rintro ⟨records, hrecords, hpass⟩
    obtain ⟨hruns, hout⟩ := parseRecords_iff.mp hpass
    exact ⟨records, (scan_decodes_iff (schema_of_runs hruns)).mp hrecords, hruns, hout⟩
  · rintro ⟨records, htrace, hruns, hout⟩
    exact ⟨records, (scan_decodes_iff (schema_of_runs hruns)).mpr htrace,
      parseRecords_iff.mpr ⟨hruns, hout⟩⟩

end DurableEngine.Invariants
