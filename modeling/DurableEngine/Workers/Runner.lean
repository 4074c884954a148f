/-
  DurableEngine.Workers.Runner

  One activity task, after `ActivityRunner.run_task` of
  `python/workers/runner.py` and `ControlClient` of `python/workers/control.py`.

  A task is claimed, its activity is called, and the outcome is reported with
  one call.  Between the activity and the report stand a fingerprint of the
  payload, which is computed outside the `try` block, and the encoding of the
  body; a payload that either of them refuses, or that encodes to a text the
  control API refuses, leaves the claim without a result.
-/

import DurableEngine.Api.Requests
import DurableEngine.Lib.PythonJson

namespace DurableEngine.Workers

open Lib Api

-- ============================================================================
-- Activities
-- ============================================================================

/-- What a call of an activity comes to: a value, an `Exception` with its `str` and the name of its type,
    or an exception that is no `Exception` or has no `str`. -/
inductive Outcome where
  | returns (v : PyValue)
  | raises (text typeName : PyStr)
  | escapes

abbrev Activity := PyValue → Outcome

/-- `ActivityRegistry`: the activities by their keys. -/
abbrev ActivityRegistry := List (String × Activity)

namespace ActivityRegistry

def key (name version : String) : String := name ++ "@" ++ version

def resolve (registry : ActivityRegistry) (name version : String) : Option Activity :=
  (registry.find? (fun entry => entry.1 = key name version)).map Prod.snd

end ActivityRegistry

/-- `pure.echo`. -/
def pureEcho : Activity := .returns

structure ActivityTask where
  workflowID : String
  nodeID : String
  iteration : Int
  workerID : String
  requestID : String
  activityName : String
  activityVersion : String
  input : PyValue
  attemptLeaseMs : Int

-- ============================================================================
-- The control client
-- ============================================================================

structure ControlError where
  status : Nat
  code : String
  message : String
  operation : String

/-- `Claim`, as the control API grants it. -/
structure Claim where
  attemptNumber : Int
  claimToken : String
  positive : 0 < attemptNumber
  bounded : attemptNumber < 2 ^ 63
  tokenNonempty : claimToken ≠ ""

/-- How many containers within each other `json.dumps` writes before the interpreter's stack ends, at the
    fingerprint and in `_post`. -/
structure Interpreter where
  fingerprintDepth : Nat
  postDepth : Nat

/-- Why a task ends without a receipt. -/
inductive Failure where
  | lookup (text : String)
  | path
  | control (e : ControlError)
  | encoding
  | escaped

/-- `_path` accepts the IDs. -/
def pathSafe (task : ActivityTask) : Bool :=
  decide (task.workflowID ≠ "" ∧ task.nodeID ≠ "" ∧ '/' ∉ task.workflowID.toList ∧ '/' ∉ task.nodeID.toList ∧
    0 ≤ task.iteration)

/-- The arguments of `ControlClient.result`. -/
structure ResultCall where
  workflowID : String
  nodeID : String
  iteration : Int
  attemptNumber : Int
  claimToken : String
  attemptState : String
  payload : PyValue
  eventType : String
  reconciliationRef : String

namespace ResultCall

def strKey (s : String) : PyKey := .str (.ofString s)

def strValue (s : String) : PyValue := .str (.ofString s)

/-- The dict that `ControlClient.result` posts. -/
def body (call : ResultCall) : PyValue :=
  .dict ([(strKey "attempt_number", .int call.attemptNumber), (strKey "claim_token", strValue call.claimToken),
      (strKey "attempt_state", strValue call.attemptState), (strKey "payload", call.payload)] ++
    (if call.eventType = "" then [] else [(strKey "event_type", strValue call.eventType)]) ++
    (if call.reconciliationRef = "" then []
      else [(strKey "reconciliation_ref", strValue call.reconciliationRef)]))

/-- The request body that `_post` sends. -/
def encode (interpreter : Interpreter) (call : ResultCall) : Option (List Char) :=
  call.body.dumps (.compact false) interpreter.postDepth

end ResultCall

-- ============================================================================
-- The runner
-- ============================================================================

/-- A worker and what happens around one task of it. -/
structure Worker where
  registry : ActivityRegistry
  interpreter : Interpreter
  /-- What the API answers to a claim. -/
  answerClaim : ActivityTask → Except ControlError Claim
  /-- `aborted()` after the activity. -/
  aborted : Bool
  /-- What comes back for the body of a result. -/
  answerResult : List Char → Except ControlError PyValue
  /-- The definitive errors that the heartbeat thread has met. -/
  heartbeatErrors : List ControlError

inductive ControlCall where
  | claim (task : ActivityTask)
  | result (call : ResultCall)

/-- The control calls of a run, and how it ended. -/
structure Run where
  calls : List ControlCall
  outcome : Except Failure PyValue

/-- `json.dumps(payload, sort_keys=True, ensure_ascii=False).encode("utf-8")` raises nothing; its digest is
    only logged. -/
def fingerprints (interpreter : Interpreter) (payload : PyValue) : Bool :=
  payload.encodes true && decide (payload.depth ≤ interpreter.fingerprintDepth) && payload.encodable

/-- The attempt state and the payload that are reported of an outcome. -/
def report : Outcome → Option (String × PyValue)
  | .returns v => some ("SUCCEEDED", v)
  | .raises text typeName => some ("FAILED_RETRYABLE",
      .dict [(ResultCall.strKey "error", .str text), (ResultCall.strKey "type", .str typeName)])
  | .escapes => none

/-- `ControlClient.claim`. -/
def Worker.claim (w : Worker) (task : ActivityTask) : Except Failure Claim :=
  if pathSafe task then (w.answerClaim task).mapError (fun e => .control { e with operation := "claim" })
  else .error .path

/-- `ControlClient.result`. -/
def Worker.result (w : Worker) (task : ActivityTask) (call : ResultCall) : Except Failure PyValue :=
  if pathSafe task then
    match call.encode w.interpreter with
    | none => .error .encoding
    | some body => (w.answerResult body).mapError (fun e => .control { e with operation := "result" })
  else .error .path

/-- The call that reports a payload for a claim. -/
def resultCall (task : ActivityTask) (claim : Claim) (attemptState : String) (payload : PyValue) : ResultCall where
  workflowID := task.workflowID
  nodeID := task.nodeID
  iteration := task.iteration
  attemptNumber := claim.attemptNumber
  claimToken := claim.claimToken
  attemptState := attemptState
  payload := payload
  eventType := ""
  reconciliationRef := ""

/-- `run_task`. -/
def runTask (w : Worker) (task : ActivityTask) : Run :=
  match w.registry.resolve task.activityName task.activityVersion with
  | none => ⟨[], .error (.lookup ("activity is not registered: " ++
      ActivityRegistry.key task.activityName task.activityVersion))⟩
  | some activity =>
      match w.claim task with
      | .error e => ⟨[.claim task], .error e⟩
      | .ok claim =>
          match report (activity task.input) with
          | none => ⟨[.claim task], .error .escaped⟩
          | some (attemptState, payload) =>
              if w.aborted then
                ⟨[.claim task], .error (.control ⟨503, "SHUTTING_DOWN", "aborted activity reports no result", ""⟩)⟩
              else if fingerprints w.interpreter payload then
                let call := resultCall task claim attemptState payload
                ⟨[.claim task, .result call], do
                  let receipt ← w.result task call
                  match w.heartbeatErrors with
                  | e :: _ => .error (.control e)
                  | [] => .ok receipt⟩
              else ⟨[.claim task], .error .encoding⟩

/-- The calls of `control.result` in a run. -/
def Run.results (r : Run) : List ResultCall :=
  r.calls.filterMap (fun call => match call with | .result call => some call | .claim _ => none)

-- ============================================================================
-- Reports
-- ============================================================================

/-- The checks `recordResult` of the control API makes of a decoded request. -/
def resultRequestChecks (target : Target) : Bool :=
  match target "attempt_number", target "claim_token", target "attempt_state" with
  | .int number, .string token, .string attemptState => decide (0 < number ∧ token ≠ "" ∧
      (attemptState = "SUCCEEDED" ∨ attemptState = "FAILED_RETRYABLE" ∨ attemptState = "FAILED_FINAL"))
  | _, _, _ => false

/-- The control API does not refuse the body as malformed. -/
def WellFormed (codec : Codec) (body : List Char) : Prop :=
  ∃ target, decodeJSON codec resultRequest body = .ok target ∧ resultRequestChecks target = true

/-- The run reports its claim: with one call, whose body is a request the control API takes. -/
def Reported (codec : Codec) (w : Worker) (task : ActivityTask) (claim : Claim) : Prop :=
  ∃ attemptState payload, (runTask w task).results = [resultCall task claim attemptState payload] ∧
    ∃ body, (resultCall task claim attemptState payload).encode w.interpreter = some body ∧ WellFormed codec body

/-- What stands before the payload in a body. -/
def envelope (claim : Claim) (attemptState : String) : List Char :=
  let quoted (s : String) := (PyStr.ofString s).quoted
  '\x7b' :: (quoted "attempt_number" ++ ':' :: ((JsonNumber.ofInt claim.attemptNumber).literal ++
    ',' :: (quoted "claim_token" ++ ':' :: (quoted claim.claimToken ++
      ',' :: (quoted "attempt_state" ++ ':' :: (quoted attemptState ++ ',' :: (quoted "payload" ++ [':'])))))))

/-- The payload can be encoded both times, is standard JSON with different names in each object, and
    neither too deep nor too large for the control API. -/
structure Sendable (interpreter : Interpreter) (claim : Claim) (attemptState : String) (payload : PyValue) : Prop where
  encodes : payload.encodes true = true
  encodable : payload.encodable = true
  finite : payload.finite = true
  names : (payload.json (.compact false)).uniqueNames = true
  fingerprintDepth : payload.depth ≤ interpreter.fingerprintDepth
  postDepth : payload.depth + 1 ≤ interpreter.postDepth
  depth : payload.depth + 1 ≤ maxNestingDepth
  size : (String.ofList (envelope claim attemptState)).utf8ByteSize +
    (String.ofList (payload.text (.compact false))).utf8ByteSize + 1 ≤ maxRequestBytes

/-- The outcome is reported, with a payload that can be sent. -/
def Reportable (interpreter : Interpreter) (claim : Claim) (outcome : Outcome) : Prop :=
  ∃ attemptState payload, report outcome = some (attemptState, payload) ∧
    Sendable interpreter claim attemptState payload

-- ============================================================================
-- The body of a report
-- ============================================================================

/-- The states that are reported. -/
theorem report_state {outcome : Outcome} {attemptState : String} {payload : PyValue}
    (h : report outcome = some (attemptState, payload)) :
    attemptState = "SUCCEEDED" ∨ attemptState = "FAILED_RETRYABLE" := by
  cases outcome with
  | returns v =>
      cases h
      exact .inl rfl
  | raises text typeName =>
      cases h
      exact .inr rfl
  | escapes => cases h

section Body

variable {task : ActivityTask} {claim : Claim} {attemptState : String} {payload : PyValue}

theorem body_resultCall : (resultCall task claim attemptState payload).body =
    .dict [(ResultCall.strKey "attempt_number", .int claim.attemptNumber),
      (ResultCall.strKey "claim_token", ResultCall.strValue claim.claimToken),
      (ResultCall.strKey "attempt_state", ResultCall.strValue attemptState),
      (ResultCall.strKey "payload", payload)] := rfl

theorem printable_attemptNumber (claim : Claim) : PyValue.printable claim.attemptNumber = true := by
  have hpos := claim.positive
  have hbound := claim.bounded
  have hdigits := (Nat.length_toDigits_le_iff (b := 10) (n := claim.attemptNumber.natAbs) (k := 19) (by decide)
    (by decide)).mpr (by omega)
  exact decide_eq_true (Nat.le_trans hdigits (by decide))

theorem encodes_body : (resultCall task claim attemptState payload).body.encodes false = payload.encodes false := by
  rw [body_resultCall]
  simp only [PyValue.encodes, PyValue.encodesItems, ResultCall.strKey, ResultCall.strValue, PyValue.namable,
    printable_attemptNumber, Bool.not_false, Bool.true_or, Bool.true_and, Bool.and_true]

theorem depth_body : (resultCall task claim attemptState payload).body.depth = payload.depth + 1 := by
  rw [body_resultCall]
  simp only [PyValue.depth, PyValue.depthItems, ResultCall.strValue, Nat.zero_max, Nat.max_zero]

theorem finite_body : (resultCall task claim attemptState payload).body.finite = payload.finite := by
  rw [body_resultCall]
  simp only [PyValue.finite, PyValue.finiteItems, ResultCall.strValue, Bool.true_and, Bool.and_true]

/-- The members of a report. -/
def reportMembers (claim : Claim) (attemptState : String) (payload : PyValue) : List (String × Json) :=
  [("attempt_number", .num (.ofInt claim.attemptNumber)), ("claim_token", .str claim.claimToken),
    ("attempt_state", .str attemptState), ("payload", payload.json (.compact false))]

theorem json_body : (resultCall task claim attemptState payload).body.json (.compact false) =
    .obj (reportMembers claim attemptState payload) := by
  rw [body_resultCall]
  simp only [PyValue.json, PyValue.jsonItems, Layout.arrange, Layout.compact, ResultCall.strKey,
    ResultCall.strValue, Bool.false_eq_true, if_false, List.map_cons, List.map_nil, PyValue.member, PyKey.name,
    PyStr.read_ofString, reportMembers]

theorem text_body : (resultCall task claim attemptState payload).body.text (.compact false) =
    envelope claim attemptState ++ (payload.text (.compact false) ++ ['\x7d']) := by
  rw [body_resultCall]
  simp only [PyValue.text, PyValue.textItems, Layout.arrange, Layout.compact, Layout.item, Layout.join,
    ResultCall.strKey, ResultCall.strValue, Bool.false_eq_true, if_false, List.map_cons, List.map_nil, PyKey.name,
    envelope, List.append_assoc, List.cons_append, List.nil_append]

theorem decode_report (codec : Codec) (claim : Claim) (payload : PyValue)
    (hstate : attemptState = "SUCCEEDED" ∨ attemptState = "FAILED_RETRYABLE") :
    ∃ target, resultRequest.decode codec (.obj (reportMembers claim attemptState payload)) = .ok target ∧
      resultRequestChecks target = true := by
  have hpos := claim.positive
  have hbound := claim.bounded
  have hint : (JsonNumber.ofInt claim.attemptNumber).toInt? = some claim.attemptNumber := by
    have hneg : decide (claim.attemptNumber < 0) = false := decide_eq_false (by omega)
    have habs : (claim.attemptNumber.natAbs : Int) = claim.attemptNumber := by omega
    simp only [JsonNumber.toInt?, JsonNumber.ofInt, hneg, habs, and_self, if_true, Bool.false_eq_true, if_false]
    exact if_pos ⟨by omega, hbound⟩
  have hnumber : resultRequest.lookup "attempt_number" = some ⟨"attempt_number", .int 64⟩ := by decide +kernel
  have htoken : resultRequest.lookup "claim_token" = some ⟨"claim_token", .string⟩ := by decide +kernel
  have hname : resultRequest.lookup "attempt_state" = some ⟨"attempt_state", .string⟩ := by decide +kernel
  have hpayload : resultRequest.lookup "payload" = some ⟨"payload", .raw⟩ := by decide +kernel
  have hfits : -(2 ^ (64 - 1)) ≤ claim.attemptNumber ∧ claim.attemptNumber < 2 ^ (64 - 1) := by omega
  refine ⟨_, by
    simp only [RequestType.decode, structMembers, reportMembers, List.foldlM_cons, List.foldlM_nil,
      RequestType.storeMember, hnumber, htoken, hname, hpayload, FieldKind.store, hint, if_pos hfits, ok_bind]
    rfl, ?_⟩
  simp only [resultRequestChecks, ne_eq, Function.update_of_ne, Function.update_self, not_false_eq_true,
    String.reduceEq]
  refine decide_eq_true ⟨hpos, claim.tokenNonempty, ?_⟩
  obtain h | h := hstate
  · exact .inl h
  · exact .inr (.inl h)

end Body

-- ============================================================================
-- Claims that are reported
-- ============================================================================

/-- The body of a report is a request the control API takes exactly when its payload is standard JSON with
    different names, neither too deep nor too large. -/
theorem wellFormed_text_iff {codec : Codec} {task : ActivityTask} {claim : Claim} {attemptState : String}
    {payload : PyValue} (hstate : attemptState = "SUCCEEDED" ∨ attemptState = "FAILED_RETRYABLE")
    (hencodes : payload.encodes false = true) :
    WellFormed codec ((resultCall task claim attemptState payload).body.text (.compact false)) ↔
      payload.finite = true ∧ (payload.json (.compact false)).uniqueNames = true ∧
        payload.depth + 1 ≤ maxNestingDepth ∧
        (String.ofList (envelope claim attemptState)).utf8ByteSize +
          (String.ofList (payload.text (.compact false))).utf8ByteSize + 1 ≤ maxRequestBytes := by
  have hdoc : readDocument ((resultCall task claim attemptState payload).body.text (.compact false)) =
      if payload.finite then some (.obj (reportMembers claim attemptState payload)) else none := by
    have hbody : (resultCall task claim attemptState payload).body.encodes false = true :=
      encodes_body.trans hencodes
    rw [PyValue.readDocument_text (.compact false) hbody, PyValue.document, finite_body, json_body]
  have hnames : (JsonTree.obj (reportMembers claim attemptState payload)).uniqueNames =
      (payload.json (.compact false)).uniqueNames := by
    have hnodup : ((reportMembers claim attemptState payload).map Prod.fst).Nodup :=
      show ["attempt_number", "claim_token", "attempt_state", "payload"].Nodup by decide +kernel
    rw [JsonTree.uniqueNames, decide_eq_true hnodup]
    simp only [reportMembers, JsonTree.uniqueNamesMembers, JsonTree.uniqueNames, Bool.true_and, Bool.and_true]
  have hdepth : (JsonTree.obj (reportMembers claim attemptState payload)).depth = payload.depth + 1 := by
    have hjson : (resultCall task claim attemptState payload).body.json (.compact false) =
        .obj (reportMembers claim attemptState payload) := json_body
    rw [← hjson, PyValue.depth_json, depth_body]
  have hsize : (String.ofList ((resultCall task claim attemptState payload).body.text (.compact false))).utf8ByteSize =
      (String.ofList (envelope claim attemptState)).utf8ByteSize +
        (String.ofList (payload.text (.compact false))).utf8ByteSize + 1 := by
    rw [text_body, String.ofList_append, String.ofList_append, String.utf8ByteSize_append,
      String.utf8ByteSize_append, ← Nat.add_assoc]
    rfl
  have hblank : ((resultCall task claim attemptState payload).body.text (.compact false)).all State.isSpace = false := by
    rw [text_body]
    rfl
  obtain ⟨target, hdecode, hchecks⟩ := decode_report codec claim payload hstate
  unfold WellFormed
  simp only [decodeJSON_eq_ok_iff, hdoc, hsize]
  constructor
  · rintro ⟨_, ⟨hlarge, -, v, hv, hunique, hdeep, -⟩, -⟩
    obtain ⟨hfinite, heq⟩ := Option.ite_none_right_eq_some.mp hv
    cases heq
    exact ⟨hfinite, hnames ▸ hunique, hdepth ▸ hdeep, hlarge⟩
  · rintro ⟨hfinite, hunique, hdeep, hlarge⟩
    exact ⟨target, ⟨hlarge, hblank, _, if_pos hfinite, hnames.trans hunique, hdepth.le.trans hdeep, hdecode⟩,
      hchecks⟩

/-- The results of a run whose task is claimed by a worker that is not aborting. -/
theorem results_runTask {w : Worker} {task : ActivityTask} {activity : Activity} {claim : Claim}
    (hactivity : w.registry.resolve task.activityName task.activityVersion = some activity)
    (hclaim : w.claim task = .ok claim) (haborted : w.aborted = false) :
    (runTask w task).results =
      match report (activity task.input) with
      | none => []
      | some (attemptState, payload) =>
          if fingerprints w.interpreter payload then [resultCall task claim attemptState payload] else [] := by
  simp only [runTask, hactivity, hclaim]
  cases report (activity task.input) with
  | none => rfl
  | some r =>
      obtain ⟨attemptState, payload⟩ := r
      simp only [haborted, Bool.false_eq_true, if_false]
      split <;> rfl

/-- A task for `pure.echo`. -/
def echoTask (input : PyValue) : ActivityTask :=
  ⟨"w", "n", 0, "worker", "request", "pure.echo", "v1", input, 60000⟩

/-- The first claim of an attempt. -/
def firstClaim : Claim := ⟨1, "token", by decide, by decide, by decide⟩

/-- A worker with `pure.echo`, whose control API answers. -/
def echoWorker : Worker where
  registry := [(ActivityRegistry.key "pure.echo" "v1", pureEcho)]
  interpreter := ⟨500, 500⟩
  answerClaim := fun _ => .ok firstClaim
  aborted := false
  answerResult := fun _ => .ok .none
  heartbeatErrors := []

end DurableEngine.Workers
