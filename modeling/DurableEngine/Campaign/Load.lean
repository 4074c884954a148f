/-
  DurableEngine.Campaign.Load

  The open-loop load generator of `dur053/load.go` (`Plan`, `RunWithClock`) and
  the rules of `CheckCampaign` in `invariants/campaign.go` on one arrival.

  One goroutine walks the schedule.  It waits for the time of a row, gives the
  row up when the next one is already due or no slot is free, and otherwise
  starts a goroutine that sends the row's request.  All of them read one clock.
  A time is a number of nanoseconds since Go's zero time.
-/

import DurableEngine.Lib.Marshal
import DurableEngine.Lib.Trace
import DurableEngine.Lib.Unmarshal
import DurableEngine.State.Statements
import Mathlib

namespace DurableEngine.Campaign

open Lib State

-- ============================================================================
-- The plan
-- ============================================================================

/-- A campaign.  `rate` is the double's value; `bounded` says that the URL is one of HTTP and the schedule
    takes 72 hours at most. -/
structure Config where
  bounded : Bool
  namespace_ : String
  runID : String
  arm : String
  seed : ℤ
  rate : ℚ
  count : ℕ
  concurrency : ℕ
  cpuUnits : ℕ
  timeout : ℤ

/-- `idPattern` -/
def isID (s : String) : Bool :=
  decide (1 ≤ s.length ∧ s.length ≤ 64) && s.toList.all (fun c => c.isAlphanum || c = '-')

def Config.validate (c : Config) : Bool :=
  decide (0 < c.rate ∧ c.rate ≤ 100000 ∧ 1 ≤ c.count ∧ c.count ≤ 1000000 ∧ 1 ≤ c.concurrency ∧
    c.concurrency ≤ 1024 ∧ 0 < c.timeout ∧ 1 ≤ c.cpuUnits ∧ c.cpuUnits ≤ 1000000) &&
  isID c.runID && decide (c.namespace_ ≠ "") && c.bounded &&
  decide (c.arm ∈ ["short", "medium", "long", "cpu"])

/-- `Offset` at the rate of a campaign. -/
structure Schedule where
  offset : ℕ → ℤ
  monotone : Monotone offset
  range : ∀ i, -(2 ^ 63) ≤ offset i ∧ offset i < 2 ^ 63

inductive ArrivalOutcome where
  | notSent
  | canceled
  | missedDeadline
  | capacityMissed
  | missedSendDeadline
  | uncertain
  | accepted
  | rejected
deriving DecidableEq, Repr

/-- `invariants.Arrival`; a `scheduledAt` of 0 is the zero time. -/
structure Arrival where
  sequence : ℕ
  key : String
  workflowID : String
  activity : String
  scheduledNS : ℤ
  scheduledAt : ℤ
  sendNS : Option ℤ
  sentAt : Option ℤ
  latenessNS : ℤ
  finishedNS : Option ℤ
  httpStatus : ℤ
  outcome : ArrivalOutcome
  error : String
  request : RawMessage
  response : RawMessage
deriving DecidableEq

/-- `Activity` -/
def activityOf (i : ℕ) (arm : String) : String :=
  if arm = "cpu" then "dur053.cpu"
  else if i % 10 = 8 then "pure.echo"
  else if i % 10 = 9 then "pure.add"
  else "dur048.sleep"

def definitionID (run activity : String) : String := s!"dur053-{run}-{activity}"

/-- The input of a row. -/
def inputOf (c : Config) (i : ℕ) : Json :=
  if activityOf i c.arm = "pure.add" then .arr [.num ⟨false, 2, 0, none⟩, .num ⟨false, 3, 0, none⟩]
  else .obj [("run_id", .str c.runID), ("sequence", .num ⟨false, i, 0, none⟩)]

def keyOf (c : Config) (i : ℕ) : String :=
  s!"dur053-{c.runID}-{c.seed}-" ++ String.ofList (paddedDigits i 6)

/-- The document of a row's request. -/
def requestOf (c : Config) (i : ℕ) : Json :=
  let activity := activityOf i c.arm
  .obj [("actor_id", .str "dur053-loadgen"), ("definition_id", .str (definitionID c.runID activity)),
    ("definition_version", .num ⟨false, 1, 0, none⟩), ("initial_input", inputOf c i),
    ("initial_node_id", .str activity), ("namespace", .str c.namespace_), ("payload", inputOf c i),
    ("submission_key", .str (keyOf c i)), ("workflow_id", .str (keyOf c i))]

theorem requestOf_shallow (c : Config) (i : ℕ) : (requestOf c i).shallow = true := by
  have hinput : (inputOf c i).depth ≤ 1 := by
    unfold inputOf
    split <;> simp [JsonTree.depth, JsonTree.depthList, JsonTree.depthMembers]
  refine decide_eq_true ?_
  simp only [requestOf, JsonTree.depth, JsonTree.depthMembers, maxNestingDepth]
  omega

def plannedRow (c : Config) (schedule : Schedule) (i : ℕ) : Arrival where
  sequence := i
  key := keyOf c i
  workflowID := keyOf c i
  activity := activityOf i c.arm
  scheduledNS := schedule.offset i
  scheduledAt := 0
  sendNS := none
  sentAt := none
  latenessNS := 0
  finishedNS := none
  httpStatus := 0
  outcome := .notSent
  error := ""
  request := .json (requestOf c i)
  response := .json .null

/-- `Plan` -/
def plan (c : Config) (schedule : Schedule) : Option (Fin c.count → Arrival) :=
  if c.validate then some (fun i => plannedRow c schedule i) else none

-- ============================================================================
-- The rows of a run
-- ============================================================================

/-- `t.Sub(t0).Nanoseconds()`, which saturates. -/
def since (t t0 : ℤ) : ℤ := max (-(2 ^ 63)) (min (2 ^ 63 - 1) (t - t0))

namespace Arrival

/-- The goroutine of the row is about to call the sender. -/
def started (a : Arrival) (t0 t : ℤ) : Arrival :=
  { a with
    sendNS := some (since t t0)
    latenessNS := (since t t0 - a.scheduledNS).bmod (2 ^ 64)
    sentAt := some t }

/-- The values of a `workflow` member stored into its struct. -/
def storeWorkflowID (old : String) (v : Json) : Option String := do
  field storeString old "workflow_id" (← structMembers v)

/-- The workflow id of an acceptance, when `json.Unmarshal` reads it. -/
def acceptedID : RawMessage → Option String
  | .json v => do field storeWorkflowID "" "workflow" (← structMembers v)
  | _ => none

/-- The sender returned. -/
def finished (a : Arrival) (finish : ℤ) (status : ℤ) (data : RawMessage) (err : Option String) : Arrival :=
  let a := { a with
    finishedNS := some finish
    httpStatus := status
    response := if data.valid then data else .json .null }
  match err with
  | some text => { a with outcome := .uncertain, error := text }
  | none =>
      if 200 ≤ status ∧ status < 300 then
        if acceptedID data = some a.workflowID then { a with outcome := .accepted }
        else { a with outcome := .uncertain, error := "unexpected acceptance response" }
      else if 400 ≤ status ∧ status < 500 then { a with outcome := .rejected }
      else { a with outcome := .uncertain }

end Arrival

/-- What `CheckCampaign` asks of the schedule, the sending and the response of a row. -/
structure Complete (schedule : Schedule) (rate : ℚ) (sequence : ℕ) (a : Arrival) : Prop where
  rate : 0 < rate
  scheduled : a.scheduledNS = schedule.offset sequence
  scheduledAt : a.scheduledAt ≠ 0
  sent : ∃ send ∈ a.sendNS, ∃ finish ∈ a.finishedNS, a.scheduledNS ≤ send ∧ send ≤ finish ∧
    a.latenessNS = (send - a.scheduledNS).bmod (2 ^ 64)
  sentAt : a.sentAt ≠ none
  request : a.request.valid = true
  response : a.response.valid = true

-- ============================================================================
-- Runs
-- ============================================================================

inductive Status where
  | pass
  | fail
deriving DecidableEq, Repr

/-- Where the goroutine of the schedule is; at `waiting` past the last row it waits for the requests. -/
inductive Main where
  | waiting (i : ℕ)
  /-- `Wait` returned without an error. -/
  | waited (i : ℕ)
  /-- The row is not missed. -/
  | due (i : ℕ)
  | returned (status : Status)
deriving DecidableEq, Repr

/-- Where the goroutine of a row is. -/
inductive Sender where
  | idle
  | spawned
  /-- In the call of `send`. -/
  | sending
  | replied (status : ℤ) (data : RawMessage) (err : Option String)
  /-- In the deferred calls. -/
  | returning
  | ended
deriving DecidableEq

/-- The goroutine has a slot. -/
def Sender.holds : Sender → Bool
  | .spawned | .sending | .replied .. | .returning => true
  | .idle | .ended => false

structure Load (n : ℕ) where
  t0 : ℤ
  now : ℤ
  main : Main
  slots : ℕ
  rows : Fin n → Arrival
  senders : Fin n → Sender

/-- A call of the sender, with the time its goroutine read. -/
inductive LoadEvent (n : ℕ) where
  | sent (i : Fin n) (t : ℤ)
deriving DecidableEq

namespace Load

variable {n : ℕ}

/-- `t0.Add(Offset(i, c.Rate))` -/
def dueAt (schedule : Schedule) (s : Load n) (i : ℕ) : ℤ := s.t0 + schedule.offset i

/-- The row after `sequence` is due at `t`. -/
def Expired (schedule : Schedule) (s : Load n) (sequence : ℕ) (t : ℤ) : Prop :=
  sequence + 1 < n ∧ s.dueAt schedule (sequence + 1) ≤ t

/-- The first reading of the clock, and the scheduled times. -/
def initial (schedule : Schedule) (planned : Fin n → Arrival) (t0 : ℤ) : Load n where
  t0 := t0
  now := t0
  main := .waiting 0
  slots := 0
  rows i := { planned i with scheduledAt := t0 + schedule.offset i }
  senders _ := .idle

def setRow (s : Load n) (i : Fin n) (f : Arrival → Arrival) : Load n :=
  { s with rows := Function.update s.rows i (f (s.rows i)) }

def setSender (s : Load n) (i : Fin n) (sender : Sender) : Load n :=
  { s with senders := Function.update s.senders i sender }

/-- The row is given up in the schedule loop. -/
def skip (s : Load n) (i : Fin n) (outcome : ArrivalOutcome) (error : String) : Load n :=
  { s.setRow i (fun a => { a with outcome := outcome, error := error }) with main := .waiting (i + 1) }

/-- `result.Status` -/
def verdict (rows : Fin n → Arrival) : Status :=
  if ∃ i, (rows i).outcome ≠ .accepted then .fail else .pass

/-- One step of one goroutine.  A reading `t` of the clock is not before an earlier one. -/
inductive Step (schedule : Schedule) (concurrency : ℕ) : Load n → List (LoadEvent n) → Load n → Prop where
  -- the schedule
  | cancel {s} (i : Fin n) (text : String) (hmain : s.main = .waiting i) :
      Step schedule concurrency s [] (s.skip i .canceled text)
  | wait {s} (i : Fin n) (t) (hmain : s.main = .waiting i) (hclock : s.now ≤ t) (hdue : s.dueAt schedule i ≤ t) :
      Step schedule concurrency s [] { s with main := .waited i, now := t }
  | miss {s} (i : Fin n) (t) (hmain : s.main = .waited i) (hclock : s.now ≤ t)
      (hexpired : s.Expired schedule i t) :
      Step schedule concurrency s [] ({ s with now := t }.skip i .missedDeadline "")
  | due {s} (i : Fin n) (t) (hmain : s.main = .waited i) (hclock : s.now ≤ t)
      (hexpired : ¬ s.Expired schedule i t) :
      Step schedule concurrency s [] { s with main := .due i, now := t }
  | full {s} (i : Fin n) (hmain : s.main = .due i) (hslots : ¬ s.slots < concurrency) :
      Step schedule concurrency s [] (s.skip i .capacityMissed "")
  | spawn {s} (i : Fin n) (hmain : s.main = .due i) (hslots : s.slots < concurrency) :
      Step schedule concurrency s []
        { s.setSender i .spawned with main := .waiting (i + 1), slots := s.slots + 1 }
  | join {s} (hmain : s.main = .waiting n) (hover : ∀ i, (s.senders i).holds = false) :
      Step schedule concurrency s [] { s with main := .returned (verdict s.rows) }
  -- the goroutine of a row
  | late {s} (i : Fin n) (t) (hsender : s.senders i = .spawned) (hclock : s.now ≤ t)
      (hexpired : s.Expired schedule (s.rows i).sequence t) :
      Step schedule concurrency s []
        (({ s with now := t }.setRow i (fun a => { a with outcome := .missedSendDeadline })).setSender i .returning)
  | send {s} (i : Fin n) (t) (hsender : s.senders i = .spawned) (hclock : s.now ≤ t)
      (hexpired : ¬ s.Expired schedule (s.rows i).sequence t) :
      Step schedule concurrency s [.sent i t]
        (({ s with now := t }.setRow i (fun a => a.started s.t0 t)).setSender i .sending)
  | reply {s} (i : Fin n) (status data err) (hsender : s.senders i = .sending) :
      Step schedule concurrency s [] (s.setSender i (.replied status data err))
  | finish {s} (i : Fin n) (status data err t) (hsender : s.senders i = .replied status data err)
      (hclock : s.now ≤ t) :
      Step schedule concurrency s []
        (({ s with now := t }.setRow i (fun a => a.finished (since t s.t0) status data err)).setSender i .returning)
  | release {s} (i : Fin n) (hsender : s.senders i = .returning) :
      Step schedule concurrency s [] { s.setSender i .ended with slots := s.slots - 1 }

end Load

end DurableEngine.Campaign
