/-
  DurableEngine.State.Statements

  What the repository's transactions share: the errors they return, the
  surroundings a call reads, payload formatting, and the helper statements of
  `internal/state` (`lockLease`, `insertHistory`, `insertOutbox`,
  `ensureRetryPolicyTx`, the admission gate).

  A helper maps the database of the running transaction to the next one or
  aborts; nothing is written by an aborted transaction.
-/

import DurableEngine.Lib.Sha256
import DurableEngine.Lib.Tx
import DurableEngine.State.Types

namespace DurableEngine.State

open Lib

-- ============================================================================
-- Errors
-- ============================================================================

/-- The package's error variables that the modelled operations return. -/
inductive Sentinel where
  | submissionConflict | leaseNotOwned | revisionConflict | invalidTransition
  | attemptNotCurrent | notTimedOut | staleClaim | claimRequestConflict | resultConflict
  | effectClassMismatch | missingEffectClass | partitionMismatch | resultNotConsumable
  | evidenceConflict | effectIdentityMismatch | workflowNotFound | nodeNotFound
  | definitionNotFound | unknownNode | workflowIDConflict | graphViolation
  | invalidAttemptState | checkpointConflict | checkpointStale | approvalNotFound
  | approvalConflict | approvalExpired | approvalUnauthorized | approvalMismatch
  | cancellationConflict | admissionLimit | admissionBackpressure | invalidEventType
  | outboxNotFound | eventConflict | relayClaimLost | invalidEvent
  | grantInvalid | effectConflict | effectResource | effectArguments | effectFence
  | effectVersion | effectNotFound | ambiguousEffect
  | backlogLimit | reconciliationNotFound
deriving DecidableEq, Repr

/-- An error: a sentinel with the detail it is wrapped with, a plain text, a
    row that is not there, a violated constraint, or a malformed literal. -/
inductive Err where
  | sentinel (e : Sentinel)
  | wrapped (e : Sentinel) (detail : String)
  | text (message : String)
  | noRows (context : String)
  | constraint (context name : String)
  | invalidText (context : String)
deriving DecidableEq, Repr

/-- `errors.Is`. -/
def Err.is (err : Err) (e : Sentinel) : Bool :=
  match err with
  | .sentinel e' | .wrapped e' _ => decide (e' = e)
  | _ => false

-- ============================================================================
-- Surroundings
-- ============================================================================

structure AdmissionGateConfig where
  maxActiveWorkflows : Int
  maxPendingOutbox : Int

/-- `AdmissionGateConfig.validate`. -/
def AdmissionGateConfig.validate (config : AdmissionGateConfig) : Except Err Unit := do
  rejectIf (config.maxActiveWorkflows < 0 ∨ config.maxPendingOutbox < 0)
    (.text "DUR-050 admission limits cannot be negative")
  rejectIf ((config.maxActiveWorkflows = 0) ≠ (config.maxPendingOutbox = 0))
    (.text "both DUR-050 admission limits must be zero (disabled) or positive")

/-- `AdmissionGateConfig.enabled`. -/
def AdmissionGateConfig.enabled (config : AdmissionGateConfig) : Bool :=
  decide (0 < config.maxActiveWorkflows ∧ 0 < config.maxPendingOutbox)

/-- The configuration of a deployment. -/
structure Env where
  admission : AdmissionGateConfig
  /-- `DUR048_ALLOW_FIXTURE_ACTIVITY=1`. -/
  allowSleepFixture : Bool
  /-- `DUR053_ALLOW_FIXTURE_ACTIVITY=1`. -/
  allowCPUFixture : Bool
  /-- `strconv.IsPrint`. -/
  isPrint : Char → Bool
  /-- The database's order of texts. -/
  collation : String → String → Bool

/-- What one call takes from outside the database: the identifiers `NewID`
    draws, none of them empty, and the caller's wall clock. -/
structure Ambient where
  eventID : String
  timerID : String
  claimToken : String
  intentID : String
  grantToken : String
  requestID : String
  evidenceID : String
  ownerID : String
  wallClock : Int
  named : ∀ id ∈ [eventID, timerID, claimToken, intentID, grantToken, requestID, evidenceID, ownerID],
    id ≠ ""

-- ============================================================================
-- Texts
-- ============================================================================

/-- The escape `%q` writes for `c` is one JSON knows. -/
def quoteValid (env : Env) (c : Char) : Bool :=
  let n := c.toNat
  (n = 8 || n = 9 || n = 10 || n = 12 || n = 13) ||
    (32 ≤ n && n ≠ 127 && (n < 0x10000 || env.isPrint c))

/-- `%q` of the text is a JSON string. -/
def quotable (env : Env) (s : String) : Bool := s.toList.all (quoteValid env)

/-- An argument of a payload format: `%q` or `%d`. -/
inductive Field where
  | quoted (s : String)
  | int (n : Int)

def Field.json : Field → Json
  | .quoted s => .str s
  | .int n => .num (.ofInt64 n)

def Field.quotable (env : Env) : Field → Bool
  | .quoted s => State.quotable env s
  | .int _ => true

/-- An object built by `fmt.Sprintf`, as the `jsonb` value it is stored as. -/
def sprintfJson (env : Env) (fields : List (String × Field)) : Option Jsonb :=
  if fields.all (fun f => f.2.quotable env) then
    Jsonb.ofJson? (.obj (fields.map (fun f => (f.1, f.2.json))))
  else none

/-- A raw message bound to a `jsonb` parameter. -/
def RawMessage.toJsonb : RawMessage → Option Jsonb
  | .json v => Jsonb.ofJson? v
  | _ => none

def RawMessage.isEmpty : RawMessage → Bool
  | .empty => true
  | _ => false

/-- `json.Valid`. -/
def RawMessage.valid : RawMessage → Bool
  | .json v => v.shallow
  | _ => false

/-- `{}` in place of a message without bytes. -/
def RawMessage.orEmptyObject : RawMessage → RawMessage
  | .empty => .json (.obj [])
  | m => m

def hexLower? (c : Char) : Option Char :=
  if '0' ≤ c ∧ c ≤ '9' then some c
  else if 'a' ≤ c ∧ c ≤ 'f' then some c
  else if 'A' ≤ c ∧ c ≤ 'F' then some c.toLower
  else none

/-- Read `n` hexadecimal bytes; a hyphen may follow every second byte but the last. -/
def uuidDigits : Nat → List Char → Option (List Char × List Char)
  | 0, cs => some ([], cs)
  | n + 1, a :: b :: cs => do
      let a ← hexLower? a
      let b ← hexLower? b
      let cs := if cs.head? = some '-' ∧ n % 2 = 0 ∧ n ≠ 0 then cs.tail else cs
      let (ds, rest) ← uuidDigits n cs
      some (a :: b :: ds, rest)
  | _ + 1, _ => none

/-- The digits in groups of 8, 4, 4, 4 and 12. -/
def uuidChars (ds : List Char) : List Char :=
  ds.take 8 ++ '-' :: (ds.drop 8).take 4 ++ '-' :: (ds.drop 12).take 4 ++
    '-' :: (ds.drop 16).take 4 ++ '-' :: ds.drop 20

/-- The text form of the `uuid` a literal denotes. -/
def uuidText (s : String) : Option String := do
  let cs := s.toList
  let braces := cs.head? = some '{'
  let (ds, rest) ← uuidDigits 16 (if braces then cs.tail else cs)
  if rest = (if braces then ['}'] else []) then some (String.ofList (uuidChars ds)) else none

example : uuidText "\x7bA0EEBC99-9C0B-4EF8-BB6D-6BB9BD380A11\x7d" =
    some "a0eebc99-9c0b-4ef8-bb6d-6bb9bd380a11" := by decide +kernel

theorem hexLower?_ascii {c d : Char} (h : hexLower? c = some d) : c.toNat < 128 := by
  have hle : c ≤ 'f' := by
    unfold hexLower? at h
    split at h
    · rename_i hc
      exact Char.le_trans hc.2 (by decide)
    · split at h
      · rename_i hc
        exact hc.2
      · split at h
        · rename_i hc
          exact Char.le_trans hc.2 (by decide)
        · cases h
  have hval : c.toNat ≤ 'f'.toNat := hle
  exact Nat.lt_of_le_of_lt hval (by decide)

/-- A hexadecimal digit is a digit of the text form. -/
theorem hexLower?_fixed {c d : Char} (h : hexLower? c = some d) :
    hexLower? d = some d ∧ d ≠ '-' ∧ d ≠ '{' := by
  have hall : ∀ n : Fin 128, (hexLower? (Char.ofNat n)).all
      (fun d => decide (hexLower? d = some d ∧ d ≠ '-' ∧ d ≠ '{')) = true := by decide +kernel
  have hdigit := hall ⟨c.toNat, hexLower?_ascii h⟩
  rw [Char.ofNat_toNat, h] at hdigit
  exact of_decide_eq_true hdigit

theorem uuidDigits_spec : ∀ {n : Nat} {cs ds rest : List Char}, uuidDigits n cs = some (ds, rest) →
    ds.length = 2 * n ∧ ∀ d ∈ ds, hexLower? d = some d ∧ d ≠ '-' ∧ d ≠ '{'
  | 0, cs, ds, rest, h => by
      cases h
      simp
  | n + 1, a :: b :: cs, ds, rest, h => by
      simp only [uuidDigits, Option.bind_eq_bind, Option.bind_eq_some_iff] at h
      obtain ⟨a', ha, b', hb, ⟨ds', rest'⟩, hrec, heq⟩ := h
      simp only [Option.some.injEq, Prod.mk.injEq] at heq
      obtain ⟨rfl, rfl⟩ := heq
      obtain ⟨hlen, hall⟩ := uuidDigits_spec hrec
      refine ⟨by simp [hlen]; omega, ?_⟩
      intro d hd
      rcases List.mem_cons.mp hd with rfl | hd
      · exact hexLower?_fixed ha
      · rcases List.mem_cons.mp hd with rfl | hd
        · exact hexLower?_fixed hb
        · exact hall d hd

/-- Two bytes of digits, with or without a hyphen after them. -/
theorem uuidDigits_block {n : Nat} {ds cs cs' es rest : List Char} (hlen : ds.length = 4)
    (hds : ∀ d ∈ ds, hexLower? d = some d ∧ d ≠ '-' ∧ d ≠ '{') (hn : n % 2 = 0)
    (hcs : cs' = '-' :: cs ∧ n ≠ 0 ∨ cs' = cs ∧ cs.head? ≠ some '-')
    (h : uuidDigits n cs = some (es, rest)) :
    uuidDigits (n + 2) (ds ++ cs') = some (ds ++ es, rest) := by
  match ds, hlen with
  | [a, b, c, d], _ =>
    simp only [List.forall_mem_cons] at hds
    obtain ⟨ha, hb, hc, hd, -⟩ := hds
    rcases hcs with ⟨rfl, hn0⟩ | ⟨rfl, hhead⟩
    · simp [uuidDigits, ha, hb, hc, hd, hn, hn0, h]
    · simp [uuidDigits, ha, hb, hc, hd, hn, hhead, h]

theorem uuidDigits_uuidChars {ds : List Char} (hlen : ds.length = 32)
    (hds : ∀ d ∈ ds, hexLower? d = some d ∧ d ≠ '-' ∧ d ≠ '{') :
    uuidDigits 16 (uuidChars ds) = some (ds, []) := by
  have hblock : ∀ i, ∀ d ∈ (ds.drop i).take 4, hexLower? d = some d ∧ d ≠ '-' ∧ d ≠ '{' :=
    fun i d hd => hds d (List.mem_of_mem_drop (List.mem_of_mem_take hd))
  have hfour : ∀ i, i ≤ 28 → ((ds.drop i).take 4).length = 4 := by
    intro i hi
    rw [List.length_take, List.length_drop, hlen]
    omega
  have hhead : ∀ i cs, i ≤ 28 → ((ds.drop i).take 4 ++ cs).head? ≠ some '-' := by
    intro i cs hi
    have hlen4 := hfour i hi
    cases hb : (ds.drop i).take 4 with
    | nil => rw [hb] at hlen4; cases hlen4
    | cons d bs => simpa using (hblock i d (by rw [hb]; exact List.mem_cons_self)).2.1
  have hcut : ∀ i, (ds.drop i).take 4 ++ ds.drop (i + 4) = ds.drop i := by
    intro i
    rw [← List.drop_drop, List.take_append_drop]
  -- reading backwards: the last three blocks stand together, a hyphen stands before each other one
  have hlast : uuidDigits 0 (ds.drop 32) = some (ds.drop 32, []) := by
    rw [List.drop_eq_nil_of_le (by omega)]
    rfl
  have hplain : ∀ i n, i ≤ 28 → i % 4 = 0 → n % 2 = 0 →
      uuidDigits n (ds.drop (i + 4)) = some (ds.drop (i + 4), []) →
      uuidDigits (n + 2) (ds.drop i) = some (ds.drop i, []) := by
    intro i n hi hmod hn h
    have hnext : (ds.drop (i + 4)).head? ≠ some '-' := by
      by_cases hi' : i + 4 ≤ 28
      · rw [← hcut (i + 4)]
        exact hhead (i + 4) _ hi'
      · rw [List.drop_eq_nil_of_le (by omega)]
        simp
    have h' := uuidDigits_block (hfour i hi) (hblock i) hn (.inr ⟨rfl, hnext⟩) h
    rwa [hcut] at h'
  have hsep : ∀ i n cs, i ≤ 28 → n % 2 = 0 → n ≠ 0 →
      uuidDigits n cs = some (ds.drop (i + 4), []) →
      uuidDigits (n + 2) ((ds.drop i).take 4 ++ '-' :: cs) = some (ds.drop i, []) := by
    intro i n cs hi hn hn0 h
    have h' := uuidDigits_block (hfour i hi) (hblock i) hn (.inl ⟨rfl, hn0⟩) h
    rwa [hcut] at h'
  have h20 := hplain 20 4 (by omega) rfl rfl (hplain 24 2 (by omega) rfl rfl
    (hplain 28 0 (by omega) rfl rfl hlast))
  have h4 := hsep 4 12 _ (by omega) rfl (by omega) (hsep 8 10 _ (by omega) rfl (by omega)
    (hsep 12 8 _ (by omega) rfl (by omega) (hsep 16 6 _ (by omega) rfl (by omega) h20)))
  have h0 := uuidDigits_block (hfour 0 (by omega)) (hblock 0) rfl
    (.inr ⟨rfl, hhead 4 _ (by omega)⟩) h4
  have htake : ds.take 8 = (ds.drop 0).take 4 ++ (ds.drop 4).take 4 := by
    rw [List.drop_zero, ← List.take_add]
  rw [hcut, List.drop_zero] at h0
  rw [uuidChars, htake]
  simpa only [List.append_assoc, List.cons_append, List.drop_zero] using h0

/-- The text form of a `uuid` denotes itself. -/
theorem uuidText_fixed {s t : String} (h : uuidText s = some t) : uuidText t = some t := by
  simp only [uuidText, Option.bind_eq_bind, Option.bind_eq_some_iff] at h
  obtain ⟨⟨ds, rest⟩, hdigits, h⟩ := h
  obtain ⟨-, ht⟩ := Option.ite_none_right_eq_some.mp h
  obtain ⟨hlen, hds⟩ := uuidDigits_spec hdigits
  have hchars : t.toList = uuidChars ds := by
    rw [← Option.some.inj ht, String.toList_ofList]
  have hhead : (uuidChars ds).head? ≠ some '{' := by
    cases ds with
    | nil => cases hlen
    | cons d ds => simpa [uuidChars] using (hds d List.mem_cons_self).2.2
  simp only [uuidText, hchars, hhead, if_false, uuidDigits_uuidChars hlen hds, Option.bind_eq_bind,
    Option.bind_some, if_true]
  exact ht
/-- `unicode.IsSpace`. -/
def isSpace (c : Char) : Bool :=
  let n := c.toNat
  (9 ≤ n && n ≤ 13) || n = 32 || n = 0x85 || n = 0xa0 || n = 0x1680 ||
    (0x2000 ≤ n && n ≤ 0x200a) || n = 0x2028 || n = 0x2029 || n = 0x202f || n = 0x205f || n = 0x3000

-- ============================================================================
-- Event registry
-- ============================================================================

def eventTopic : String := "durable-agent.events.v1"

def taskTopic : String := "durable-agent.tasks.v1"

/-- `eventDefinitions`: the topic of every event type. -/
def eventDefinitions : List (String × String) := [
  ("workflow.created", eventTopic), ("attempt.dispatch", taskTopic),
  ("attempt.redispatch", taskTopic), ("activity.result", eventTopic),
  ("workflow.result_consumed", eventTopic), ("graph.advanced", eventTopic),
  ("timer.scheduled", eventTopic), ("workflow.canceled", eventTopic),
  ("approval.requested", eventTopic), ("approval.decided", eventTopic),
  ("approval.granted", eventTopic), ("approval.rejected", eventTopic),
  ("cancellation.requested", eventTopic), ("effect.applied", eventTopic),
  ("reconciliation.required", eventTopic), ("reconciliation.resolved", eventTopic)]

/-- `EventTopicFor`. -/
def eventTopicFor (eventType : String) : Option String := eventDefinitions.lookup eventType

/-- `NormalizeResultEventType`. -/
def normalizeResultEventType (eventType : String) : String :=
  if eventType.toList.all isSpace then "activity.result" else eventType

-- ============================================================================
-- Single-row updates
-- ============================================================================

namespace DB

/-- `UPDATE workflow_executions SET state, revision WHERE workflow_id`. -/
def setWorkflow (db : DB) (workflowID : String) (state : WorkflowState) (revision : Int) : DB :=
  { db with
    workflows := db.workflows.modify workflowID
      (fun w => { w with state := state, revision := revision }) (fun _ => rfl) }

def modifyNode (db : DB) (k : NodeKey) (f : NodeInstance → NodeInstance)
    (hf : ∀ n, (f n).key = n.key := by intros; rfl) : DB :=
  { db with nodes := db.nodes.modify k f hf }

def modifyAttempt (db : DB) (k : AttemptKey) (f : Attempt → Attempt)
    (hf : ∀ a, (f a).key = a.key := by intros; rfl) : DB :=
  { db with attempts := db.attempts.modify k f hf }

def modifyTimer (db : DB) (id : String) (f : Timer → Timer)
    (hf : ∀ t, (f t).timerID = t.timerID := by intros; rfl) : DB :=
  { db with timers := db.timers.modify id f hf }

theorem get_setWorkflow (db : DB) (workflowID id : String) (s : WorkflowState) (r : Int) :
    (db.setWorkflow workflowID s r).workflows.get id =
      if id = workflowID then (db.workflows.get id).map (fun w => { w with state := s, revision := r })
      else db.workflows.get id := by
  rw [setWorkflow, Table.get_modify]

theorem get_modifyNode (db : DB) (k k' : NodeKey) (f : NodeInstance → NodeInstance)
    (hf : ∀ n, (f n).key = n.key) : (db.modifyNode k f hf).nodes.get k' =
      if k' = k then (db.nodes.get k').map f else db.nodes.get k' :=
  Table.get_modify _ _ _ _ hf

theorem get_modifyAttempt (db : DB) (k k' : AttemptKey) (f : Attempt → Attempt)
    (hf : ∀ a, (f a).key = a.key) : (db.modifyAttempt k f hf).attempts.get k' =
      if k' = k then (db.attempts.get k').map f else db.attempts.get k' :=
  Table.get_modify _ _ _ _ hf

theorem get_modifyTimer (db : DB) (id id' : String) (f : Timer → Timer)
    (hf : ∀ t, (f t).timerID = t.timerID) : (db.modifyTimer id f hf).timers.get id' =
      if id' = id then (db.timers.get id').map f else db.timers.get id' :=
  Table.get_modify _ _ _ _ hf

end DB

-- ============================================================================
-- Leases
-- ============================================================================

structure LeaseRef where
  partitionID : Int
  ownerID : String
  epoch : Int
deriving DecidableEq, Repr

structure Lease where
  partitionID : Int
  ownerID : String
  epoch : Int
  leaseExpiresAt : Int
deriving DecidableEq, Repr

def Lease.ref (lease : Lease) : LeaseRef := ⟨lease.partitionID, lease.ownerID, lease.epoch⟩

/-- The lease row that `ref` names is held by it at time `now`. -/
def LeaseRow.heldBy (row : LeaseRow) (ref : LeaseRef) (now : Int) : Prop :=
  row.ownerID = some ref.ownerID ∧ row.epoch = ref.epoch ∧
    ∃ expiry, row.leaseExpiresAt = some expiry ∧ now < expiry

/-- `lockLease`. -/
def lockLease (db : DB) (ref : LeaseRef) : Except Err Lease := do
  let row ← getOr (db.leases.get ref.partitionID) (.sentinel .leaseNotOwned)
  let owner ← getOr row.ownerID (.sentinel .leaseNotOwned)
  let expiry ← getOr row.leaseExpiresAt (.sentinel .leaseNotOwned)
  rejectIf (owner ≠ ref.ownerID ∨ row.epoch ≠ ref.epoch ∨ ¬ db.now < expiry)
    (.sentinel .leaseNotOwned)
  return ⟨ref.partitionID, owner, row.epoch, expiry⟩

/-- `ref` names the current lease of its partition. -/
def DB.leaseValid (db : DB) (ref : LeaseRef) : Prop :=
  ∃ row, db.leases.get ref.partitionID = some row ∧ row.heldBy ref db.now

theorem lockLease_eq_ok {db : DB} {ref : LeaseRef} {lease : Lease}
    (h : lockLease db ref = .ok lease) : db.leaseValid ref ∧ lease.ref = ref := by
  simp only [lockLease, bind_eq_ok, getOr_eq_ok, rejectIf_eq_ok, exists_const, pure_eq_ok] at h
  obtain ⟨row, hrow, owner, howner, expiry, hexpiry, hheld, rfl⟩ := h
  simp only [not_or, not_not] at hheld
  obtain ⟨rfl, hepoch, hnow⟩ := hheld
  exact ⟨⟨row, hrow, howner, hepoch, expiry, hexpiry, hnow⟩, by simp [Lease.ref, hepoch]⟩

theorem lockLease_of_valid {db : DB} {ref : LeaseRef} (h : db.leaseValid ref) :
    ∃ lease, lockLease db ref = .ok lease ∧ lease.ref = ref := by
  obtain ⟨row, hrow, howner, hepoch, expiry, hexpiry, hnow⟩ := h
  refine ⟨⟨ref.partitionID, ref.ownerID, row.epoch, expiry⟩, ?_, by simp [Lease.ref, hepoch]⟩
  have hheld : ¬ (ref.ownerID ≠ ref.ownerID ∨ row.epoch ≠ ref.epoch ∨ ¬ db.now < expiry) := by
    simp [hepoch, hnow]
  simp only [lockLease, hrow, howner, hexpiry, getOr_some, ok_bind, rejectIf_of_not _ hheld]
  rfl

-- ============================================================================
-- History and outbox
-- ============================================================================

/-- `insertHistory`; the schema refuses an empty actor and a revision that is taken. -/
def insertHistory (db : DB) (workflowID : String) (revision : Int) (actorKind actorID : String)
    (epoch : Option Int) (nodeID : String) (iteration attemptNumber : Option Int)
    (oldState : Option WorkflowState) (newState : WorkflowState) (reason : String) :
    Except Err DB := do
  rejectIf (actorID = "")
    (.constraint "insert transition history" "transition_history_actor_id_check")
  let history ← getOr
    (db.history.insert?
      ⟨⟨workflowID, revision⟩, actorKind, actorID, epoch, if nodeID = "" then none else some nodeID,
        iteration, attemptNumber, oldState, newState, reason⟩)
    (.constraint "insert transition history" "transition_history_workflow_id_revision_key")
  return { db with history := history }

/-- `insertOutbox`; `payload` is absent when its text is not JSON. -/
def insertOutbox (amb : Ambient) (db : DB) (workflowID : String) (revision : Int)
    (eventType : String) (payload : Option Jsonb) : Except Err DB := do
  let topic ← getOr (eventTopicFor eventType) (.wrapped .invalidEventType eventType)
  let payload ← getOr payload (.invalidText "insert outbox")
  let outbox ← getOr
    (db.outbox.insert? ⟨amb.eventID, workflowID, revision, eventType, topic, payload, .pending, 1, 0,
      none, none, db.now, none, db.now, none⟩)
    (.constraint "insert outbox" "outbox_pkey")
  return { db with outbox := outbox }

-- ============================================================================
-- Retry policies
-- ============================================================================

def defaultRetryBudget : Int := 3

/-- `ensureRetryPolicyTx`. -/
def ensureRetryPolicyTx (db : DB) (k : NodeKey) : DB :=
  match db.retryPolicies.insert? ⟨k, defaultRetryBudget, 0, none, 1⟩ with
  | some retryPolicies => { db with retryPolicies := retryPolicies }
  | none => db

/-- `retryPolicyTx`. -/
def retryPolicyTx (db : DB) (k : NodeKey) : Except Err (RetryPolicy × DB) := do
  let db := ensureRetryPolicyTx db k
  let policy ← getOr (db.retryPolicies.get k) (.noRows "")
  return (policy, db)

/-- The policy `retryPolicyTx` reads: the node's own, or the default one it inserts. -/
def DB.retryPolicyOf (db : DB) (k : NodeKey) : RetryPolicy :=
  (db.retryPolicies.get k).getD ⟨k, defaultRetryBudget, 0, none, 1⟩

-- ============================================================================
-- Admission gate
-- ============================================================================

/-- `isDur050Namespace`. -/
def isDur050Namespace (ns : String) : Bool := "dur050-".toList.isPrefixOf ns.toList

/-- `lockAdmissionNamespace`. -/
def lockAdmissionNamespace (env : Env) (ns : String) : Except Err Bool := do
  env.admission.validate
  return env.admission.enabled && isDur050Namespace ns

/-- `pendingOutboxCount`. -/
def pendingOutboxCount (db : DB) (ns : String) : Int :=
  (db.outbox.select (fun o =>
    (o.publishState = .pending || o.publishState = .claimed) &&
      (db.workflows.get o.workflowID).any (fun w => w.namespace_ = ns))).length

/-- `checkAdmissionCapacity`. -/
def checkAdmissionCapacity (env : Env) (db : DB) (ns : String) : Except Err Unit := do
  rejectIf (env.admission.maxActiveWorkflows ≤
      ((db.admissionSlots.select (fun s => s.namespace_ = ns)).length : Int))
    (.sentinel .admissionLimit)
  rejectIf (env.admission.maxPendingOutbox ≤ pendingOutboxCount db ns)
    (.sentinel .admissionBackpressure)

/-- `insertAdmissionSlot`. -/
def insertAdmissionSlot (db : DB) (ns workflowID : String) : Except Err DB := do
  let admissionSlots ← getOr (db.admissionSlots.insert? ⟨workflowID, ns⟩)
    (.constraint "reserve DUR-050 admission slot" "dur050_admission_slots_pkey")
  return { db with admissionSlots := admissionSlots }

/-- `releaseAdmissionSlotTx` deletes the slot of a workflow that turns terminal. -/
def releaseAdmissionSlotTx (env : Env) (db : DB) (ns workflowID : String)
    (oldState newState : WorkflowState) : Except Err DB :=
  if !env.admission.enabled || !isDur050Namespace ns || oldState.isTerminal
      || !newState.isTerminal then
    .ok db
  else do
    let owned : AdmissionSlot → Bool := fun s => s.workflowID = workflowID && s.namespace_ = ns
    rejectIf ((db.admissionSlots.select owned).length ≠ 1)
      (.text ("release DUR-050 admission slot: workflow " ++ workflowID ++ " has no active slot"))
    return { db with admissionSlots := db.admissionSlots.delete owned }

end DurableEngine.State
