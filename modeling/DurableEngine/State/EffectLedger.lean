/-
  DurableEngine.State.EffectLedger

  The ledger of the cooperating effect service (`internal/state/m4.go`):
  `ApplyEffect`, `RecordUnknownEffect` and `ResolveUnknownEffect`.

  `ApplyEffect` is four separate pieces of work: it checks the grant outside
  any transaction (`checkGrant`), looks the record up (`effectRecord`), finishes the
  transaction for the record it found (`settleExisting`) or for the record it
  missed (`applyMissing`), and marks the grant in a transaction of its own
  (`markGrantDispatched`).  Other transactions may commit between any two of
  them; the record that was missed may be there when `applyMissing` inserts it.
-/

import DurableEngine.State.Outbox

namespace DurableEngine.State

open Lib

-- ============================================================================
-- The grant
-- ============================================================================

structure EffectApplyInput where
  workflowID : String
  nodeID : String
  iteration : Int
  logicalEffectKey : String
  argumentHash : String
  attemptNumber : Int
  grantScopeHash : String
  expectedResourceRevision : String
  requestID : String
  resourceID : String
  fenceToken : Int
  state : RawMessage
  intentID : String
  grantToken : String

/-- The record the call is about. -/
def EffectApplyInput.key (input : EffectApplyInput) : EffectKey :=
  ⟨input.workflowID, input.logicalEffectKey⟩

def EffectApplyInput.node (input : EffectApplyInput) : NodeKey :=
  ⟨input.workflowID, input.nodeID, input.iteration⟩

/-- The intent was granted, whether or not its effect was dispatched. -/
def ApprovalIntent.isGranted (i : ApprovalIntent) : Bool :=
  i.dispatchStatus = .granted || i.dispatchStatus = .dispatched

/-- The intent whose grant the call carries. -/
def grantIntent (input : EffectApplyInput) (db : DB) : Except Err ApprovalIntent := do
  let id ← getOr (uuidText input.intentID) (.invalidText "")
  let token ← getOr (uuidText input.grantToken) (.invalidText "")
  getOr ((db.intents.get id).filter (fun i => i.grantToken = token && i.node = input.node))
    (.sentinel .grantInvalid)

/-- The checks of `ApplyEffect` before its transaction, at the wall clock `now`. -/
def checkGrant (now : Int) (input : EffectApplyInput) (db : DB) : Except Err Unit := do
  rejectIf (input.workflowID = "" ∨ input.nodeID = "" ∨ input.iteration < 0 ∨
      input.logicalEffectKey = "" ∨ input.argumentHash = "" ∨ input.requestID = "" ∨
      input.attemptNumber ≤ 0 ∨ input.resourceID = "" ∨ input.fenceToken ≤ 0)
    (.text "effect identity, request, resource, and fence are required")
  rejectIf (input.intentID = "" ∨ input.grantToken = "" ∨ input.grantScopeHash = "")
    (.sentinel .grantInvalid)
  rejectIf (!input.state.valid) (.text "effect state must be valid JSON")
  let intent ← grantIntent input db
  rejectIf (intent.decision ≠ .approved ∨ intent.isGranted = false ∨
    intent.grantScopeHash ≠ input.grantScopeHash ∨
    ¬ ∃ expiry ∈ intent.grantExpiresAt, now < expiry) (.sentinel .grantInvalid)
  rejectIf (input.expectedResourceRevision ≠ intent.expectedResourceRevision)
    (.sentinel .effectVersion)
  rejectIf (input.resourceID ≠ intent.target) (.sentinel .effectResource)
  let submitted ← canonicalPayloadHash input.state
  let approved ← canonicalPayloadHash (.json intent.canonicalArguments.doc)
  rejectIf (submitted ≠ approved ∨ input.argumentHash ≠ submitted) (.sentinel .effectArguments)
  rejectIf (grantScopeHash intent.proposalHash intent.expectedResourceRevision
    input.logicalEffectKey intent.target ≠ input.grantScopeHash) (.sentinel .grantInvalid)

/-- The intent after its effect was dispatched. -/
def ApprovalIntent.dispatch (i : ApprovalIntent) : ApprovalIntent :=
  { i with dispatchStatus := .dispatched }

/-- `markGrantDispatched`. -/
def markGrantDispatched (input : EffectApplyInput) (db : DB) : Except Err (Unit × DB) := do
  let id ← getOr (uuidText input.intentID) (.invalidText "")
  let token ← getOr (uuidText input.grantToken) (.invalidText "")
  let granted (i : ApprovalIntent) : Bool := i.grantToken = token && i.isGranted
  let _ ← getOr ((db.intents.get id).filter granted) (.sentinel .grantInvalid)
  return ((), { db with intents := db.intents.modify id (·.dispatch) (fun _ => rfl) })

-- ============================================================================
-- The effect transaction
-- ============================================================================

/-- How the effect transaction ended: with a new revision of the resource, with
    the record that was there, or with a refusal that is on record too. -/
inductive EffectReply where
  | applied (revision : Int)
  | duplicate
  | refused (e : Sentinel)
deriving DecidableEq, Repr

/-- `recordEffectCallTx`: a request id that was used keeps its row. -/
def DB.recordEffectCall (db : DB) (input : EffectApplyInput) (outcome : CallOutcome)
    (receipt : Option Jsonb) : DB :=
  match db.effects.calls.insert? ⟨⟨input.workflowID, input.requestID⟩, input.logicalEffectKey,
      input.argumentHash, input.attemptNumber, outcome, receipt⟩ with
  | some calls => { db with effects := { db.effects with calls := calls } }
  | none => db

/-- The record of the call's key, locked when it is there. -/
def effectRecord (input : EffectApplyInput) (db : DB) : Option EffectRecord :=
  db.effects.records.get input.key

/-- The rest of the transaction when the record is there. -/
def settleExisting (existing : EffectRecord) (input : EffectApplyInput) (db : DB) :
    EffectReply × DB :=
  if existing.argumentHash ≠ input.argumentHash ∨
      existing.grantScopeHash.getD "" ≠ input.grantScopeHash then
    (.refused .effectConflict, db.recordEffectCall input .conflict none)
  else if existing.outcome = .outcomeUnknown then
    (.refused .ambiguousEffect, db.recordEffectCall input .unknown none)
  else
    (.duplicate, db.recordEffectCall input .duplicate existing.receipt)

/-- Lock the fence of the resource, which starts at the call's token. -/
def DB.ensureFence (db : DB) (resourceID : String) (token : Int) : DB :=
  match db.effects.fences.insert? ⟨resourceID, token, token⟩ with
  | some fences => { db with effects := { db.effects with fences := fences } }
  | none => db

/-- The fence after it has seen the token. -/
def ResourceFence.raise (f : ResourceFence) (token : Int) : ResourceFence :=
  { f with nextToken := max f.nextToken token, observedToken := token }

def DB.raiseFence (db : DB) (resourceID : String) (token : Int) : DB :=
  { db with
    effects := { db.effects with
      fences := db.effects.fences.modify resourceID (·.raise token) (fun _ => rfl) } }

/-- The revision of the resource when it is the one that was approved. -/
def approvedRevision (input : EffectApplyInput) (db : DB) : Option Int :=
  match db.effects.sandbox.get input.resourceID with
  | none => if input.expectedResourceRevision = "0" then some 0 else none
  | some s =>
      if toString s.resourceRevision = input.expectedResourceRevision then some s.resourceRevision
      else none

/-- The empty document a resource starts with. -/
def emptyState : Jsonb := ⟨.obj [], by decide, by decide⟩

/-- Write the new state of the resource, which is created when it is missing. -/
def DB.mutateSandbox (db : DB) (resourceID : String) (state : Jsonb) (revision : Int) : DB :=
  let sandbox := (db.effects.sandbox.insert? ⟨resourceID, emptyState, 0⟩).getD db.effects.sandbox
  { db with
    effects := { db.effects with
      sandbox := sandbox.modify resourceID
        (fun s => { s with state := state, resourceRevision := revision }) (fun _ => rfl) } }

def effectReceipt (input : EffectApplyInput) (revision : Int) : Option Jsonb :=
  Jsonb.ofJson? (.obj [("logical_effect_key", .str input.logicalEffectKey),
    ("resource_id", .str input.resourceID), ("resource_revision", .num (.ofInt64 revision))])

/-- The mutation and its record. -/
def commitEffect (input : EffectApplyInput) (revision : Int) (db : DB) :
    Except Err (EffectReply × DB) := do
  let state ← getOr input.state.toJsonb (.invalidText "")
  let db := db.mutateSandbox input.resourceID state (revision + 1)
  let receipt ← getOr (effectReceipt input (revision + 1)) (.invalidText "")
  let intentID ← getOr (uuidText input.intentID) (.invalidText "")
  let records ← getOr (db.effects.records.insert? ⟨input.key, some intentID, input.argumentHash,
      input.attemptNumber, some input.grantScopeHash, some input.resourceID, .applied, some receipt⟩)
    (.constraint "" "effect_records_pkey")
  let db := { db with effects := { db.effects with records := records } }
  return (.applied (revision + 1), db.recordEffectCall input .applied (some receipt))

/-- The rest of the transaction when no record was found: fence, revision, mutation. -/
def applyMissing (input : EffectApplyInput) (db : DB) : Except Err (EffectReply × DB) := do
  let db := db.ensureFence input.resourceID input.fenceToken
  let fence ← getOr (db.effects.fences.get input.resourceID) (.noRows "")
  if input.fenceToken < fence.observedToken then
    return (.refused .effectFence, db.recordEffectCall input .rejected none)
  else
    let db := db.raiseFence input.resourceID input.fenceToken
    match approvedRevision input db with
    | none => .ok (.refused .effectVersion, db.recordEffectCall input .rejected none)
    | some revision => commitEffect input revision db

-- ============================================================================
-- Unknown outcomes
-- ============================================================================

structure UnknownEffectInput where
  workflowID : String
  logicalEffectKey : String
  argumentHash : String
  grantScopeHash : String
  attemptNumber : Int
deriving DecidableEq, Repr

def UnknownEffectInput.key (input : UnknownEffectInput) : EffectKey :=
  ⟨input.workflowID, input.logicalEffectKey⟩

/-- `RecordUnknownEffect`: a record that is there is returned as it is. -/
def recordUnknownEffect (input : UnknownEffectInput) (db : DB) : Except Err (EffectRecord × DB) := do
  rejectIf (input.workflowID = "" ∨ input.logicalEffectKey = "" ∨ input.argumentHash = "" ∨
    input.attemptNumber ≤ 0) (.text "unknown effect identity is required")
  let row : EffectRecord := ⟨input.key, none, input.argumentHash, input.attemptNumber,
    nullIfEmpty input.grantScopeHash, none, .outcomeUnknown, none⟩
  match db.effects.records.insert? row with
  | some records => .ok (row, { db with effects := { db.effects with records := records } })
  | none => do
      let existing ← getOr (db.effects.records.get input.key) (.noRows "")
      return (existing, db)

structure ResolveEffectInput where
  actorID : String
  workflowID : String
  logicalEffectKey : String
  argumentHash : String
  receipt : RawMessage
  abandon : Bool

def ResolveEffectInput.key (input : ResolveEffectInput) : EffectKey :=
  ⟨input.workflowID, input.logicalEffectKey⟩

def newerIntent (best : Option ApprovalIntent) (i : ApprovalIntent) : Option ApprovalIntent :=
  match best with
  | none => some i
  | some b => if b.createdAt < i.createdAt then some i else some b

/-- The newest intent of the workflow with the scope of the record. -/
def DB.scopeIntent (db : DB) (workflowID scope : String) : Option ApprovalIntent :=
  (db.intents.select (fun i => i.node.workflowID = workflowID && i.grantScopeHash = scope)).foldl
    newerIntent none

/-- The record after its effect was confirmed. -/
def EffectRecord.confirm (r : EffectRecord) (receipt : Option Jsonb) (intent : Option ApprovalIntent) :
    EffectRecord :=
  { r with
    outcome := .applied
    receipt := receipt
    intentID := match intent with
      | some i => some i.intentID
      | none => r.intentID
    resourceID := match intent with
      | some i => if i.target = "" then r.resourceID else some i.target
      | none => r.resourceID }

@[simp] theorem EffectRecord.confirm_key (r : EffectRecord) (receipt : Option Jsonb)
    (intent : Option ApprovalIntent) : (r.confirm receipt intent).key = r.key := rfl

/-- `ResolveUnknownEffect`; an abandoned outcome stays unknown, and the audit says so. -/
def resolveUnknownEffect (resolutionID : String) (input : ResolveEffectInput) (db : DB) :
    Except Err (Unit × DB) := do
  rejectIf (input.actorID = "" ∨ input.workflowID = "" ∨ input.logicalEffectKey = "" ∨
    input.argumentHash = "") (.text "effect resolution identity is required")
  rejectIf (input.abandon = false ∧ !input.receipt.valid)
    (.text "verified effect receipt is required")
  let existing ← getOr ((db.effects.records.get input.key).filter
    (fun r => r.argumentHash = input.argumentHash)) (.sentinel .effectNotFound)
  rejectIf (existing.outcome ≠ .outcomeUnknown) (.sentinel .effectConflict)
  let audit (disposition : ResolutionDisposition) (receipt : Option Jsonb) : EffectResolution :=
    ⟨resolutionID, input.key, input.argumentHash, input.actorID, disposition, receipt⟩
  if input.abandon then do
    let resolutions ← getOr (db.effects.resolutions.insert? (audit .abandonedUnknown none))
      (.constraint "" "effect_resolution_audit_pkey")
    return ((), { db with effects := { db.effects with resolutions := resolutions } })
  else do
    let receipt ← getOr input.receipt.toJsonb (.invalidText "")
    let scope := existing.grantScopeHash.getD ""
    let intent := if scope = "" then none else db.scopeIntent input.workflowID scope
    let records := db.effects.records.modify input.key (·.confirm (some receipt) intent)
      (fun r => r.confirm_key _ _)
    let resolutions ← getOr
      (db.effects.resolutions.insert? (audit .confirmedApplied (some receipt)))
      (.constraint "" "effect_resolution_audit_pkey")
    return ((), { db with
      effects := { db.effects with records := records, resolutions := resolutions } })

-- ============================================================================
-- What a call does to the ledger
-- ============================================================================

/-- The tables of the effect service, with the contents they have in `db'`. -/
def DB.effectFrame (db db' : DB) : DB := { db with effects := db'.effects }

/-- Fences stay, and what they have observed does not decrease. -/
def FencesKept (e e' : EffectTables) : Prop :=
  ∀ r f, e.fences.get r = some f →
    ∃ f', e'.fences.get r = some f' ∧ f.observedToken ≤ f'.observedToken

theorem FencesKept.of_eq {e e' : EffectTables} (h : e'.fences = e.fences) : FencesKept e e' :=
  fun _ f hf => ⟨f, by rw [h]; exact hf, Int.le_refl _⟩

/-- Records, resources and resolutions are untouched. -/
structure Refused (e e' : EffectTables) : Prop where
  records : e'.records = e.records
  sandbox : e'.sandbox = e.sandbox
  resolutions : e'.resolutions = e.resolutions
  fences : FencesKept e e'

/-- The record `ApplyEffect` writes. -/
structure EffectRecord.IsApplied (record : EffectRecord) (input : EffectApplyInput) : Prop where
  key : record.key = input.key
  outcome : record.outcome = .applied
  argumentHash : record.argumentHash = input.argumentHash
  grantScopeHash : record.grantScopeHash = some input.grantScopeHash
  resourceID : record.resourceID = some input.resourceID

/-- The revision of a resource; one that is missing is at 0. -/
def EffectTables.revision (e : EffectTables) (resourceID : String) : Int :=
  ((e.sandbox.get resourceID).map (·.resourceRevision)).getD 0

/-- The resource of the call was mutated to `revision`, with its record, under its token. -/
structure Mutated (e e' : EffectTables) (input : EffectApplyInput) (revision : Int) : Prop where
  record : ∃ record, Inserted e.records record e'.records ∧ record.IsApplied input
  next : revision = e.revision input.resourceID + 1
  stored : ∃ state, e'.sandbox.get input.resourceID = some ⟨input.resourceID, state, revision⟩
  other : ∀ r, r ≠ input.resourceID → e'.sandbox.get r = e.sandbox.get r
  resolutions : e'.resolutions = e.resolutions
  observed : ∀ f, e.fences.get input.resourceID = some f → f.observedToken ≤ input.fenceToken
  fence : ∃ f, e'.fences.get input.resourceID = some f ∧ f.observedToken = input.fenceToken
  fences : FencesKept e e'

/-- The key of a mutation had no record before it. -/
theorem Mutated.fresh {e e' : EffectTables} {input : EffectApplyInput} {revision : Int}
    (h : Mutated e e' input revision) : e.records.get input.key = none := by
  obtain ⟨record, hins, happlied⟩ := h.record
  rw [← happlied.key]
  exact (Table.insert?_eq_some_iff.mp hins).1

theorem Mutated.revision_eq {e e' : EffectTables} {input : EffectApplyInput} {revision : Int}
    (h : Mutated e e' input revision) (r : String) :
    e'.revision r = e.revision r + if input.resourceID = r then 1 else 0 := by
  unfold EffectTables.revision
  split
  · rename_i heq
    subst heq
    obtain ⟨state, hstored⟩ := h.stored
    rw [hstored]
    exact h.next
  · rename_i hne
    rw [h.other r (fun heq => hne heq.symm), Int.add_zero]

theorem DB.recordEffectCall_eq (db : DB) (input : EffectApplyInput) (outcome : CallOutcome)
    (receipt : Option Jsonb) : ∃ calls, db.recordEffectCall input outcome receipt =
      { db with effects := { db.effects with calls := calls } } := by
  unfold DB.recordEffectCall
  split <;> exact ⟨_, rfl⟩

theorem settleExisting_eq {existing : EffectRecord} {input : EffectApplyInput} {db db' : DB}
    {reply : EffectReply} (h : settleExisting existing input db = (reply, db')) :
    db' = db.effectFrame db' ∧ Refused db.effects db'.effects ∧
      ∀ revision, reply ≠ .applied revision := by
  have hcall : ∀ outcome receipt, db.recordEffectCall input outcome receipt = db' →
      db' = db.effectFrame db' ∧ Refused db.effects db'.effects := by
    intro outcome receipt heq
    obtain ⟨calls, hcalls⟩ := db.recordEffectCall_eq input outcome receipt
    rw [← heq, hcalls]
    exact ⟨rfl, rfl, rfl, rfl, .of_eq rfl⟩
  unfold settleExisting at h
  split at h
  · obtain ⟨rfl, heq⟩ := Prod.mk.inj h
    exact ⟨(hcall _ _ heq).1, (hcall _ _ heq).2, fun _ hr => nomatch hr⟩
  · split at h
    · obtain ⟨rfl, heq⟩ := Prod.mk.inj h
      exact ⟨(hcall _ _ heq).1, (hcall _ _ heq).2, fun _ hr => nomatch hr⟩
    · obtain ⟨rfl, heq⟩ := Prod.mk.inj h
      exact ⟨(hcall _ _ heq).1, (hcall _ _ heq).2, fun _ hr => nomatch hr⟩

/-- The fence of the resource after it was locked: as it was, or new at the call's token. -/
theorem DB.ensureFence_eq (db : DB) (resourceID : String) (token : Int) :
    ∃ fences, db.ensureFence resourceID token = { db with effects := { db.effects with
        fences := fences } } ∧
      (∃ f, fences.get resourceID = some f ∧
        (db.effects.fences.get resourceID = some f ∨
          db.effects.fences.get resourceID = none ∧ f.observedToken = token)) ∧
      ∀ r, r ≠ resourceID → fences.get r = db.effects.fences.get r := by
  unfold DB.ensureFence
  split
  · rename_i fences hins
    refine ⟨fences, rfl, ⟨_, Table.get_insert_self hins, .inr ⟨?_, rfl⟩⟩,
      fun r hne => Table.get_insert_ne hins hne⟩
    exact (Table.insert?_eq_some_iff.mp hins).1
  · rename_i hins
    obtain ⟨f, hf⟩ := Table.get_of_insert?_none hins
    exact ⟨_, rfl, ⟨f, hf, .inl hf⟩, fun _ _ => rfl⟩

/-- The resource after it was written. -/
theorem DB.mutateSandbox_eq (db : DB) (resourceID : String) (state : Jsonb) (revision : Int) :
    ∃ sandbox, db.mutateSandbox resourceID state revision = { db with effects := { db.effects with
        sandbox := sandbox } } ∧
      sandbox.get resourceID = some ⟨resourceID, state, revision⟩ ∧
      ∀ r, r ≠ resourceID → sandbox.get r = db.effects.sandbox.get r := by
  have hthere : ∃ s, ((db.effects.sandbox.insert? ⟨resourceID, emptyState, 0⟩).getD
        db.effects.sandbox).get resourceID = some s ∧
      ∀ r, r ≠ resourceID → ((db.effects.sandbox.insert? ⟨resourceID, emptyState, 0⟩).getD
        db.effects.sandbox).get r = db.effects.sandbox.get r := by
    cases hins : db.effects.sandbox.insert? ⟨resourceID, emptyState, 0⟩ with
    | some sandbox =>
        exact ⟨_, Table.get_insert_self hins, fun r hne => Table.get_insert_ne hins hne⟩
    | none =>
        obtain ⟨s, hs⟩ := Table.get_of_insert?_none hins
        exact ⟨s, hs, fun _ _ => rfl⟩
  obtain ⟨s, hs, hother⟩ := hthere
  refine ⟨_, rfl, ?_, fun r hne => ?_⟩
  · rw [Table.get_modify_of_get hs, if_pos rfl, ← Table.key_of_get hs]
  · rw [Table.get_modify_ne _ _ _ hne]
    exact hother r hne

theorem approvedRevision_eq {input : EffectApplyInput} {db : DB} {revision : Int}
    (h : approvedRevision input db = some revision) :
    revision = db.effects.revision input.resourceID := by
  unfold approvedRevision at h
  unfold EffectTables.revision
  split at h
  · rename_i hnone
    obtain ⟨-, heq⟩ := Option.ite_none_right_eq_some.mp h
    cases heq
    rw [hnone]
    rfl
  · rename_i s hs
    obtain ⟨-, heq⟩ := Option.ite_none_right_eq_some.mp h
    cases heq
    rw [hs]
    rfl

/-- The mutation itself. -/
theorem commitEffect_eq_ok {input : EffectApplyInput} {revision : Int} {db db' : DB}
    {reply : EffectReply} (h : commitEffect input revision db = .ok (reply, db')) :
    reply = .applied (revision + 1) ∧ db' = db.effectFrame db' ∧
      db'.effects.fences = db.effects.fences ∧ db'.effects.resolutions = db.effects.resolutions ∧
      (∃ record, Inserted db.effects.records record db'.effects.records ∧ record.IsApplied input) ∧
      (∃ state, db'.effects.sandbox.get input.resourceID =
        some ⟨input.resourceID, state, revision + 1⟩) ∧
      ∀ r, r ≠ input.resourceID → db'.effects.sandbox.get r = db.effects.sandbox.get r := by
  simp only [commitEffect, bind_eq_ok, getOr_eq_ok, pure_eq_ok] at h
  obtain ⟨state, -, receipt, -, intentID, -, records, hins, heq⟩ := h
  obtain ⟨sandbox, hmutate, hstored, hother⟩ :=
    db.mutateSandbox_eq input.resourceID state (revision + 1)
  rw [hmutate] at hins heq
  obtain ⟨calls, hcalls⟩ := DB.recordEffectCall_eq _ input .applied (some receipt)
  rw [hcalls] at heq
  cases heq
  exact ⟨rfl, rfl, rfl, rfl, ⟨_, hins, rfl, rfl, rfl, rfl, rfl⟩, ⟨state, hstored⟩, hother⟩

theorem applyMissing_eq_ok {input : EffectApplyInput} {db db' : DB} {reply : EffectReply}
    (h : applyMissing input db = .ok (reply, db')) : db' = db.effectFrame db' ∧
      ((∃ e, reply = .refused e) ∧ Refused db.effects db'.effects ∨
        ∃ revision, reply = .applied revision ∧
          Mutated db.effects db'.effects input revision) := by
  obtain ⟨fences, hensure, ⟨f, hf, hfrom⟩, hother⟩ :=
    db.ensureFence_eq input.resourceID input.fenceToken
  -- the fence that was locked is the one that was there, or one at the call's own token
  have hkept : FencesKept db.effects { db.effects with fences := fences } := by
    intro r f₀ hf₀
    by_cases hr : r = input.resourceID
    · subst hr
      obtain hsame | ⟨hnone, -⟩ := hfrom
      · rw [hf₀] at hsame
        cases hsame
        exact ⟨f, hf, Int.le_refl _⟩
      · rw [hf₀] at hnone
        cases hnone
    · exact ⟨f₀, (hother r hr).trans hf₀, Int.le_refl _⟩
  simp only [applyMissing, hensure, bind_eq_ok, getOr_eq_ok] at h
  obtain ⟨f', hf', h⟩ := h
  rw [hf] at hf'
  cases hf'
  split at h
  · obtain ⟨calls, hcalls⟩ := DB.recordEffectCall_eq _ input .rejected none
    rw [hcalls, pure_eq_ok] at h
    cases h
    exact ⟨rfl, .inl ⟨⟨_, rfl⟩, rfl, rfl, rfl, hkept⟩⟩
  · rename_i hle
    have hobserved : f.observedToken ≤ input.fenceToken := Int.not_lt.mp hle
    let raised := fences.modify input.resourceID (·.raise input.fenceToken) (fun _ => rfl)
    have hown : raised.get input.resourceID = some (f.raise input.fenceToken) :=
      (Table.get_modify_of_get hf (·.raise input.fenceToken) (fun _ => rfl) _).trans (if_pos rfl)
    have hraised : FencesKept db.effects { db.effects with fences := raised } := by
      intro r f₀ hf₀
      obtain ⟨f₁, hf₁, hle₁⟩ := hkept r f₀ hf₀
      by_cases hr : r = input.resourceID
      · subst hr
        rw [hf] at hf₁
        cases hf₁
        exact ⟨_, hown, Int.le_trans hle₁ hobserved⟩
      · exact ⟨f₁, (Table.get_modify_ne fences (·.raise input.fenceToken) (fun _ => rfl) hr).trans hf₁,
          hle₁⟩
    split at h
    · obtain ⟨calls, hcalls⟩ := DB.recordEffectCall_eq _ input .rejected none
      rw [hcalls] at h
      cases h
      exact ⟨rfl, .inl ⟨⟨_, rfl⟩, rfl, rfl, rfl, hraised⟩⟩
    · rename_i revision hrevision
      obtain ⟨rfl, hframe, hfences, hresolutions, hrecord, hstored, hrest⟩ := commitEffect_eq_ok h
      refine ⟨hframe, .inr ⟨_, rfl, hrecord, ?_, hstored, hrest, hresolutions, ?_, ?_, ?_⟩⟩
      · rw [approvedRevision_eq hrevision]
        rfl
      · intro f₀ hf₀
        obtain hsame | ⟨hnone, -⟩ := hfrom
        · rw [hf₀] at hsame
          cases hsame
          exact hobserved
        · rw [hf₀] at hnone
          cases hnone
      · refine ⟨f.raise input.fenceToken, ?_, rfl⟩
        rw [hfences]
        exact hown
      · intro r f₀ hf₀
        obtain ⟨f₁, hf₁, hle₁⟩ := hraised r f₀ hf₀
        exact ⟨f₁, by rw [hfences]; exact hf₁, hle₁⟩

/-- Records stay, with the arguments and the scope they were written with; an applied record does
    not change at all. -/
def RecordsKept (e e' : EffectTables) : Prop :=
  ∀ k r, e.records.get k = some r → ∃ r', e'.records.get k = some r' ∧
    r'.argumentHash = r.argumentHash ∧ r'.grantScopeHash = r.grantScopeHash ∧
    (r.outcome = .applied → r' = r)

theorem RecordsKept.of_eq {e e' : EffectTables} (h : e'.records = e.records) : RecordsKept e e' :=
  fun _ r hr => ⟨r, by rw [h]; exact hr, rfl, rfl, fun _ => rfl⟩

theorem RecordsKept.of_inserted {e e' : EffectTables} {record : EffectRecord}
    (h : Inserted e.records record e'.records) : RecordsKept e e' :=
  fun _ r hr => ⟨r, Table.get_insert_of_get h hr, rfl, rfl, fun _ => rfl⟩

/-- The evidence of an unknown outcome: fences and resources are untouched, and records kept. -/
structure Evidenced (e e' : EffectTables) : Prop where
  records : RecordsKept e e'
  sandbox : e'.sandbox = e.sandbox
  fences : e'.fences = e.fences

theorem recordUnknownEffect_eq_ok {input : UnknownEffectInput} {db db' : DB} {r : EffectRecord}
    (h : recordUnknownEffect input db = .ok (r, db')) :
    db' = db.effectFrame db' ∧ Evidenced db.effects db'.effects := by
  simp only [recordUnknownEffect, bind_eq_ok, rejectIf_eq_ok, exists_const] at h
  obtain ⟨-, h⟩ := h
  split at h
  · rename_i records hins
    cases h
    exact ⟨rfl, .of_inserted hins, rfl, rfl⟩
  · simp only [bind_eq_ok, getOr_eq_ok, pure_eq_ok] at h
    obtain ⟨existing, -, heq⟩ := h
    cases heq
    exact ⟨rfl, .of_eq rfl, rfl, rfl⟩

theorem resolveUnknownEffect_eq_ok {resolutionID : String} {input : ResolveEffectInput} {db db' : DB}
    {u : Unit} (h : resolveUnknownEffect resolutionID input db = .ok (u, db')) :
    db' = db.effectFrame db' ∧ Evidenced db.effects db'.effects := by
  simp only [resolveUnknownEffect, bind_eq_ok, rejectIf_eq_ok, getOr_eq_ok, exists_const,
    not_not] at h
  obtain ⟨-, -, existing, hexisting, hunknown, h⟩ := h
  split at h
  · simp only [bind_eq_ok, getOr_eq_ok, pure_eq_ok] at h
    obtain ⟨resolutions, -, heq⟩ := h
    cases heq
    exact ⟨rfl, .of_eq rfl, rfl, rfl⟩
  · simp only [bind_eq_ok, getOr_eq_ok, pure_eq_ok] at h
    obtain ⟨receipt, -, resolutions, -, heq⟩ := h
    cases heq
    refine ⟨rfl, fun k r hr => ?_, rfl, rfl⟩
    have hget := (Option.filter_eq_some_iff.mp hexisting).1
    by_cases hk : k = input.key
    · subst hk
      rw [hget] at hr
      cases hr
      refine ⟨_, Table.get_modify_of_get hget _ (fun r => r.confirm_key _ _) _ |>.trans (if_pos rfl),
        rfl, rfl, fun happlied => ?_⟩
      rw [hunknown] at happlied
      cases happlied
    · exact ⟨r, (Table.get_modify_ne _ _ (fun r => r.confirm_key _ _) hk).trans hr, rfl, rfl,
        fun _ => rfl⟩

/-- What marking a grant does: the intent of the call, which was granted, is dispatched. -/
structure Dispatched (db db' : DB) (id : String) (intent : ApprovalIntent) : Prop where
  frame : db' = { db with intents := db'.intents }
  granted : intent.isGranted = true
  row : db.intents.get id = some intent
  intents : ∀ k, db'.intents.get k =
    if k = id then some intent.dispatch else db.intents.get k

theorem markGrantDispatched_eq_ok {input : EffectApplyInput} {db db' : DB} {u : Unit}
    (h : markGrantDispatched input db = .ok (u, db')) : ∃ id intent, Dispatched db db' id intent := by
  simp only [markGrantDispatched, bind_eq_ok, getOr_eq_ok, pure_eq_ok] at h
  obtain ⟨id, -, token, -, intent, hintent, heq⟩ := h
  cases heq
  obtain ⟨hget, hp⟩ := Option.filter_eq_some_iff.mp hintent
  simp only [Bool.and_eq_true] at hp
  exact ⟨id, intent, rfl, hp.2, hget,
    Table.get_modify_of_get hget (·.dispatch) (fun _ => rfl)⟩

end DurableEngine.State
