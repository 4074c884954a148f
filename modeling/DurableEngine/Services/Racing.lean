/-
  DurableEngine.Services.Racing

  `ApplyEffect` statement by statement, with two calls for one effect in
  progress.

  The transaction runs at read committed.  A statement sees the committed rows
  and the rows of its own transaction; the rows a transaction has locked or
  inserted are released by its end.  The lookup of the record comes first and
  locks only a record that is there, so both calls may miss it; they are then
  in turn from the fence of the resource on.  The call that comes second has
  read no record and finds a revision that is no longer the approved one.
-/

import DurableEngine.Services.Approvals

namespace DurableEngine.Services

open Lib State

-- ============================================================================
-- Transactions
-- ============================================================================

/-- The rows that a transaction has written and not committed. -/
structure Writes where
  fence : Option ResourceFence
  sandbox : Option SandboxState
  record : Option EffectRecord
  call : Option State.EffectCall

namespace Writes

def empty : Writes := ⟨none, none, none, none⟩

/-- The committed database after the transaction. -/
def commit (w : Writes) (db : DB) : DB :=
  { db with
    effects := { db.effects with
      fences := w.fence.elim db.effects.fences db.effects.fences.put
      sandbox := w.sandbox.elim db.effects.sandbox db.effects.sandbox.put
      records := w.record.elim db.effects.records db.effects.records.put
      calls := w.call.elim db.effects.calls db.effects.calls.put } }

end Writes

/-- What a call is about to answer: the receipt of its own mutation, the one on record, or a refusal. -/
inductive CallReply where
  | applied (receipt : Jsonb)
  | duplicate (receipt : Option Jsonb)
  | refused (e : Sentinel)

namespace CallReply

/-- The outcome of the call's row. -/
def outcome : CallReply → CallOutcome
  | applied _ => .applied
  | duplicate _ => .duplicate
  | refused .effectConflict => .conflict
  | refused .ambiguousEffect => .unknown
  | refused _ => .rejected

/-- The receipt of the call's row. -/
def receipt : CallReply → Option Jsonb
  | applied receipt => some receipt
  | duplicate receipt => receipt
  | refused _ => none

end CallReply

/-- A call of `ApplyEffect` between two of its statements. -/
inductive CallPoint where
  /-- Next is the lookup of the grant. -/
  | arriving
  /-- Next is `SELECT … FROM effect_records … FOR UPDATE`. -/
  | looking
  /-- Next is `INSERT INTO effect_resource_fences … ON CONFLICT DO NOTHING`. -/
  | missed
  /-- Next is `SELECT observed_token … FOR UPDATE`. -/
  | ensured (inserted : Bool)
  /-- Next is `UPDATE effect_resource_fences`. -/
  | passed (inserted : Bool) (fence : ResourceFence)
  /-- Next is `SELECT resource_revision … FOR UPDATE`. -/
  | raised (fence : ResourceFence)
  /-- Next is `INSERT INTO sandbox_effect_state`, or its `UPDATE` when the row is there. -/
  | approved (fence : ResourceFence) (sandbox : Option SandboxState)
  /-- Next is `UPDATE sandbox_effect_state`. -/
  | created (fence : ResourceFence)
  /-- Next is `INSERT INTO effect_records`. -/
  | mutated (fence : ResourceFence) (sandbox : SandboxState)
  /-- Next is `INSERT INTO effect_call_attempts … ON CONFLICT DO NOTHING`. -/
  | answering (fenced : Bool) (writes : Writes) (reply : CallReply)
  /-- Next is the commit. -/
  | closing (fenced : Bool) (writes : Writes) (reply : CallReply)
  /-- Next is `UPDATE approval_action_intents`. -/
  | marking (reply : CallReply)
  /-- The call has returned. -/
  | ended (result : Except Err CallReply)

structure ServiceCall where
  input : EffectApplyInput
  point : CallPoint

namespace ServiceCall

/-- The fence that the call inserts. -/
def newFence (input : EffectApplyInput) : ResourceFence :=
  ⟨input.resourceID, input.fenceToken, input.fenceToken⟩

/-- What the call has written. -/
def writes (c : ServiceCall) : Writes :=
  match c.point with
  | .ensured true => { Writes.empty with fence := some (newFence c.input) }
  | .passed true fence => { Writes.empty with fence := some fence }
  | .raised fence | .approved fence _ => { Writes.empty with fence := some fence }
  | .created fence =>
      { Writes.empty with fence := some fence, sandbox := some ⟨c.input.resourceID, emptyState, 0⟩ }
  | .mutated fence sandbox => { Writes.empty with fence := some fence, sandbox := some sandbox }
  | .answering _ writes _ | .closing _ writes _ => writes
  | _ => .empty

/-- The call holds the lock of the fence, and with it the resource. -/
def locksFence (c : ServiceCall) : Bool :=
  match c.point with
  | .ensured inserted => inserted
  | .passed _ _ | .raised _ | .approved _ _ | .created _ | .mutated _ _ => true
  | .answering fenced _ _ | .closing fenced _ _ => fenced
  | _ => false

/-- The call holds the lock of the record it has found. -/
def locksRecord (c : ServiceCall) : Bool :=
  match c.point with
  | .answering fenced _ _ | .closing fenced _ _ => !fenced
  | _ => false

/-- The transaction of the call has looked up the record and not ended. -/
def isOpen (c : ServiceCall) : Bool :=
  match c.point with
  | .arriving | .looking | .marking _ | .ended _ => false
  | _ => true

/-- The next statement is the lookup of the record. -/
def isLooking (c : ServiceCall) : Bool :=
  match c.point with
  | .looking => true
  | _ => false

/-- The key of the call's row. -/
def rowKey (input : EffectApplyInput) : CallKey := ⟨input.workflowID, input.requestID⟩

/-- The call's row. -/
def row (input : EffectApplyInput) (reply : CallReply) : State.EffectCall :=
  ⟨rowKey input, input.logicalEffectKey, input.argumentHash, input.attemptNumber, reply.outcome,
    reply.receipt⟩

/-- The next statement waits for a row that the other call holds: a record or a fence it has
    locked, or a key it has inserted and not committed. -/
def waitsFor (c other : ServiceCall) (db : DB) : Bool :=
  match c.point with
  | .looking => (effectRecord c.input db).isSome && other.locksRecord && other.input.key = c.input.key
  | .missed => (db.effects.fences.get c.input.resourceID).isNone &&
      other.writes.fence.any (fun f => f.resourceID = c.input.resourceID)
  | .ensured _ => other.locksFence && other.input.resourceID = c.input.resourceID
  | .mutated _ _ => other.writes.record.any (fun r => r.key = c.input.key)
  | .answering _ _ _ => other.writes.call.any (fun r => r.key = rowKey c.input)
  | _ => false

/-- The answer for the record that was found. -/
def existingReply (record : EffectRecord) (input : EffectApplyInput) : CallReply :=
  if record.argumentHash ≠ input.argumentHash ∨ record.grantScopeHash.getD "" ≠ input.grantScopeHash then
    .refused .effectConflict
  else if record.outcome = .outcomeUnknown then .refused .ambiguousEffect
  else .duplicate record.receipt

/-- The fence that was locked has seen a later token, or lets the call pass. -/
def checkFence (c : ServiceCall) (inserted : Bool) (fence : ResourceFence) : CallPoint :=
  if c.input.fenceToken < fence.observedToken then .answering true c.writes (.refused .effectFence)
  else .passed inserted fence

/-- `UPDATE sandbox_effect_state`. -/
def mutate (input : EffectApplyInput) (fence : ResourceFence) (revision : Int) : CallPoint :=
  match input.state.toJsonb with
  | none => .ended (.error (.invalidText ""))
  | some state => .mutated fence ⟨input.resourceID, state, revision + 1⟩

/-- `INSERT INTO effect_records`. -/
def insertRecord (input : EffectApplyInput) (fence : ResourceFence) (sandbox : SandboxState) (db : DB) :
    CallPoint :=
  match effectReceipt input sandbox.resourceRevision, uuidText input.intentID,
      db.effects.records.get input.key with
  | some receipt, some id, none =>
      .answering true ⟨some fence, some sandbox, some (appliedRecord input id (some receipt)), none⟩
        (.applied receipt)
  | some _, some _, some _ => .ended (.error (.constraint "" "effect_records_pkey"))
  | _, _, _ => .ended (.error (.invalidText ""))

/-- The next statement of a call, once it need not wait, and the committed database after it; the
    statement of an arriving call reads the wall clock as well. -/
def exec (c : ServiceCall) (db : DB) : CallPoint × DB :=
  match c.point with
  | .arriving => (.arriving, db)
  | .looking =>
      match effectRecord c.input db with
      | some record => (.answering false .empty (existingReply record c.input), db)
      | none => (.missed, db)
  | .missed => (.ensured (db.effects.fences.get c.input.resourceID).isNone, db)
  | .ensured inserted =>
      match if inserted then some (newFence c.input) else db.effects.fences.get c.input.resourceID with
      | none => (.ended (.error (.noRows "")), db)
      | some fence => (c.checkFence inserted fence, db)
  | .passed _ fence => (.raised (fence.raise c.input.fenceToken), db)
  | .raised fence =>
      match approvedRevision c.input db with
      | none => (.answering true c.writes (.refused .effectVersion), db)
      | some _ => (.approved fence (db.effects.sandbox.get c.input.resourceID), db)
  | .approved fence none =>
      match db.effects.sandbox.get c.input.resourceID with
      | some _ => (.ended (.error (.constraint "" "sandbox_effect_state_pkey")), db)
      | none => (.created fence, db)
  | .approved fence (some sandbox) => (mutate c.input fence sandbox.resourceRevision, db)
  | .created fence => (mutate c.input fence 0, db)
  | .mutated fence sandbox => (insertRecord c.input fence sandbox db, db)
  | .answering fenced writes reply =>
      (.closing fenced { writes with
        call := if (db.effects.calls.get (rowKey c.input)).isNone then some (row c.input reply)
          else none } reply, db)
  | .closing _ writes (.refused e) => (.ended (.error (.sentinel e)), writes.commit db)
  | .closing _ writes reply => (.marking reply, writes.commit db)
  | .marking reply =>
      match markGrantDispatched c.input db with
      | .ok (_, db') => (.ended (.ok reply), db')
      | .error e => (.ended (.error e), db)
  | .ended result => (.ended result, db)

end ServiceCall

-- ============================================================================
-- Races
-- ============================================================================

inductive Caller where
  | first
  | second
deriving DecidableEq, Repr

def Caller.other : Caller → Caller
  | first => second
  | second => first

/-- The committed database and the two calls. -/
structure Race where
  db : DB
  call : Caller → ServiceCall

/-- What a race shows: a call that its first check refuses, and a call that looks up the record
    while the transaction of the other is open. -/
inductive RaceEvent where
  | refused (c : Caller)
  | overlapped (c : Caller)
deriving DecidableEq, Repr

namespace Race

/-- The race after a call has moved on. -/
def moved (s : Race) (c : Caller) (point : CallPoint) (db : DB) : Race :=
  ⟨db, Function.update s.call c { s.call c with point := point }⟩

/-- One statement of one of the calls. -/
inductive Step : Race → List RaceEvent → Race → Prop where
  | check (s : Race) (c : Caller) (now : Int) (arriving : (s.call c).point = .arriving)
      (h : checkGrant now (s.call c).input s.db = .ok ()) : Step s [] (s.moved c .looking s.db)
  | refuse (s : Race) (c : Caller) (now : Int) (e : Err) (arriving : (s.call c).point = .arriving)
      (h : checkGrant now (s.call c).input s.db = .error e) :
      Step s [.refused c] (s.moved c (.ended (.error e)) s.db)
  | exec (s : Race) (c : Caller) (started : (s.call c).point ≠ .arriving)
      (free : (s.call c).waitsFor (s.call c.other) s.db = false) :
      Step s (if (s.call c).isLooking && (s.call c.other).isOpen then [.overlapped c] else [])
        (s.moved c ((s.call c).exec s.db).1 ((s.call c).exec s.db).2)

/-- Any interleaving of the statements. -/
abbrev Run : Race → List RaceEvent → Race → Prop := Trace Step

end Race

-- ============================================================================
-- One effect
-- ============================================================================

/-- A call for the effect, with a request ID and an attempt number of its own. -/
def asRequest (e : EffectApplyInput) (requestID : String) (attemptNumber : Int) : EffectApplyInput :=
  { e with requestID := requestID, attemptNumber := attemptNumber }

/-- Two calls for the effect arrive. -/
def Race.start (db : DB) (e : EffectApplyInput) (requestID : Caller → String)
    (attemptNumber : Caller → Int) : Race :=
  ⟨db, fun c => ⟨asRequest e (requestID c) (attemptNumber c), .arriving⟩⟩

/-- A call that has missed the record can apply the effect, with the receipt. -/
structure Applies (e : EffectApplyInput) (db : DB) (receipt : Jsonb) : Prop where
  fence : ∀ f, db.effects.fences.get e.resourceID = some f → f.observedToken ≤ e.fenceToken
  fresh : effectRecord e db = none
  mutation : ∃ revision, approvedRevision e db = some revision ∧
    effectReceipt e (revision + 1) = some receipt
  stored : e.state.toJsonb.isSome = true
  intent : (uuidText e.intentID).isSome = true

/-- The fence lets the token pass. -/
def FenceOpen (e : EffectApplyInput) (db : DB) : Prop :=
  ∀ f, db.effects.fences.get e.resourceID = some f → f.observedToken ≤ e.fenceToken

/-- How a transaction that holds the fence ends: with its record, or with a refusal. -/
def Finishes (e : EffectApplyInput) (db : DB) (w : Writes) : CallReply → Prop
  | .applied receipt => Applies e db receipt ∧
      ∃ record, w.record = some record ∧ record.IsApplied e ∧ record.receipt = some receipt
  | .duplicate _ => False
  | .refused _ => w.sandbox = none ∧ w.record = none ∧ (approvedRevision e db = none ∨
      w.fence = none ∧ ∃ f, db.effects.fences.get e.resourceID = some f ∧ e.fenceToken < f.observedToken)

/-- The answer is that of the record. -/
def Answers (e : EffectApplyInput) (record : EffectRecord) : CallReply → Prop
  | .applied receipt => record.IsApplied e ∧ record.receipt = some receipt
  | .duplicate receipt => ServiceCall.existingReply record e = .duplicate receipt
  | .refused _ => False

/-- What a call at the point knows of the committed database. -/
def Holds (e : EffectApplyInput) (db : DB) : CallPoint → Prop
  | .ensured inserted => (db.effects.fences.get e.resourceID).isNone = inserted
  | .passed inserted fence => (db.effects.fences.get e.resourceID).isNone = inserted ∧
      fence.resourceID = e.resourceID ∧ FenceOpen e db
  | .raised fence => fence.resourceID = e.resourceID ∧ FenceOpen e db
  | .approved fence sandbox => fence.resourceID = e.resourceID ∧ FenceOpen e db ∧
      (approvedRevision e db).isSome = true ∧ sandbox = db.effects.sandbox.get e.resourceID
  | .created fence => fence.resourceID = e.resourceID ∧ FenceOpen e db ∧ approvedRevision e db = some 0
  | .mutated fence sandbox => fence.resourceID = e.resourceID ∧ FenceOpen e db ∧
      (∃ revision, approvedRevision e db = some revision ∧ sandbox.resourceRevision = revision + 1) ∧
      e.state.toJsonb.isSome = true
  | .answering false w reply | .closing false w reply =>
      (w.fence = none ∧ w.sandbox = none ∧ w.record = none) ∧
      ∃ record, effectRecord e db = some record ∧ reply = ServiceCall.existingReply record e
  | .answering true w reply | .closing true w reply =>
      ((∃ f, w.fence = some f ∧ f.resourceID = e.resourceID) ∨
        (db.effects.fences.get e.resourceID).isSome = true) ∧ Finishes e db w reply
  | .marking reply | .ended (.ok reply) => ∃ record, effectRecord e db = some record ∧ Answers e record reply
  | _ => True

-- ============================================================================
-- What a statement changes
-- ============================================================================

section Statements

variable {e : EffectApplyInput} {db db' : DB} {w : Writes} {p : CallPoint}

/-- The tables that a call's knowledge is about. -/
structure SameTables (db db' : DB) : Prop where
  fences : db'.effects.fences = db.effects.fences
  sandbox : db'.effects.sandbox = db.effects.sandbox
  records : db'.effects.records = db.effects.records

theorem SameTables.approvedRevision (h : SameTables db db') :
    approvedRevision e db' = State.approvedRevision e db := by
  unfold State.approvedRevision
  rw [h.sandbox]

theorem SameTables.effectRecord (h : SameTables db db') : effectRecord e db' = State.effectRecord e db := by
  unfold State.effectRecord
  rw [h.records]

theorem SameTables.applies (h : SameTables db db') {receipt : Jsonb} :
    Applies e db' receipt ↔ Applies e db receipt := by
  constructor
  · rintro ⟨hfence, hfresh, hmutation, hstored, hintent⟩
    rw [h.approvedRevision] at hmutation
    rw [h.effectRecord] at hfresh
    rw [h.fences] at hfence
    exact ⟨hfence, hfresh, hmutation, hstored, hintent⟩
  · rintro ⟨hfence, hfresh, hmutation, hstored, hintent⟩
    rw [← h.approvedRevision] at hmutation
    rw [← h.effectRecord] at hfresh
    rw [← h.fences] at hfence
    exact ⟨hfence, hfresh, hmutation, hstored, hintent⟩

theorem SameTables.holds_eq (h : SameTables db db') : Holds e db' p = Holds e db p := by
  have hfence : FenceOpen e db' = FenceOpen e db := by
    unfold FenceOpen
    rw [h.fences]
  have hfinishes : Finishes e db' = Finishes e db := by
    funext w reply
    cases reply with
    | applied receipt => exact congrArg (· ∧ _) (propext h.applies)
    | duplicate _ => rfl
    | refused _ => simp only [Finishes, h.approvedRevision, h.fences]
  unfold Holds
  split <;> simp only [hfence, hfinishes, h.fences, h.sandbox, h.approvedRevision, h.effectRecord]

/-- A transaction that has found the record writes its row only. -/
theorem SameTables.of_commit (hw : w.fence = none ∧ w.sandbox = none ∧ w.record = none) :
    SameTables db (w.commit db) := by
  obtain ⟨hfence, hsandbox, hrecord⟩ := hw
  refine ⟨?_, ?_, ?_⟩
  · simp only [Writes.commit, hfence, Option.elim_none]
  · simp only [Writes.commit, hsandbox, Option.elim_none]
  · simp only [Writes.commit, hrecord, Option.elim_none]

theorem Writes.commit_fences (w : Writes) (db : DB) (k : String) :
    (w.commit db).effects.fences.get k = if w.fence.any (fun f => f.resourceID = k) then w.fence
      else db.effects.fences.get k := by
  unfold Writes.commit
  cases w.fence with
  | none => rfl
  | some f =>
      simp only [Option.elim_some, Table.get_put, Option.any_some, decide_eq_true_eq, @eq_comm _ k]

theorem Writes.commit_records (w : Writes) (db : DB) (k : EffectKey) :
    (w.commit db).effects.records.get k = if w.record.any (fun r => r.key = k) then w.record
      else db.effects.records.get k := by
  unfold Writes.commit
  cases w.record with
  | none => rfl
  | some r =>
      simp only [Option.elim_some, Table.get_put, Option.any_some, decide_eq_true_eq, @eq_comm _ k]

theorem Writes.commit_calls (w : Writes) (db : DB) (k : CallKey) :
    (w.commit db).effects.calls.get k = if w.call.any (fun r => r.key = k) then w.call
      else db.effects.calls.get k := by
  unfold Writes.commit
  cases w.call with
  | none => rfl
  | some r =>
      simp only [Option.elim_some, Table.get_put, Option.any_some, decide_eq_true_eq, @eq_comm _ k]

/-- The fence of the resource stays. -/
theorem isSome_fence_of_commit {k : String} (h : (db.effects.fences.get k).isSome = true) :
    ((w.commit db).effects.fences.get k).isSome = true := by
  rw [Writes.commit_fences]
  split
  · rename_i hany
    cases hw : w.fence with
    | none =>
        rw [hw] at hany
        cases hany
    | some f => rfl
  · exact h

/-- A transaction that holds the fence leaves the effect applied for good, or refused for good. -/
theorem not_applies_of_finishes {reply : CallReply} (h : Finishes e db w reply) {receipt : Jsonb} :
    ¬ Applies e (w.commit db) receipt := by
  intro happlies
  cases reply with
  | applied receipt' =>
      obtain ⟨-, record, hrecord, happlied, -⟩ := h
      have hfresh := happlies.fresh
      unfold effectRecord at hfresh
      rw [Writes.commit_records, hrecord, Option.any_some, if_pos (decide_eq_true happlied.key)] at hfresh
      cases hfresh
  | duplicate _ => exact h
  | refused _ =>
      obtain ⟨hsandbox, hrecord, hrevision | ⟨hfence, f, hf, hlt⟩⟩ := h
      · obtain ⟨revision, happroved, -⟩ := happlies.mutation
        unfold approvedRevision at hrevision happroved
        simp only [Writes.commit, hsandbox, Option.elim_none] at happroved
        rw [hrevision] at happroved
        cases happroved
      · have hle := happlies.fence f (by
          rw [Writes.commit_fences, hfence, Option.any_none]
          exact hf)
        omega

/-- A record that is there stays as it is. -/
theorem effectRecord_of_commit {reply : CallReply} (h : Finishes e db w reply) {record : EffectRecord}
    (hrecord : effectRecord e db = some record) : effectRecord e (w.commit db) = some record := by
  cases reply with
  | applied receipt =>
      have hfresh := h.1.fresh
      rw [hrecord] at hfresh
      cases hfresh
  | duplicate _ => exact h.elim
  | refused _ =>
      unfold effectRecord at hrecord ⊢
      rw [Writes.commit_records, h.2.1, Option.any_none]
      exact hrecord

/-- What a call knows that does not hold the fence survives the commit of one that does. -/
theorem Holds.of_commit {reply : CallReply} (hp : Holds e db p) (h : Finishes e db w reply)
    {input : EffectApplyInput} (hlock : (ServiceCall.mk input p).locksFence = false) :
    Holds e (w.commit db) p := by
  cases p with
  | arriving | looking | missed => trivial
  | ensured inserted =>
      have hinserted : inserted = false := hlock
      subst hinserted
      have hsome : (db.effects.fences.get e.resourceID).isSome = true := by
        have hnone : (db.effects.fences.get e.resourceID).isNone = false := hp
        cases hget : db.effects.fences.get e.resourceID with
        | none =>
            rw [hget] at hnone
            cases hnone
        | some f => rfl
      have hsome' := @isSome_fence_of_commit db w e.resourceID hsome
      simp only [Holds]
      cases hget : (w.commit db).effects.fences.get e.resourceID with
      | none =>
          rw [hget] at hsome'
          cases hsome'
      | some f => rfl
  | passed | raised | approved | created | mutated => cases hlock
  | answering fenced w' reply' =>
      have hfenced : fenced = false := hlock
      subst hfenced
      obtain ⟨hempty, record, hrecord, hreply⟩ := hp
      exact ⟨hempty, record, effectRecord_of_commit h hrecord, hreply⟩
  | closing fenced w' reply' =>
      have hfenced : fenced = false := hlock
      subst hfenced
      obtain ⟨hempty, record, hrecord, hreply⟩ := hp
      exact ⟨hempty, record, effectRecord_of_commit h hrecord, hreply⟩
  | marking reply' =>
      obtain ⟨record, hrecord, hanswers⟩ := hp
      exact ⟨record, effectRecord_of_commit h hrecord, hanswers⟩
  | ended result =>
      cases result with
      | error e' => trivial
      | ok reply' =>
          obtain ⟨record, hrecord, hanswers⟩ := hp
          exact ⟨record, effectRecord_of_commit h hrecord, hanswers⟩

theorem approvedRevision_of_missing (hrevision : (approvedRevision e db).isSome = true)
    (hnone : db.effects.sandbox.get e.resourceID = none) : approvedRevision e db = some 0 := by
  unfold approvedRevision at hrevision ⊢
  rw [hnone] at hrevision ⊢
  dsimp only at hrevision ⊢
  split at hrevision
  · rename_i hexpected
    exact if_pos hexpected
  · cases hrevision

theorem approvedRevision_of_stored {sandbox : SandboxState}
    (hrevision : (approvedRevision e db).isSome = true)
    (hsandbox : db.effects.sandbox.get e.resourceID = some sandbox) :
    approvedRevision e db = some sandbox.resourceRevision := by
  unfold approvedRevision at hrevision ⊢
  rw [hsandbox] at hrevision ⊢
  dsimp only at hrevision ⊢
  split at hrevision
  · rename_i hexpected
    exact if_pos hexpected
  · cases hrevision

variable {requestID : String} {attemptNumber : Int}

/-- The statement that writes the resource. -/
theorem holds_mutate {fence : ResourceFence} {revision : Int} (hfence : fence.resourceID = e.resourceID)
    (hopen : FenceOpen e db) (hrevision : approvedRevision e db = some revision) :
    Holds e db (ServiceCall.mutate (asRequest e requestID attemptNumber) fence revision) := by
  unfold ServiceCall.mutate
  split
  · trivial
  · rename_i state hstate
    refine ⟨hfence, hopen, ⟨revision, hrevision, rfl⟩, ?_⟩
    rw [show e.state.toJsonb = some state from hstate]
    rfl

theorem holds_insertRecord {fence : ResourceFence} {sandbox : SandboxState}
    (hp : Holds e db (.mutated fence sandbox)) :
    Holds e db (ServiceCall.insertRecord (asRequest e requestID attemptNumber) fence sandbox db) := by
  obtain ⟨hfence, hopen, ⟨revision, hrevision, hnext⟩, hstate⟩ := hp
  unfold ServiceCall.insertRecord
  split
  · rename_i receipt id hreceipt hid hfresh
    have hreceipt : effectReceipt e (revision + 1) = some receipt := by
      rw [← hnext]
      exact hreceipt
    have hid : uuidText e.intentID = some id := hid
    refine ⟨.inl ⟨fence, rfl, hfence⟩, ⟨hopen, hfresh, ⟨revision, hrevision, hreceipt⟩, hstate, ?_⟩,
      _, rfl, ⟨rfl, rfl, rfl, rfl, rfl⟩, rfl⟩
    rw [hid]
    rfl
  · trivial
  · trivial

/-- What a call knows after its statement. -/
theorem holds_exec (hp : Holds e db p) :
    Holds e ((ServiceCall.mk (asRequest e requestID attemptNumber) p).exec db).2
      ((ServiceCall.mk (asRequest e requestID attemptNumber) p).exec db).1 := by
  cases p with
  | arriving => trivial
  | looking =>
      simp only [ServiceCall.exec]
      split
      · rename_i record hrecord
        exact ⟨⟨rfl, rfl, rfl⟩, record, hrecord, rfl⟩
      · trivial
  | missed => exact rfl
  | ensured inserted =>
      have hnone : (db.effects.fences.get e.resourceID).isNone = inserted := hp
      simp only [ServiceCall.exec]
      cases inserted with
      | true =>
          have hget : db.effects.fences.get e.resourceID = none := Option.isNone_iff_eq_none.mp hnone
          simp only [if_true, ServiceCall.checkFence]
          rw [if_neg (show ¬ (asRequest e requestID attemptNumber).fenceToken <
            (ServiceCall.newFence (asRequest e requestID attemptNumber)).observedToken from
            Int.lt_irrefl _)]
          refine ⟨hnone, rfl, fun f hf => ?_⟩
          rw [hget] at hf
          cases hf
      | false =>
          simp only [Bool.false_eq_true, if_false]
          split
          · trivial
          · rename_i f hf
            have hf : db.effects.fences.get e.resourceID = some f := hf
            simp only [ServiceCall.checkFence]
            split
            · rename_i hlt
              exact ⟨.inr (by rw [hf]; rfl), rfl, rfl, .inr ⟨rfl, f, hf, hlt⟩⟩
            · rename_i hle
              refine ⟨hnone, Table.key_of_get hf, fun f' hf' => ?_⟩
              cases hf.symm.trans hf'
              exact Int.not_lt.mp hle
  | passed inserted fence => exact ⟨hp.2.1, hp.2.2⟩
  | raised fence =>
      simp only [ServiceCall.exec]
      split
      · rename_i hrevision
        exact ⟨.inl ⟨fence, rfl, hp.1⟩, rfl, rfl, .inl hrevision⟩
      · rename_i revision hrevision
        refine ⟨hp.1, hp.2, ?_, rfl⟩
        rw [show approvedRevision e db = some revision from hrevision]
        rfl
  | approved fence sandbox =>
      obtain ⟨hfence, hopen, hrevision, hsandbox⟩ := hp
      cases sandbox with
      | none =>
          simp only [ServiceCall.exec]
          split
          · trivial
          · exact ⟨hfence, hopen, approvedRevision_of_missing hrevision hsandbox.symm⟩
      | some sandbox => exact holds_mutate hfence hopen (approvedRevision_of_stored hrevision hsandbox.symm)
  | created fence => exact holds_mutate hp.1 hp.2.1 hp.2.2
  | mutated fence sandbox => exact holds_insertRecord hp
  | answering fenced w reply =>
      cases fenced with
      | false => exact hp
      | true =>
          obtain ⟨hfence, hfinishes⟩ := hp
          refine ⟨hfence, ?_⟩
          cases reply <;> exact hfinishes
  | closing fenced w reply =>
      cases fenced with
      | false =>
          obtain ⟨hempty, record, hrecord, hreply⟩ := hp
          have hsame := @SameTables.of_commit db w hempty
          cases reply with
          | refused _ => trivial
          | duplicate receipt => exact ⟨record, hsame.effectRecord.trans hrecord, hreply.symm⟩
          | applied receipt =>
              unfold ServiceCall.existingReply at hreply
              split at hreply
              · cases hreply
              · split at hreply <;> cases hreply
      | true =>
          obtain ⟨-, hfinishes⟩ := hp
          cases reply with
          | refused _ => trivial
          | duplicate _ => exact hfinishes.elim
          | applied receipt =>
              obtain ⟨-, record, hrecord, happlied, hreceipt⟩ := hfinishes
              refine ⟨record, ?_, happlied, hreceipt⟩
              show (w.commit db).effects.records.get e.key = some record
              rw [Writes.commit_records, hrecord, Option.any_some, if_pos (decide_eq_true happlied.key)]
  | marking reply =>
      simp only [ServiceCall.exec]
      split
      · rename_i u db' hmark
        obtain ⟨id, i, -, hdispatched⟩ := markGrantDispatched_intent hmark
        have hsame : SameTables db db' := by
          rw [hdispatched.frame]
          exact ⟨rfl, rfl, rfl⟩
        obtain ⟨record, hrecord, hanswers⟩ := hp
        exact ⟨record, hsame.effectRecord.trans hrecord, hanswers⟩
      · trivial
  | ended result => exact hp

/-- The transaction of the call has ended. -/
def CallPoint.isPast : CallPoint → Bool
  | .marking _ | .ended _ => true
  | _ => false

/-- A transaction that ends leaves the effect applied for good, or refused for good. -/
theorem not_applies_exec (hp : Holds e db p) (hbefore : p.isPast = false)
    (hafter : ((ServiceCall.mk (asRequest e requestID attemptNumber) p).exec db).1.isPast = true)
    {receipt : Jsonb} :
    ¬ Applies e ((ServiceCall.mk (asRequest e requestID attemptNumber) p).exec db).2 receipt := by
  have hmutate : ∀ {fence : ResourceFence} {revision : Int},
      (ServiceCall.mutate (asRequest e requestID attemptNumber) fence revision).isPast = true →
      ¬ Applies e db receipt := by
    intro fence revision hpast happlies
    unfold ServiceCall.mutate at hpast
    split at hpast
    · rename_i hstate
      have hstored := happlies.stored
      rw [show e.state.toJsonb = none from hstate] at hstored
      cases hstored
    · cases hpast
  cases p with
  | arriving | missed | passed | answering => cases hafter
  | looking =>
      simp only [ServiceCall.exec] at hafter
      split at hafter <;> cases hafter
  | ensured inserted =>
      have hnone : (db.effects.fences.get e.resourceID).isNone = inserted := hp
      simp only [ServiceCall.exec] at hafter
      split at hafter
      · rename_i hget
        split at hget
        · cases hget
        · rename_i hinserted
          have hget : db.effects.fences.get e.resourceID = none := hget
          rw [hget] at hnone
          exact absurd hnone.symm hinserted
      · simp only [ServiceCall.checkFence] at hafter
        split at hafter <;> cases hafter
  | raised fence =>
      simp only [ServiceCall.exec] at hafter
      split at hafter <;> cases hafter
  | approved fence sandbox =>
      obtain ⟨-, -, -, hsandbox⟩ := hp
      cases sandbox with
      | none =>
          simp only [ServiceCall.exec] at hafter
          split at hafter
          · rename_i sandbox hget
            have hget : db.effects.sandbox.get e.resourceID = some sandbox := hget
            rw [hget] at hsandbox
            cases hsandbox
          · cases hafter
      | some sandbox => exact hmutate hafter
  | created fence => exact hmutate hafter
  | mutated fence sandbox =>
      obtain ⟨-, -, ⟨revision, hrevision, hnext⟩, -⟩ := hp
      intro happlies
      obtain ⟨revision', hrevision', hreceipt⟩ := happlies.mutation
      cases hrevision.symm.trans hrevision'
      rw [← hnext] at hreceipt
      obtain ⟨id, hid⟩ := Option.isSome_iff_exists.mp happlies.intent
      have hlookups : effectReceipt (asRequest e requestID attemptNumber) sandbox.resourceRevision =
          some receipt ∧ uuidText (asRequest e requestID attemptNumber).intentID = some id ∧
          db.effects.records.get (asRequest e requestID attemptNumber).key = none :=
        ⟨hreceipt, hid, happlies.fresh⟩
      simp only [ServiceCall.exec, ServiceCall.insertRecord, hlookups] at hafter
      cases hafter
  | closing fenced w reply =>
      have hcommit : ((ServiceCall.mk (asRequest e requestID attemptNumber)
          (.closing fenced w reply)).exec db).2 = w.commit db := by
        cases reply <;> rfl
      rw [hcommit]
      cases fenced with
      | false =>
          obtain ⟨hempty, record, hrecord, -⟩ := hp
          intro happlies
          have hfresh := happlies.fresh
          rw [(SameTables.of_commit hempty).effectRecord, hrecord] at hfresh
          cases hfresh
      | true => exact not_applies_of_finishes hp.2
  | marking | ended => cases hbefore

/-- A statement leaves the ledger as it is, or it commits. -/
theorem exec_effects (c : ServiceCall) (db : DB) : (c.exec db).2.effects = db.effects ∨
    ∃ fenced w reply, c.point = .closing fenced w reply ∧ (c.exec db).2 = w.commit db := by
  obtain ⟨input, p⟩ := c
  cases p with
  | arriving | missed | passed | created | mutated | answering | ended => exact .inl rfl
  | looking | ensured | raised =>
      simp only [ServiceCall.exec]
      split <;> exact .inl rfl
  | approved fence sandbox =>
      cases sandbox with
      | none =>
          simp only [ServiceCall.exec]
          split <;> exact .inl rfl
      | some sandbox => exact .inl rfl
  | closing fenced w reply => exact .inr ⟨fenced, w, reply, rfl, by cases reply <;> rfl⟩
  | marking reply =>
      simp only [ServiceCall.exec]
      split
      · rename_i u db' hmark
        obtain ⟨id, i, -, hdispatched⟩ := markGrantDispatched_intent hmark
        refine .inl ?_
        rw [hdispatched.frame]
      · exact .inl rfl

/-- A statement keeps the settled intents, but for marking one. -/
theorem exec_settledKept (c : ServiceCall) (db : DB) : SettledKept db (c.exec db).2 := by
  obtain ⟨input, p⟩ := c
  cases p with
  | arriving | missed | passed | created | mutated | answering | ended => exact .of_eq rfl
  | looking | ensured | raised =>
      simp only [ServiceCall.exec]
      split <;> exact .of_eq rfl
  | approved fence sandbox =>
      cases sandbox with
      | none =>
          simp only [ServiceCall.exec]
          split <;> exact .of_eq rfl
      | some sandbox => exact .of_eq rfl
  | closing fenced w reply => cases reply <;> exact .of_eq rfl
  | marking reply =>
      simp only [ServiceCall.exec]
      split
      · rename_i u db' hmark
        obtain ⟨id, i, -, hdispatched⟩ := markGrantDispatched_intent hmark
        exact .of_dispatched hdispatched
      · exact .of_eq rfl

/-- The call of a granted intent can mark it. -/
theorem markGrantDispatched_of_grants {input : EffectApplyInput}
    (h : ∃ i, db.intents.get i.intentID = some i ∧ Grants i input) :
    ∃ db', markGrantDispatched input db = .ok ((), db') := by
  obtain ⟨i, hi, hgrants⟩ := h
  have hgranted : (db.intents.get i.intentID).filter
      (fun j => j.grantToken = i.grantToken && j.isGranted) = some i := by
    rw [hi, Option.filter_some, if_pos]
    simp [(hgrants.covers none).settled.2]
  simp only [markGrantDispatched, hgrants.intentID, hgrants.token, getOr_some, ok_bind, hgranted]
  exact ⟨_, rfl⟩

end Statements

-- ============================================================================
-- Steps of a race
-- ============================================================================

namespace Caller

@[simp] theorem other_other (c : Caller) : c.other.other = c := by cases c <;> rfl

theorem other_ne (c : Caller) : c.other ≠ c := by cases c <;> decide

theorem eq_or_other (c d : Caller) : d = c ∨ d = c.other := by cases c <;> cases d <;> decide

end Caller

namespace Race

variable {s s' : Race} {events trace : List RaceEvent}

@[simp] theorem moved_db (s : Race) (c : Caller) (p : CallPoint) (db : DB) : (s.moved c p db).db = db := rfl

@[simp] theorem moved_self (s : Race) (c : Caller) (p : CallPoint) (db : DB) :
    (s.moved c p db).call c = ⟨(s.call c).input, p⟩ := Function.update_self ..

@[simp] theorem moved_other (s : Race) (c : Caller) (p : CallPoint) (db : DB) :
    (s.moved c p db).call c.other = s.call c.other := Function.update_of_ne c.other_ne ..

/-- A fact about each call after a move is one about the call that moved and one about the other. -/
theorem forall_moved {c : Caller} {p : CallPoint} {db : DB} {P : Caller → ServiceCall → Prop}
    (hself : P c ⟨(s.call c).input, p⟩) (hother : P c.other (s.call c.other)) :
    ∀ d, P d ((s.moved c p db).call d) := by
  intro d
  obtain rfl | rfl := c.eq_or_other d
  · rw [moved_self]
    exact hself
  · rw [moved_other]
    exact hother

/-- What holds of every race for the effect: each call knows its rows, at most one of them holds
    the fence, and a transaction that has ended has decided the effect. -/
structure Sound (e : EffectApplyInput) (requestID : Caller → String) (attemptNumber : Caller → Int)
    (trace : List RaceEvent) (s : Race) : Prop where
  input : ∀ c, (s.call c).input = asRequest e (requestID c) (attemptNumber c)
  locks : ∀ c, (s.call c).locksFence = true → (s.call c.other).locksFence = false
  holds : ∀ c, Holds e s.db (s.call c).point
  granted : ∀ c, (s.call c).point = .arriving ∨ (∃ e', (s.call c).point = .ended (.error e')) ∨
    ∃ i, s.db.intents.get i.intentID = some i ∧ Grants i (s.call c).input
  past : ∀ c, (s.call c).point.isPast = true →
    .refused c ∈ trace ∨ ∀ receipt, ¬ Applies e s.db receipt
  refused : ∀ c, .refused c ∈ trace → ∃ e', (s.call c).point = .ended (.error e')

variable {e : EffectApplyInput} {requestID : Caller → String} {attemptNumber : Caller → Int}

/-- A call that holds a fence which is not committed has written it. -/
theorem writes_fence_of_locks {input : EffectApplyInput} {p : CallPoint} {db : DB}
    (hinput : input.resourceID = e.resourceID) (hp : Holds e db p)
    (hlocks : (ServiceCall.mk input p).locksFence = true)
    (hnone : db.effects.fences.get e.resourceID = none) :
    (ServiceCall.mk input p).writes.fence.any (fun f => f.resourceID = e.resourceID) = true := by
  cases p with
  | arriving | looking | missed | marking | ended => cases hlocks
  | ensured inserted =>
      have hinserted : inserted = true := hlocks
      subst hinserted
      exact decide_eq_true hinput
  | passed inserted fence =>
      have hinserted : true = inserted := by
        rw [← hp.1, hnone]
        rfl
      subst hinserted
      exact decide_eq_true hp.2.1
  | raised | approved | created | mutated => exact decide_eq_true hp.1
  | answering fenced w reply | closing fenced w reply =>
      have hfenced : fenced = true := hlocks
      subst hfenced
      obtain ⟨f, hf, hresource⟩ | hsome := hp.1
      · show w.fence.any _ = true
        rw [hf]
        exact decide_eq_true hresource
      · rw [hnone] at hsome
        cases hsome

/-- A call that comes to hold the fence finds it free. -/
theorem Sound.locks_exec (hs : Sound e requestID attemptNumber trace s) {c : Caller}
    (hfree : (s.call c).waitsFor (s.call c.other) s.db = false)
    (hlocks : (ServiceCall.mk (s.call c).input ((s.call c).exec s.db).1).locksFence = true) :
    (s.call c.other).locksFence = false := by
  have hbefore := hs.locks c
  have hinput := hs.input c
  have hinput' := hs.input c.other
  have hother := hs.holds c.other
  generalize s.call c = x at *
  generalize s.call c.other = y at *
  obtain ⟨input, p⟩ := x
  obtain ⟨input', p'⟩ := y
  dsimp only at hinput hinput' hother
  subst hinput hinput'
  cases p with
  | arriving | ended => cases hlocks
  | looking =>
      simp only [ServiceCall.exec] at hlocks
      split at hlocks <;> cases hlocks
  | missed =>
      have hnone : s.db.effects.fences.get e.resourceID = none := Option.isNone_iff_eq_none.mp hlocks
      rw [Bool.eq_false_iff]
      intro hheld
      have hany := @writes_fence_of_locks e (asRequest e (requestID c.other) (attemptNumber c.other)) p' s.db
        rfl hother hheld hnone
      have hwaits : ((s.db.effects.fences.get e.resourceID).isNone && (ServiceCall.mk (asRequest e
          (requestID c.other) (attemptNumber c.other)) p').writes.fence.any
          (fun f => f.resourceID = e.resourceID)) = false := hfree
      rw [hnone, hany] at hwaits
      cases hwaits
  | ensured inserted =>
      have hwaits : ((ServiceCall.mk (asRequest e (requestID c.other) (attemptNumber c.other)) p').locksFence &&
          decide (e.resourceID = e.resourceID)) = false := hfree
      simpa using hwaits
  | passed | raised | approved | created | mutated => exact hbefore rfl
  | answering => exact hbefore hlocks
  | closing fenced w reply => cases reply <;> cases hlocks
  | marking reply =>
      simp only [ServiceCall.exec] at hlocks
      split at hlocks <;> cases hlocks

/-- A statement of one call leaves the other with what it knows. -/
theorem Sound.holds_other (hs : Sound e requestID attemptNumber trace s) (c : Caller) :
    Holds e ((s.call c).exec s.db).2 (s.call c.other).point := by
  have hother := hs.holds c.other
  obtain hsame | ⟨fenced, w, reply, hpoint, hcommit⟩ := exec_effects (s.call c) s.db
  · have htables : SameTables s.db ((s.call c).exec s.db).2 :=
      ⟨by rw [hsame], by rw [hsame], by rw [hsame]⟩
    rw [htables.holds_eq]
    exact hother
  · rw [hcommit]
    have hp := hs.holds c
    rw [hpoint] at hp
    cases fenced with
    | false =>
        rw [(SameTables.of_commit hp.1).holds_eq]
        exact hother
    | true =>
        have hlocked : (s.call c).locksFence = true := by
          unfold ServiceCall.locksFence
          rw [hpoint]
        exact hother.of_commit hp.2 (hs.locks c hlocked)

/-- A decided effect stays decided. -/
theorem Sound.not_applies_exec (hs : Sound e requestID attemptNumber trace s) (c : Caller)
    {receipt : Jsonb} (hnot : ¬ Applies e s.db receipt) : ¬ Applies e ((s.call c).exec s.db).2 receipt := by
  obtain hsame | ⟨fenced, w, reply, hpoint, hcommit⟩ := exec_effects (s.call c) s.db
  · have htables : SameTables s.db ((s.call c).exec s.db).2 :=
      ⟨by rw [hsame], by rw [hsame], by rw [hsame]⟩
    rw [htables.applies]
    exact hnot
  · have hp := hs.holds c
    rw [hpoint] at hp
    rw [hcommit]
    cases fenced with
    | false =>
        rw [(SameTables.of_commit hp.1).applies]
        exact hnot
    | true => exact not_applies_of_finishes hp.2

theorem Sound.exec (hs : Sound e requestID attemptNumber trace s) {c : Caller}
    (hstarted : (s.call c).point ≠ .arriving)
    (hfree : (s.call c).waitsFor (s.call c.other) s.db = false)
    (hevents : ∀ d, .refused d ∉ events) :
    Sound e requestID attemptNumber (trace ++ events)
      (s.moved c ((s.call c).exec s.db).1 ((s.call c).exec s.db).2) := by
  have hcall : s.call c = ⟨asRequest e (requestID c) (attemptNumber c), (s.call c).point⟩ := by
    rw [← hs.input c]
  have hkept := exec_settledKept (s.call c) s.db
  refine ⟨forall_moved (P := fun d x => x.input = asRequest e (requestID d) (attemptNumber d))
      (hs.input c) (hs.input c.other), fun d hlocks => ?_,
    forall_moved (P := fun _ x => Holds e ((s.call c).exec s.db).2 x.point) ?_ (hs.holds_other c),
    forall_moved (P := fun _ x => x.point = .arriving ∨ (∃ e', x.point = .ended (.error e')) ∨
      ∃ i, ((s.call c).exec s.db).2.intents.get i.intentID = some i ∧ Grants i x.input) ?_ ?_,
    fun d hpast => ?_, fun d hmem => ?_⟩
  · obtain rfl | rfl := c.eq_or_other d
    · rw [moved_self] at hlocks
      rw [moved_other]
      exact hs.locks_exec hfree hlocks
    · rw [moved_other] at hlocks
      rw [Caller.other_other, moved_self, Bool.eq_false_iff]
      intro hheld
      rw [hs.locks_exec hfree hheld] at hlocks
      cases hlocks
  · rw [hcall]
    exact holds_exec (hs.holds c)
  · obtain harriving | ⟨e', herror⟩ | hgrants := hs.granted c
    · exact absurd harriving hstarted
    · refine .inr (.inl ⟨e', ?_⟩)
      rw [hcall, herror]
      rfl
    · exact .inr (.inr (hkept.grants hgrants))
  · exact (hs.granted c.other).imp id (Or.imp id hkept.grants)
  · obtain rfl | rfl := c.eq_or_other d
    · rw [moved_self] at hpast
      by_cases hbefore : (s.call d).point.isPast = true
      · refine (hs.past d hbefore).imp (List.mem_append_left _) (fun hnot receipt => ?_)
        exact hs.not_applies_exec d (hnot receipt)
      · refine .inr (fun receipt => ?_)
        rw [hcall] at hpast ⊢
        exact Services.not_applies_exec (hs.holds d) (by simpa using hbefore) hpast
    · rw [moved_other] at hpast
      refine (hs.past _ hpast).imp (List.mem_append_left _) (fun hnot receipt => ?_)
      exact hs.not_applies_exec c (hnot receipt)
  · obtain hold | hnew := List.mem_append.mp hmem
    · obtain ⟨e', herror⟩ := hs.refused d hold
      obtain rfl | rfl := c.eq_or_other d
      · rw [moved_self, hcall, herror]
        exact ⟨e', rfl⟩
      · rw [moved_other]
        exact ⟨e', herror⟩
    · exact absurd hnew (hevents d)

/-- The first check of a call. -/
theorem Sound.arrive (hs : Sound e requestID attemptNumber trace s) {c : Caller} {p : CallPoint}
    (harriving : (s.call c).point = .arriving)
    (hp : p = .looking ∧ events = [] ∧ (∃ i, s.db.intents.get i.intentID = some i ∧
        Grants i (s.call c).input) ∨ (∃ e', p = .ended (.error e')) ∧ events = [.refused c]) :
    Sound e requestID attemptNumber (trace ++ events) (s.moved c p s.db) := by
  have hunlocked : ∀ input, (ServiceCall.mk input p).locksFence = false := by
    intro input
    obtain ⟨rfl, -⟩ | ⟨⟨e', rfl⟩, -⟩ := hp <;> rfl
  refine ⟨forall_moved (P := fun d x => x.input = asRequest e (requestID d) (attemptNumber d))
      (hs.input c) (hs.input c.other), fun d hlocks => ?_,
    forall_moved (P := fun _ x => Holds e s.db x.point) ?_ (hs.holds c.other),
    forall_moved (P := fun _ x => x.point = .arriving ∨ (∃ e', x.point = .ended (.error e')) ∨
      ∃ i, s.db.intents.get i.intentID = some i ∧ Grants i x.input) ?_ (hs.granted c.other),
    fun d hpast => ?_, fun d hmem => ?_⟩
  · obtain rfl | rfl := c.eq_or_other d
    · rw [moved_self, hunlocked] at hlocks
      cases hlocks
    · rw [Caller.other_other, moved_self]
      exact hunlocked _
  · obtain ⟨rfl, -⟩ | ⟨⟨e', rfl⟩, -⟩ := hp <;> trivial
  · obtain ⟨-, -, hgrants⟩ | ⟨herror, -⟩ := hp
    · exact .inr (.inr hgrants)
    · exact .inr (.inl herror)
  · obtain rfl | rfl := c.eq_or_other d
    · rw [moved_self] at hpast
      obtain ⟨rfl, -⟩ | ⟨-, rfl⟩ := hp
      · cases hpast
      · exact .inl (List.mem_append_right _ List.mem_cons_self)
    · rw [moved_other] at hpast
      exact (hs.past _ hpast).imp_left (List.mem_append_left _)
  · obtain hold | hnew := List.mem_append.mp hmem
    · obtain ⟨e', herror⟩ := hs.refused d hold
      obtain rfl | rfl := c.eq_or_other d
      · rw [harriving] at herror
        cases herror
      · rw [moved_other]
        exact ⟨e', herror⟩
    · obtain ⟨-, rfl, -⟩ | ⟨⟨e', rfl⟩, rfl⟩ := hp
      · cases hnew
      · obtain rfl := RaceEvent.refused.inj (List.mem_singleton.mp hnew)
        rw [moved_self]
        exact ⟨e', rfl⟩

theorem Step.sound (h : Step s events s') (hs : Sound e requestID attemptNumber trace s) :
    Sound e requestID attemptNumber (trace ++ events) s' := by
  cases h with
  | check c now harriving h => exact hs.arrive harriving (.inl ⟨rfl, rfl, grants_of_checkGrant h⟩)
  | refuse c now e' harriving h => exact hs.arrive harriving (.inr ⟨⟨e', rfl⟩, rfl⟩)
  | exec c hstarted hfree =>
      refine hs.exec hstarted hfree (fun d hmem => ?_)
      split at hmem
      · cases List.mem_singleton.mp hmem
      · cases hmem

end Race

end DurableEngine.Services
