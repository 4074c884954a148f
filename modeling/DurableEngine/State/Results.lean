/-
  DurableEngine.State.Results

  Results are written once.  A recorded result freezes its attempt, is logged
  by one history row with one event, is given back to every replay of its
  submission, and nothing submitted for a superseded attempt has an effect
  beyond one evidence row.

  Two inputs escape this.  A replay is compared with `jsonEqual`, which fails
  on a document that does not unmarshal (a number beyond `float64`), although
  `json.Valid` and the `jsonb` column accept it.  And `ApplyOwnerTransition`
  writes any reason it is given, also that of a recorded result.
-/

import DurableEngine.State.Fencing
import DurableEngine.State.NodeLife

namespace DurableEngine.State

open Lib

-- ============================================================================
-- The property
-- ============================================================================

/-- The row logs the recorded result of the attempt. -/
def TransitionRecord.isResultOf (k : AttemptKey) (row : TransitionRecord) : Bool :=
  row.reason = resultReason && row.key.workflowID = k.node.workflowID &&
    row.nodeID = some k.node.nodeID && row.iteration = some k.node.iteration &&
    row.attemptNumber = some k.number

/-- The rows that log a result of the attempt. -/
def DB.resultRows (db : DB) (k : AttemptKey) : List TransitionRecord :=
  db.history.select (·.isResultOf k)

def OutboxEvent.isAt (key : RevisionKey) (event : OutboxEvent) : Bool :=
  event.workflowID = key.workflowID && event.aggregateRevision = key.revision

/-- The events of a workflow at a revision. -/
def DB.eventsAt (db : DB) (key : RevisionKey) : List OutboxEvent :=
  db.outbox.select (OutboxEvent.isAt key)

/-- `json.Unmarshal` of the message into an `any` succeeds. -/
def RawMessage.decodes : RawMessage → Bool
  | .json v => v.decodes
  | _ => false

/-- The submission repeats the one that recorded the result of `a`: its claim
    token, outcome and an equal document, with a registered event type. -/
structure IsReplay (input : ResultInput) (a : Attempt) : Prop where
  key : input.key = a.key
  token : uuidText input.claimToken = a.claimToken
  outcome : input.attemptState = a.state
  payload : input.payload.orEmptyObject.toJsonb = a.result
  event : eventTopicFor (normalizeResultEventType input.eventType) ≠ none

/-- The replay is accepted with the stored result and writes nothing. -/
def AcceptsReplay (amb : Ambient) (input : ResultInput) (a : Attempt) (db : DB) : Prop :=
  ∃ result, a.result = some result ∧
    recordResultReceipt amb input db = .ok (⟨.accepted, a.key, a.state, .json result.doc⟩, db)

/-- The attempt is not the one its node waits for. -/
def Superseded (db : DB) (k : AttemptKey) (a : Attempt) : Prop :=
  a.isCurrent = false ∨ db.pointer k.node ≠ some k.number

/-- The database after a submission differs at most by one evidence row, and
    only for an attempt with an unknown outcome. -/
def OnlyEvidence (db : DB) (k : AttemptKey) (a : Attempt) (db' : DB) : Prop :=
  ∃ evidence, db' = { db with evidence := evidence } ∧
    (evidence = db.evidence ∨ a.outcomeDisposition = .outcomeUnknown ∧
      ∃ e, Inserted db.evidence e evidence ∧ e.attempt = k)

/-- Results are written once, from the state `db` to the later state `db'`. -/
structure WriteOnce (env : Env) (db db' : DB) : Prop where
  frozen : ∀ k a, db.attempts.get k = some a → a.state.isTerminal = true →
    ∃ a', db'.attempts.get k = some a' ∧ a'.state = a.state ∧ a'.result = a.result ∧
      a'.outcomeDisposition = a.outcomeDisposition
  logged : ∀ k a, db'.attempts.get k = some a → a.state.isTerminal = true →
    ∃ row event, db'.resultRows k = [row] ∧ db'.eventsAt row.key = [event]
  replay : ∀ k a, db'.attempts.get k = some a → a.state.isTerminal = true →
    ∀ amb input, IsReplay input a →
      (AcceptsReplay amb input a db' ↔ input.payload.orEmptyObject.decodes = true)
  late : ∀ k a, db'.attempts.get k = some a → Superseded db' k a →
    ∀ amb input, input.key = k →
      OnlyEvidence db' k a ((Op.recordResultReceipt input).exec env amb db').2

/-- The operation does not pass a transition off as a recorded result. -/
def Unforged (α : Type) (op : Op α) (_ : DB) : Prop :=
  match op with
  | .applyOwnerTransition input => input.reason ≠ resultReason
  | _ => True

-- ============================================================================
-- A recorded result is frozen
-- ============================================================================

theorem AttemptStep.frozen {a : Attempt} {o' : Option Attempt} (h : AttemptStep (some a) o')
    (hshape : AttemptShape a) (hterm : a.state.isTerminal = true) :
    ∃ a', o' = some a' ∧ a'.state = a.state ∧ a'.result = a.result ∧
      a'.outcomeDisposition = a.outcomeDisposition := by
  cases h with
  | same => exact ⟨a, rfl, rfl, rfl, rfl⟩
  | claimed _ token workerID requestID deadline hdisp =>
      rw [hdisp.2] at hterm
      cases hterm
  | extended _ deadline => exact ⟨_, rfl, rfl, rfl, rfl⟩
  | recorded _ outcome document _ hclaimed =>
      rw [hclaimed.2] at hterm
      cases hterm
  | timedOut _ hclaimed =>
      rw [hclaimed.2] at hterm
      cases hterm
  | canceled =>
      -- a terminal attempt is not current, and only current attempts are canceled
      have hcur : a.isCurrent ≠ true := by
        intro hcur
        rcases hshape.current.mp hcur with hs | hs <;> rw [hs] at hterm <;> cases hterm
      exact ⟨a, by rw [Attempt.cancel, if_neg hcur], rfl, rfl, rfl⟩

/-- A recorded result survives every run of the store. -/
theorem Reachable.frozen {env : Env} {db db' : DB} (h : Reachable env db)
    (hrun : Relation.ReflTransGen (Step env) db db') {k : AttemptKey} {a : Attempt}
    (ha : db.attempts.get k = some a) (hterm : a.state.isTerminal = true) :
    ∃ a', db'.attempts.get k = some a' ∧ a'.state = a.state ∧ a'.result = a.result ∧
      a'.outcomeDisposition = a.outcomeDisposition := by
  induction hrun with
  | refl => exact ⟨a, ha, rfl, rfl, rfl⟩
  | @tail db₁ db₂ hfirst hlast ih =>
      obtain ⟨a₁, ha₁, hstate, hresult, hdisp⟩ := ih
      cases hlast with
      | tick _ d => exact ⟨a₁, ha₁, hstate, hresult, hdisp⟩
      | commit amb op r hop =>
          have hreach : Reachable env db₁ := ⟨h.choose, h.choose_spec.trans hfirst⟩
          have hs := (Op.run_commit hop).change.attemptStep k
          rw [ha₁] at hs
          obtain ⟨a₂, ha₂, hstate₂, hresult₂, hdisp₂⟩ :=
            hs.frozen (hreach.attemptShape ha₁) (by rw [hstate]; exact hterm)
          exact ⟨a₂, ha₂, hstate₂.trans hstate, hresult₂.trans hresult, hdisp₂.trans hdisp⟩

-- ============================================================================
-- A recorded result is logged once
-- ============================================================================

/-- What a committed operation does to the outbox: nothing, or one event at
    the revision that its workflow gets. -/
theorem Change.outbox_cases {db db' : DB} {α : Type} {op : Op α} (h : Change db op db') :
    db'.outbox = db.outbox ∨ ∃ id w', Emits db db' id w'.revision ∧
      db'.workflows.get id = some w' ∧ ∀ w, db.workflows.get id = some w → w.revision < w'.revision := by
  have hmoves : ∀ {w newState row}, Moves db db' w newState row →
      Emits db db' w.workflowID (w.revision + 1) → ∃ id w', Emits db db' id w'.revision ∧
        db'.workflows.get id = some w' ∧
        ∀ w, db.workflows.get id = some w → w.revision < w'.revision := by
    intro w newState row hm he
    refine ⟨w.workflowID, { w with state := newState, revision := w.revision + 1 }, he, ?_, ?_⟩
    · rw [hm.get_workflow, if_pos rfl]
    · intro w₀ hw₀
      rw [hm.get, Option.some.injEq] at hw₀
      rw [← hw₀]
      exact Int.lt_succ _
  cases h with
  | idle rows => exact .inl rows.outbox
  | claimed c => exact .inl c.outbox
  | extended c => exact .inl c.outbox
  | owner c => exact .inl c.outbox
  | @created _ input w _ _ c =>
      have hid := c.workflow.1
      refine .inr ⟨input.workflowID, w, c.workflow.2.2 ▸ c.emits, ?_, ?_⟩
      · rw [← hid]
        exact Table.get_insert_self c.workflows
      · intro w₀ hw₀
        rw [← hid, (Table.insert?_eq_some_iff.mp c.workflows).1] at hw₀
        cases hw₀
  | recorded c => exact .inr (hmoves c.moves c.emits)
  | consumed c | attemptCreated c | redispatched c | expired c | replaced c | timerScheduled c
  | canceled c | advanced c | approvalRequested c | approvalGranted c | approvalRejected c =>
      obtain ⟨row, hm, -⟩ := c.advances.moves
      exact .inr (hmoves hm c.advances.emits)

/-- No event is later than its workflow. -/
def EventsBounded (db : DB) : Prop :=
  ∀ e, db.outbox.get e.eventID = some e →
    ∃ w, db.workflows.get e.workflowID = some w ∧ e.aggregateRevision ≤ w.revision

/-- Revisions of a workflow do not go back. -/
theorem Change.revision_mono {db db' : DB} {α : Type} {op : Op α} (h : Change db op db')
    {id : String} {w : Workflow} (hw : db.workflows.get id = some w) :
    ∃ w', db'.workflows.get id = some w' ∧ w.revision ≤ w'.revision := by
  obtain ⟨hsame, -⟩ | ⟨w₀, row, hins, -⟩ | ⟨w₀, s, row, hm⟩ := h.history_cases
  · exact ⟨w, by rw [hsame]; exact hw, le_refl _⟩
  · exact ⟨w, Table.get_insert_of_get hins hw, le_refl _⟩
  · rw [hm.get_workflow]
    split
    · rename_i hid
      rw [hid, hm.get, Option.some.injEq] at hw
      refine ⟨_, rfl, ?_⟩
      rw [← hw]
      exact Int.le_add_one (le_refl _)
    · exact ⟨w, hw, le_refl _⟩

theorem EventsBounded.change {db db' : DB} {α : Type} {op : Op α} (h : EventsBounded db)
    (hc : Change db op db') : EventsBounded db' := by
  have hold : ∀ e, db.outbox.get e.eventID = some e →
      ∃ w, db'.workflows.get e.workflowID = some w ∧ e.aggregateRevision ≤ w.revision := by
    intro e he
    obtain ⟨w, hw, hle⟩ := h e he
    obtain ⟨w', hw', hle'⟩ := hc.revision_mono hw
    exact ⟨w', hw', hle.trans hle'⟩
  intro e he
  obtain hsame | ⟨id, w', ⟨event, hins, hid, hrev, -⟩, hw', -⟩ := hc.outbox_cases
  · exact hold e (hsame ▸ he)
  · rw [Table.get_insert hins] at he
    split at he
    · rw [Option.some.injEq] at he
      exact ⟨w', by rw [← he, hid]; exact hw', by rw [← he, hrev]⟩
    · exact hold e he

theorem Reachable.eventsBounded {env : Env} {db : DB} (h : Reachable env db) :
    EventsBounded db := by
  refine h.induction (fun _ _ he => nomatch he) ?_
  intro db db' hi hs
  cases hs with
  | tick _ d => exact hi
  | commit amb op r hrun => exact hi.change (Op.run_commit hrun).change

/-- The events of a revision that the workflow has reached stay as they are. -/
theorem Change.eventsAt_eq {db db' : DB} {α : Type} {op : Op α} (h : Change db op db')
    {key : RevisionKey} {w : Workflow} (hw : db.workflows.get key.workflowID = some w)
    (hle : key.revision ≤ w.revision) : db'.eventsAt key = db.eventsAt key := by
  obtain hsame | ⟨id, w', ⟨event, hins, hid, hrev⟩, -, hlt⟩ := h.outbox_cases
  · rw [DB.eventsAt, hsame]
    rfl
  · rw [DB.eventsAt, Table.select_insert hins, if_neg]
    · rfl
    · intro hat
      simp only [OutboxEvent.isAt, Bool.and_eq_true, decide_eq_true_eq] at hat
      have := hlt w (by rw [← hid, hat.1]; exact hw)
      omega

/-- A committed operation records a result, or it logs none and no attempt
    gets one. -/
theorem Change.recorded_cases {db db' : DB} {α : Type} {op : Op α} (h : Change db op db')
    (hreason : Unforged α op db) :
    (∃ input w n a row document, Change.Recorded db input w n a row document db') ∨
      ((∀ k, db'.resultRows k = db.resultRows k) ∧
        ∀ k a', db'.attempts.get k = some a' → a'.state.isTerminal = true →
          ∃ a, db.attempts.get k = some a ∧ a.state.isTerminal = true) := by
  have hrows : ∀ {row : TransitionRecord}, Inserted db.history row db'.history →
      row.reason ≠ resultReason → ∀ k, db'.resultRows k = db.resultRows k := by
    intro row hins hne k
    rw [DB.resultRows, Table.select_insert hins, if_neg (by simp [TransitionRecord.isResultOf, hne])]
    rfl
  have hadv : ∀ {w newState}, Advances db db' w newState →
      ∀ k, db'.resultRows k = db.resultRows k := by
    intro w newState hadv
    obtain ⟨row, hm, hne⟩ := hadv.moves
    exact hrows hm.history hne
  have hsame : db'.attempts = db.attempts → ∀ k a', db'.attempts.get k = some a' →
      a'.state.isTerminal = true → ∃ a, db.attempts.get k = some a ∧ a.state.isTerminal = true := by
    intro heq k a' ha' hterm
    exact ⟨a', heq ▸ ha', hterm⟩
  have hcancel : ∀ a : Attempt, a.cancel.state.isTerminal = true → a.state.isTerminal = true := by
    intro a hterm
    unfold Attempt.cancel at hterm
    split at hterm
    · cases hterm
    · exact hterm
  have hmodify : ∀ {f : Attempt → Attempt} {hf key}, db'.attempts =
      (db.modifyAttempt key f hf).attempts →
      (∀ a, (f a).state.isTerminal = true → a.state.isTerminal = true) →
      ∀ k a', db'.attempts.get k = some a' → a'.state.isTerminal = true →
        ∃ a, db.attempts.get k = some a ∧ a.state.isTerminal = true := by
    intro f hf key heq hstate k a' ha' hterm
    rw [heq, DB.get_modifyAttempt] at ha'
    split at ha'
    · obtain ⟨a, ha, rfl⟩ := Option.map_eq_some_iff.mp ha'
      exact ⟨a, ha, hstate a hterm⟩
    · exact ⟨a', ha', hterm⟩
  cases h with
  | idle rows =>
      exact .inr ⟨fun k => by rw [DB.resultRows, rows.history]; rfl, hsame rows.attempts⟩
  | recorded c => exact .inl ⟨_, _, _, _, _, _, c⟩
  | created c => exact .inr ⟨hrows c.history c.reason, hsame c.attempts⟩
  | consumed c | timerScheduled c | advanced c | approvalRequested c | approvalGranted c
  | approvalRejected c => exact .inr ⟨hadv c.advances, hsame c.attempts⟩
  | owner c =>
      refine .inr ⟨hrows c.moves.history (by rw [c.reason]; exact hreason), ?_⟩
      intro k a' ha' hterm
      rw [c.attempts, moveOwnedNode_attempts] at ha'
      split at ha'
      · obtain ⟨a, ha, rfl⟩ := Option.map_eq_some_iff.mp ha'
        exact ⟨a, ha, hcancel a hterm⟩
      · exact ⟨a', ha', hterm⟩
  | claimed c =>
      exact .inr ⟨fun k => by rw [DB.resultRows, c.history]; rfl,
        hmodify c.attempts (fun a hterm => by cases hterm)⟩
  | extended c =>
      exact .inr ⟨fun k => by rw [DB.resultRows, c.history]; rfl,
        hmodify c.attempts (fun a hterm => hterm)⟩
  | redispatched c => exact .inr ⟨hadv c.advances, hmodify c.attempts (fun a hterm => hterm)⟩
  | expired c =>
      exact .inr ⟨hadv c.advances, hmodify c.attempts (fun a hterm => by cases hterm)⟩
  | attemptCreated c =>
      refine .inr ⟨hadv c.advances, ?_⟩
      intro k a' ha' hterm
      rw [Table.get_insert c.attempts] at ha'
      split at ha'
      · cases ha'
        cases hterm
      · exact ⟨a', ha', hterm⟩
  | replaced c =>
      refine .inr ⟨hadv c.advances, ?_⟩
      intro k a' ha' hterm
      rw [Table.get_insert c.attempts, DB.get_modifyAttempt] at ha'
      split at ha'
      · cases ha'
        cases hterm
      · split at ha'
        · obtain ⟨a, -, rfl⟩ := Option.map_eq_some_iff.mp ha'
          cases hterm
        · exact ⟨a', ha', hterm⟩
  | canceled c =>
      refine .inr ⟨hadv c.advances, ?_⟩
      intro k a' ha' hterm
      rw [c.attempts] at ha'
      obtain ⟨a, ha, rfl⟩ := Option.map_eq_some_iff.mp ha'
      refine ⟨a, ha, ?_⟩
      split at hterm
      · exact hcancel a hterm
      · exact hterm

/-- The log of results: one row and one event for each recorded result, no
    row for any other attempt. -/
structure ResultLog (db : DB) : Prop where
  pending : ∀ k, (∀ a, db.attempts.get k = some a → a.state.isTerminal = false) →
    db.resultRows k = []
  recorded : ∀ k a, db.attempts.get k = some a → a.state.isTerminal = true →
    (k.node.workflowID ≠ "" ∧ k.node.nodeID ≠ "") ∧
      ∃ row event, db.resultRows k = [row] ∧ db.eventsAt row.key = [event]

theorem Change.Recorded.isResultOf_iff {db db' : DB} {input : ResultInput} {w : Workflow}
    {n : NodeInstance} {a : Attempt} {row : TransitionRecord} {document : Jsonb}
    (c : Change.Recorded db input w n a row document db') (k : AttemptKey) :
    row.isResultOf k = true ↔ k = input.key := by
  obtain ⟨hnode, hiter, hnumber⟩ := c.subject
  obtain ⟨⟨workflowID, nodeID, iteration⟩, number⟩ := k
  simp only [TransitionRecord.isResultOf, c.reason, c.moves.key, c.workflow, hnode, hiter, hnumber,
    ResultInput.key, Bool.and_eq_true, decide_eq_true_eq, Option.some.injEq, AttemptKey.mk.injEq,
    NodeKey.mk.injEq]
  constructor
  · rintro ⟨⟨⟨⟨-, h₁⟩, h₂⟩, h₃⟩, h₄⟩
    exact ⟨⟨h₁.symm, h₂.symm, h₃.symm⟩, h₄.symm⟩
  · rintro ⟨⟨h₁, h₂, h₃⟩, h₄⟩
    exact ⟨⟨⟨⟨trivial, h₁.symm⟩, h₂.symm⟩, h₃.symm⟩, h₄.symm⟩

/-- The row and the event of a result that is being recorded. -/
theorem Change.Recorded.logs {db db' : DB} {input : ResultInput} {w : Workflow}
    {n : NodeInstance} {a : Attempt} {row : TransitionRecord} {document : Jsonb}
    (c : Change.Recorded db input w n a row document db') (hlog : ResultLog db)
    (hevents : EventsBounded db) :
    ∃ event, db'.resultRows input.key = [row] ∧ db'.eventsAt row.key = [event] := by
  obtain ⟨event, hins, hid, hrev, -⟩ := c.emits
  have hnone : db.resultRows input.key = [] := by
    refine hlog.pending _ (fun b hb => ?_)
    rw [c.attempt, Option.some.injEq] at hb
    rw [← hb, c.isClaimed.2]
    rfl
  have hquiet : db.eventsAt row.key = [] := by
    rw [DB.eventsAt, Table.select, List.filter_eq_nil_iff]
    intro e he hat
    simp only [OutboxEvent.isAt, c.moves.key, Bool.and_eq_true, decide_eq_true_eq] at hat
    obtain ⟨w', hw', hle⟩ := hevents e (Table.get_of_mem he)
    rw [hat.1, c.moves.get, Option.some.injEq] at hw'
    rw [hat.2, ← hw'] at hle
    omega
  refine ⟨event, ?_, ?_⟩
  · rw [DB.resultRows, Table.select_insert c.moves.history, if_pos ((c.isResultOf_iff _).mpr rfl)]
    exact congrArg (· ++ [row]) hnone
  · rw [DB.eventsAt, Table.select_insert hins, if_pos (by simp [OutboxEvent.isAt, c.moves.key, *])]
    exact congrArg (· ++ [event]) hquiet

/-- A row with its event keeps it. -/
theorem Change.logged_persists {db db' : DB} {α : Type} {op : Op α} (h : Change db op db')
    (hhist : HistoryComplete db) {k : AttemptKey} {row : TransitionRecord} {event : OutboxEvent}
    (hrows : db.resultRows k = [row]) (hevents : db.eventsAt row.key = [event]) :
    db'.eventsAt row.key = [event] := by
  have hmem : row ∈ db.resultRows k := by
    rw [hrows]
    exact List.mem_singleton_self row
  obtain ⟨w, hw, hle⟩ := hhist.revision_le (Table.get_of_mem (Table.mem_select.mp hmem).1)
  rw [h.eventsAt_eq hw hle]
  exact hevents

theorem ResultLog.change {db db' : DB} {α : Type} {op : Op α} (h : ResultLog db)
    (hc : Change db op db') (hreason : Unforged α op db)
    (hshape : ∀ k a, db.attempts.get k = some a → AttemptShape a) (hhist : HistoryComplete db)
    (hevents : EventsBounded db) : ResultLog db' := by
  -- a terminal attempt of `db` is terminal in `db'` too
  have hforward : ∀ k a, db.attempts.get k = some a → a.state.isTerminal = true →
      ∃ a', db'.attempts.get k = some a' ∧ a'.state = a.state := by
    intro k a ha hterm
    obtain ⟨a', ha', hstate, -⟩ := (ha ▸ hc.attemptStep k).frozen (hshape k a ha) hterm
    exact ⟨a', ha', hstate⟩
  have hpending : ∀ k, (∀ a, db'.attempts.get k = some a → a.state.isTerminal = false) →
      db.resultRows k = [] := by
    intro k hnone
    refine h.pending k (fun a ha => ?_)
    by_contra hterm
    rw [Bool.not_eq_false] at hterm
    obtain ⟨a', ha', hstate⟩ := hforward k a ha hterm
    have := hnone a' ha'
    rw [hstate, hterm] at this
    cases this
  have hkeep : ∀ k a, db.attempts.get k = some a → a.state.isTerminal = true →
      db'.resultRows k = db.resultRows k → (k.node.workflowID ≠ "" ∧ k.node.nodeID ≠ "") ∧
        ∃ row event, db'.resultRows k = [row] ∧ db'.eventsAt row.key = [event] := by
    intro k a ha hterm hsame
    obtain ⟨hnamed, row, event, hrow, hevent⟩ := h.recorded k a ha hterm
    exact ⟨hnamed, row, event, hsame.trans hrow, hc.logged_persists hhist hrow hevent⟩
  obtain ⟨input, w, n, a, row, document, c⟩ | ⟨hrows, hback⟩ := hc.recorded_cases hreason
  · have hother : ∀ k, k ≠ input.key → db'.resultRows k = db.resultRows k := by
      intro k hk
      rw [DB.resultRows, Table.select_insert c.moves.history,
        if_neg (fun hr => hk ((c.isResultOf_iff k).mp hr))]
      rfl
    constructor
    · intro k hnone
      rw [hother k, hpending k hnone]
      rintro rfl
      have hnew := hnone _ (by rw [c.attempts, DB.get_modifyAttempt, if_pos rfl, c.attempt]; rfl)
      rw [c.outcome] at hnew
      cases hnew
    · intro k b hb hterm
      by_cases hk : k = input.key
      · rw [hk]
        obtain ⟨event, hlogs⟩ := c.logs h hevents
        exact ⟨c.named, row, event, hlogs⟩
      · rw [c.attempts, DB.get_modifyAttempt, if_neg hk] at hb
        exact hkeep k b hb hterm (hother k hk)
  · constructor
    · intro k hnone
      rw [hrows k, hpending k hnone]
    · intro k a' ha' hterm
      obtain ⟨a, ha, hterm'⟩ := hback k a' ha' hterm
      exact hkeep k a ha hterm' (hrows k)

theorem ReachableIf.resultLog {env : Env} {db : DB} (h : ReachableIf env Unforged db) :
    ResultLog db := by
  refine h.induction (fun _ => ⟨fun _ _ => rfl, fun _ _ ha => nomatch ha⟩) ?_
  intro db db' hreach hi hs
  cases hs with
  | tick _ d => exact ⟨hi.pending, hi.recorded⟩
  | commit amb op r hrun hreason =>
      exact hi.change (Op.run_commit hrun).change hreason
        (fun _ _ ha => hreach.reachable.attemptShape ha) hreach.reachable.historyComplete
        hreach.reachable.eventsBounded

-- ============================================================================
-- Replays and late results
-- ============================================================================

/-- A document that was stored is equal to itself exactly when it unmarshals. -/
theorem jsonEqual_stored_iff {v : Json} {r : Jsonb} (h : Jsonb.ofJson? v = some r) :
    Json.jsonEqual r.doc v = true ↔ v.decodes = true := by
  rw [Jsonb.doc_of_ofJson? h]
  constructor
  · intro heq
    simp only [Json.jsonEqual, Bool.and_eq_true] at heq
    exact heq.1.2
  · intro hdec
    exact Json.jsonEqual_jsonb (Json.jsonEqual_self hdec)

theorem valid_of_recordResultReceipt {amb : Ambient} {input : ResultInput} {db : DB}
    {r : ResultReceipt × DB} (h : recordResultReceipt amb input db = .ok r) :
    input.payload.orEmptyObject.valid = true := by
  simp only [recordResultReceipt, bind_eq_ok, rejectIf_eq_ok, exists_const] at h
  obtain ⟨-, -, -, hvalid, -⟩ := h
  simpa using hvalid

/-- A submission for an attempt with a recorded result is compared with it. -/
theorem recordResultReceipt_replay (amb : Ambient) {input : ResultInput} {db : DB} {w : Workflow}
    {n : NodeInstance} {a : Attempt} {v : Json} {result : Jsonb}
    (hnamed : input.workflowID ≠ "" ∧ input.nodeID ≠ "")
    (hw : db.workflows.get input.workflowID = some w)
    (hn : db.nodes.get input.key.node = some n) (ha : db.attempts.get input.key = some a)
    (htoken : uuidText input.claimToken = a.claimToken) (hsome : a.claimToken.isSome = true)
    (houtcome : input.attemptState = a.state) (hterm : a.state.isTerminal = true)
    (hcurrent : a.isCurrent = false) (hresult : a.result = some result)
    (hpayload : input.payload.orEmptyObject = .json v) (hshallow : v.shallow = true)
    (hevent : eventTopicFor (normalizeResultEventType input.eventType) ≠ none) :
    recordResultReceipt amb input db =
      if Json.jsonEqual result.doc v = true then
        .ok (⟨.accepted, input.key, a.state, .json result.doc⟩, db)
      else .error (.sentinel .resultConflict) := by
  obtain ⟨token, htok⟩ := Option.isSome_iff_exists.mp hsome
  rw [htok] at htoken
  have hclaim : input.claimToken ≠ "" := by
    intro he
    rw [he, show uuidText "" = none from rfl] at htoken
    cases htoken
  have hargs : ¬ (input.workflowID = "" ∨ input.nodeID = "" ∨ input.claimToken = "") := by
    simp [hnamed.1, hnamed.2, hclaim]
  have hvalid : ¬ (!(RawMessage.json v).valid) = true := by simp [RawMessage.valid, hshallow]
  have hterm' : ¬ (!a.state.isTerminal) = true := by simp [hterm]
  have hsettle : recordResultReceipt amb input db =
      settleResult amb input (.json v) (normalizeResultEventType input.eventType) token w n a db := by
    simp only [recordResultReceipt, rejectIf_of_not _ hargs, houtcome, rejectIf_of_not _ hterm',
      rejectIf_of_not _ hevent, hpayload, rejectIf_of_not _ hvalid, hw, hn, htoken, ha, htok,
      getOr_some, ok_bind, ne_eq, not_true_eq_false, rejectIf_of_not _ not_false]
  rw [hsettle, settleResult, if_pos (by simp [hcurrent, hterm])]
  simp only [houtcome, hresult, payloadEqual, ne_eq, not_true_eq_false, false_or, Option.map_some,
    Option.getD_some]
  by_cases heq : Json.jsonEqual result.doc v = true
  · rw [if_pos heq, rejectIf_of_not _ (by simp [heq])]
    rfl
  · rw [if_neg heq, rejectIf_of _ (by simpa using heq)]
    rfl

/-- A replay is accepted exactly when its document unmarshals. -/
theorem acceptsReplay_iff {env : Env} {db : DB} (h : Reachable env db) {k : AttemptKey}
    {a : Attempt} (ha : db.attempts.get k = some a) (hterm : a.state.isTerminal = true)
    (hnamed : k.node.workflowID ≠ "" ∧ k.node.nodeID ≠ "") {amb : Ambient} {input : ResultInput}
    (hr : IsReplay input a) :
    AcceptsReplay amb input a db ↔ input.payload.orEmptyObject.decodes = true := by
  have hkey : input.key = k := hr.key.trans (Table.key_of_get ha)
  subst hkey
  have hshape := h.attemptShape ha
  obtain ⟨n, hn⟩ := h.linked.attempt _ a ha
  obtain ⟨w, hw⟩ := h.linked.node _ n hn
  have hcurrent : a.isCurrent = false := by
    by_contra hcur
    rw [Bool.not_eq_false] at hcur
    rcases hshape.current.mp hcur with hs | hs <;> rw [hs] at hterm <;> cases hterm
  obtain ⟨result, hresult⟩ := Option.isSome_iff_exists.mp (hshape.result.trans hterm)
  have hpayload := hr.payload
  rw [hresult] at hpayload
  cases hv : input.payload.orEmptyObject with
  | empty | malformed =>
      rw [hv] at hpayload
      cases hpayload
  | json v =>
      rw [hv] at hpayload
      by_cases hshallow : v.shallow = true
      case neg =>
        refine ⟨fun ⟨result, _, hok⟩ => ?_, fun hdecodes => absurd (Bool.and_eq_true .. ▸ hdecodes).1 hshallow⟩
        have hvalid := valid_of_recordResultReceipt hok
        rw [hv] at hvalid
        exact absurd hvalid hshallow
      have hrun := recordResultReceipt_replay amb hnamed hw hn ha hr.token
        (hshape.token (.inr hterm)) hr.outcome hterm hcurrent hresult hv hshallow hr.event
      rw [RawMessage.decodes, ← jsonEqual_stored_iff hpayload, AcceptsReplay, hrun, ← hr.key]
      constructor
      · rintro ⟨r, -, hok⟩
        by_contra hne
        rw [if_neg hne] at hok
        cases hok
      · intro heq
        exact ⟨result, hresult, by rw [if_pos heq]⟩

/-- A submission for a superseded attempt writes at most one evidence row. -/
theorem onlyEvidence_of_superseded {env : Env} {amb : Ambient} {input : ResultInput} {db : DB}
    {a : Attempt} (ha : db.attempts.get input.key = some a) (hs : Superseded db input.key a) :
    OnlyEvidence db input.key a ((Op.recordResultReceipt input).exec env amb db).2 := by
  unfold Op.exec
  split
  · rename_i r db' hrun
    simp only [Op.run, recordResultReceipt, bind_eq_ok, getOr_eq_ok, rejectIf_eq_ok,
      exists_const] at hrun
    obtain ⟨-, -, -, -, w, -, n, hn, token, -, b, hb, -, hrun⟩ := hrun
    rw [ha, Option.some.injEq] at hb
    subst hb
    unfold settleResult at hrun
    split at hrun
    · simp only [bind_eq_ok, rejectIf_eq_ok, exists_const, pure_eq_ok, Prod.mk.injEq] at hrun
      obtain ⟨-, -, rfl⟩ := hrun
      exact ⟨db.evidence, rfl, .inl rfl⟩
    · split at hrun
      · rename_i hlate
        simp only [bind_eq_ok, pure_eq_ok, Prod.mk.injEq] at hrun
        obtain ⟨⟨id, db₁⟩, hev, -, rfl⟩ := hrun
        obtain ⟨evidence, hdb₁, hcases⟩ := insertAttemptEvidence_eq_ok hev
        simp only [Attempt.isLateEvidence, Bool.and_eq_true, decide_eq_true_eq] at hlate
        exact ⟨evidence, hdb₁, hcases.imp_right (fun hins => ⟨hlate.1, hins⟩)⟩
      · -- the branch that accepts a result asks for the current attempt
        simp only [bind_eq_ok, rejectIf_eq_ok, exists_const, not_or, not_not, ne_eq] at hrun
        obtain ⟨-, ⟨hcur, hisCur, -⟩, -⟩ := hrun
        rcases hs with hs | hs
        · exact absurd hs hisCur
        · exact absurd (pointer_eq_some.mpr ⟨n, hn, hcur⟩) hs
  · exact ⟨db.evidence, rfl, .inl rfl⟩

/-- Results are written once in every run without forged reasons; a replay is
    accepted exactly when its document unmarshals. -/
theorem results_writeOnce {env : Env} {db db' : DB} (h : ReachableIf env Unforged db)
    (hrun : Relation.ReflTransGen (StepIf env Unforged) db db') : WriteOnce env db db' := by
  have hrun' : Relation.ReflTransGen (Step env) db db' := hrun.lift id (fun _ _ => StepIf.step)
  have hlog : ResultLog db' := (h.run hrun).resultLog
  exact
    { frozen := fun k a ha hterm => h.reachable.frozen hrun' ha hterm
      logged := fun k a ha hterm => (hlog.recorded k a ha hterm).2
      replay := fun k a ha hterm amb input hr =>
        acceptsReplay_iff (h.run hrun).reachable ha hterm (hlog.recorded k a ha hterm).1 hr
      late := fun k a ha hs amb input hkey => by
        subst hkey
        exact onlyEvidence_of_superseded ha hs }

def unforgedOp (α : Type) (op : Op α) (_ : DB) : Bool :=
  match op with
  | .applyOwnerTransition input => input.reason ≠ resultReason
  | _ => true

theorem unforged_of_unforgedOp (α : Type) (op : Op α) (db : DB) (h : unforgedOp α op db = true) :
    Unforged α op db := by
  unfold Unforged
  split
  · simpa [unforgedOp] using h
  · trivial

/-- The run of `soloScript` from the recorded result to its consumption. -/
theorem results_writeOnce_solo :
    ∃ db db' a, ReachableIf .plain Unforged db ∧
      Relation.ReflTransGen (StepIf .plain Unforged) db db' ∧
      db.attempts.get ⟨⟨"w", "a", 0⟩, 1⟩ = some a ∧ a.state.isTerminal = true ∧
      WriteOnce .plain db db' := by
  have hrun : (runScriptIf? .plain unforgedOp 0 (soloScript.take 7) (DB.init 0)).any (fun db =>
      (db.attempts.get ⟨⟨"w", "a", 0⟩, 1⟩).any (fun a => a.state.isTerminal) &&
        (runScriptIf? .plain unforgedOp 7 (soloScript.drop 7) db).isSome) = true := by
    decide +kernel
  obtain ⟨db, hdb, hw⟩ := (Option.any_eq_true _ _).mp hrun
  rw [Bool.and_eq_true] at hw
  obtain ⟨a, ha, hterm⟩ := (Option.any_eq_true _ _).mp hw.1
  obtain ⟨db', hdb'⟩ := Option.isSome_iff_exists.mp hw.2
  have hreach : ReachableIf .plain Unforged db :=
    ⟨0, run_of_runScriptIf? unforged_of_unforgedOp hdb⟩
  have hlater := run_of_runScriptIf? unforged_of_unforgedOp hdb'
  exact ⟨db, db', a, hreach, hlater, ha, hterm, results_writeOnce hreach hlater⟩

/-- The submission of `{"x":1e400}` as the result of the activity of `soloScript`. -/
def hugeResult : ResultInput where
  workflowID := "w"
  nodeID := "a"
  iteration := 0
  attemptNumber := 1
  claimToken := uuidOf 3 5
  attemptState := .succeeded
  payload := .json (.obj [("x", .num ⟨false, 1, 0, some ⟨false, none, 0, 400⟩⟩)])
  eventType := ""
  reconciliationRef := ""

/-- The error of a call that is refused. -/
def refusal? {α : Type} : Except Err α → Option Err
  | .error e => some e
  | .ok _ => none

/-- `{"x":1e400}` is recorded as a result, and the same submission, sent
    again, is refused as a conflict. -/
theorem hugeResult_replay_refused :
    ∃ db a amb, Reachable .plain db ∧ db.attempts.get hugeResult.key = some a ∧
      a.state.isTerminal = true ∧ IsReplay hugeResult a ∧ ¬ AcceptsReplay amb hugeResult a db ∧
      ((Op.recordResultReceipt hugeResult).exec .plain amb db).1 =
        .error (.sentinel .resultConflict) := by
  have hrun : (runScript? .plain 0 (soloScript.take 6 ++ [Action.call (.recordResultReceipt hugeResult)])
      (DB.init 0)).any (fun db => (db.attempts.get hugeResult.key).any (fun a =>
        a.state.isTerminal && decide (hugeResult.key = a.key) &&
        decide (uuidText hugeResult.claimToken = a.claimToken) &&
        decide (hugeResult.attemptState = a.state) &&
        decide (hugeResult.payload.orEmptyObject.toJsonb = a.result) &&
        decide (refusal? (recordResultReceipt (.drawn 7) hugeResult db) =
          some (.sentinel .resultConflict)))) = true := by decide +kernel
  obtain ⟨db, hdb, hw⟩ := (Option.any_eq_true _ _).mp hrun
  obtain ⟨a, ha, hw⟩ := (Option.any_eq_true _ _).mp hw
  simp only [Bool.and_eq_true, decide_eq_true_eq] at hw
  obtain ⟨⟨⟨⟨⟨hterm, hkey⟩, htoken⟩, houtcome⟩, hpayload⟩, hconflict⟩ := hw
  have herr : recordResultReceipt (.drawn 7) hugeResult db = .error (.sentinel .resultConflict) := by
    cases hresult : recordResultReceipt (.drawn 7) hugeResult db with
    | error e =>
        rw [hresult] at hconflict
        cases hconflict
        rfl
    | ok r =>
        rw [hresult] at hconflict
        cases hconflict
  refine ⟨db, a, .drawn 7, reachable_of_runScript? hdb, ha, hterm,
    ⟨hkey, htoken, houtcome, hpayload, by decide +kernel⟩, ?_, ?_⟩
  · rintro ⟨result, -, hok⟩
    rw [herr] at hok
    cases hok
  · simp only [Op.exec, Op.run, herr]

end DurableEngine.State
