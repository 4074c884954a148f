/-
  DurableEngine.State.Idempotency

  Submissions are idempotent, whatever order the statements of concurrent
  requests take.

  Three facts carry it: an idempotency key names at most one workflow, a
  stored workflow keeps its key and payload hash, and every request that
  succeeds returns a workflow stored under its own key and hash.
-/

import DurableEngine.State.Submitting

namespace DurableEngine.State

open Lib

/-- The reply reports a new workflow under the key. -/
def Reply.creates (p : Reply) (ns key : String) : Bool :=
  decide (p.input.namespace_ = ns ∧ p.input.submissionKey = key) &&
    p.outcome.toOption.any (·.created)

/-- The request names what `CreateWorkflow` asks for. -/
def CreateWorkflowInput.complete (input : CreateWorkflowInput) : Prop :=
  input.workflowID ≠ "" ∧ input.namespace_ ≠ "" ∧ input.submissionKey ≠ "" ∧
    input.submissionPayloadHash ≠ "" ∧ input.definitionID ≠ "" ∧ input.initialNodeID ≠ ""

/-- The workflow has its root node, retry policy, first history row and creation event. -/
def WholeWorkflow (db : DB) (id : String) : Prop :=
  ∃ nodeID n policy row event, db.nodes.get ⟨id, nodeID, 0⟩ = some n ∧
    db.retryPolicies.get ⟨id, nodeID, 0⟩ = some policy ∧
    db.history.get ⟨id, 1⟩ = some row ∧ row.oldState = none ∧ row.newState = .runnable ∧
    row.reason = "WORKFLOW_CREATED" ∧
    db.outbox.get event.eventID = some event ∧ event.workflowID = id ∧
    event.aggregateRevision = 1 ∧ event.eventType = "workflow.created"

/-- The workflow stored for a successful reply. -/
def Reply.stored (p : Reply) (db : DB) : Prop :=
  ∀ r, p.outcome = .ok r → ∃ w, db.workflows.get r.workflow.workflowID = some w ∧
    w.namespace_ = p.input.namespace_ ∧ w.submissionKey = p.input.submissionKey ∧
    w.payloadHash = p.input.submissionPayloadHash

/-- Idempotency of the submissions of a run that gave `replies` and reached `s`. -/
structure IdempotentSubmissions (env : Env) (replies : List Reply) (s : Submissions) : Prop where
  createdOnce : ∀ ns key, (replies.filter (·.creates ns key)).length ≤ 1
  agree : ∀ p ∈ replies, ∀ q ∈ replies, ∀ r r', p.outcome = .ok r → q.outcome = .ok r' →
    p.input.namespace_ = q.input.namespace_ → p.input.submissionKey = q.input.submissionKey →
    p.input.submissionPayloadHash = q.input.submissionPayloadHash ∧
      r.workflow.workflowID = r'.workflow.workflowID
  refused : ∀ id w (input : CreateWorkflowInput), s.db.workflows.get id = some w →
    w.namespace_ = input.namespace_ → w.submissionKey = input.submissionKey →
    w.payloadHash ≠ input.submissionPayloadHash →
    (∀ more s', Submissions.Run env s more s' → ∀ p ∈ more, p.input = input →
      ∀ r, p.outcome ≠ .ok r) ∧
    (input.complete →
      s.arrive input = ([⟨input, .error (.sentinel .submissionConflict)⟩], s))
  quiet : (∀ input, (s.arrive input).2.db = s.db) ∧
    ∀ amb request outcome db', request ∈ s.requests →
      request.step env amb s.db = .ends outcome db' →
      (∀ r, outcome = .ok r → r.created = false) → db' = s.db
  whole : ∀ id w, s.db.workflows.get id = some w → WholeWorkflow s.db id
  together : ∀ last s' id w, Submissions.Step env s last s' → s.db.workflows.get id = none →
    s'.db.workflows.get id = some w → ∃ input n event, input.workflowID = id ∧
      Submits env input (env.gates input.namespace_) n event s.db s'.db

-- ============================================================================
-- Stored workflows
-- ============================================================================

/-- A workflow keeps its idempotency key and payload hash. -/
theorem Change.submission_kept {db db' : DB} {α : Type} {op : Op α} (h : Change db op db')
    {id : String} {w : Workflow} (hw : db.workflows.get id = some w) :
    ∃ w', db'.workflows.get id = some w' ∧ w'.namespace_ = w.namespace_ ∧
      w'.submissionKey = w.submissionKey ∧ w'.payloadHash = w.payloadHash := by
  obtain ⟨hsame, -⟩ | ⟨w₀, row, hins, -⟩ | ⟨w₀, s, row, hm⟩ := h.history_cases
  · exact ⟨w, by rw [hsame]; exact hw, rfl, rfl, rfl⟩
  · exact ⟨w, Table.get_insert_of_get hins hw, rfl, rfl, rfl⟩
  · rw [hm.get_workflow]
    split
    · rename_i hid
      rw [hid, hm.get, Option.some.injEq] at hw
      exact ⟨_, rfl, by rw [← hw], by rw [← hw], by rw [← hw]⟩
    · exact ⟨w, hw, rfl, rfl, rfl⟩

theorem Evolves.submission_kept {env : Env} {db db' : DB} (h : Evolves env db db') {id : String}
    {w : Workflow} (hw : db.workflows.get id = some w) :
    ∃ w', db'.workflows.get id = some w' ∧ w'.namespace_ = w.namespace_ ∧
      w'.submissionKey = w.submissionKey ∧ w'.payloadHash = w.payloadHash := by
  cases h with
  | same => exact ⟨w, hw, rfl, rfl, rfl⟩
  | tick d => exact ⟨w, hw, rfl, rfl, rfl⟩
  | commit op hc _ => exact hc.change.submission_kept hw
  | created input n event _ hroom hsubmits => exact (hsubmits.commit hroom).change.submission_kept hw

/-- A new workflow comes with everything a submission writes. -/
theorem Evolves.together {env : Env} {db db' : DB} (h : Evolves env db db') {id : String}
    {w : Workflow} (hnone : db.workflows.get id = none) (hw : db'.workflows.get id = some w) :
    ∃ input n event, input.workflowID = id ∧
      Submits env input (env.gates input.namespace_) n event db db' := by
  cases h with
  | same =>
      rw [hnone] at hw
      cases hw
  | tick d => exact absurd (hnone.symm.trans hw) (by simp)
  | commit op _ hnoNew =>
      rw [hnoNew id hnone] at hw
      cases hw
  | created input n event _ _ hsubmits =>
      rw [Table.get_insert hsubmits.workflows] at hw
      split at hw
      · rename_i hid
        exact ⟨input, n, event, hid.symm, hsubmits⟩
      · rw [hnone] at hw
        cases hw

/-- An idempotency key names at most one workflow. -/
def KeysUnique (db : DB) : Prop :=
  ∀ id₁ id₂ w₁ w₂, db.workflows.get id₁ = some w₁ → db.workflows.get id₂ = some w₂ →
    w₁.namespace_ = w₂.namespace_ → w₁.submissionKey = w₂.submissionKey → id₁ = id₂

theorem KeysUnique.evolves {env : Env} {db db' : DB} (h : KeysUnique db)
    (he : Evolves env db db') : KeysUnique db' := by
  cases he with
  | same => exact h
  | tick d => exact h
  | commit op hc hnoNew =>
      -- both workflows were there, under the keys they have now
      have hbefore : ∀ id w', db'.workflows.get id = some w' → ∃ w, db.workflows.get id = some w ∧
          w'.namespace_ = w.namespace_ ∧ w'.submissionKey = w.submissionKey := by
        intro id w' hw'
        cases hw : db.workflows.get id with
        | none =>
            rw [hnoNew id hw] at hw'
            cases hw'
        | some w =>
            obtain ⟨w'', hw'', hns, hkey, -⟩ := hc.change.submission_kept hw
            rw [hw', Option.some.injEq] at hw''
            rw [hw'']
            exact ⟨w, rfl, hns, hkey⟩
      intro id₁ id₂ w₁ w₂ h₁ h₂ hns hkey
      obtain ⟨v₁, hv₁, hns₁, hkey₁⟩ := hbefore id₁ w₁ h₁
      obtain ⟨v₂, hv₂, hns₂, hkey₂⟩ := hbefore id₂ w₂ h₂
      exact h id₁ id₂ v₁ v₂ hv₁ hv₂ (hns₁.symm.trans (hns.trans hns₂))
        (hkey₁.symm.trans (hkey.trans hkey₂))
  | created input n event hfree _ hsubmits =>
      have hother : ∀ id w, db.workflows.get id = some w → w.namespace_ = input.namespace_ →
          w.submissionKey = input.submissionKey → False := by
        intro id w hw hns hkey
        have hsome := submission_ne_none hw
        rw [hns, hkey] at hsome
        exact hsome hfree
      intro id₁ id₂ w₁ w₂ h₁ h₂ hns hkey
      rw [Table.get_insert hsubmits.workflows] at h₁ h₂
      split at h₁ <;> split at h₂ <;> rename_i hid₁ hid₂
      · rw [hid₁, hid₂]
      · cases h₁
        exact (hother id₂ w₂ h₂ hns.symm hkey.symm).elim
      · cases h₂
        exact (hother id₁ w₁ h₁ hns hkey).elim
      · exact h id₁ id₂ w₁ w₂ h₁ h₂ hns hkey

-- ============================================================================
-- Whole workflows
-- ============================================================================

theorem Change.outbox_persists {db db' : DB} {α : Type} {op : Op α} (h : Change db op db')
    {id : String} {event : OutboxEvent} (hevent : db.outbox.get id = some event) :
    db'.outbox.get id = some event := by
  obtain hsame | ⟨_, _, ⟨_, hins, -⟩, -⟩ := h.outbox_cases
  · rw [hsame]
    exact hevent
  · exact Table.get_insert_of_get hins hevent

theorem WholeWorkflow.commit {env : Env} {db db' : DB} {α : Type} {op : Op α} {id : String}
    (h : WholeWorkflow db id) (hc : Commit env db op db') : WholeWorkflow db' id := by
  obtain ⟨nodeID, n, policy, row, event, hnode, hpolicy, hrow, hold, hnew, hreason, hevent, hfacts⟩ :=
    h
  obtain ⟨n', hnode'⟩ := (hc.change.nodeStep _).persists hnode
  obtain ⟨policy', hpolicy', -⟩ := hc.policies.stored hpolicy
  exact ⟨nodeID, n', policy', row, event, hnode', hpolicy', hc.change.history_persists hrow, hold, hnew,
    hreason, hc.change.outbox_persists hevent, hfacts⟩

theorem Submits.whole {env : Env} {input : CreateWorkflowInput} {locked : Bool} {n : NodeInstance}
    {event : OutboxEvent} {db db' : DB} (h : Submits env input locked n event db db') :
    WholeWorkflow db' input.workflowID := by
  obtain ⟨policy, hpolicy⟩ := h.policy
  have hnode := Table.get_insert_self h.nodes
  rw [h.root.1] at hnode
  exact ⟨input.initialNodeID, n, policy, input.firstRow, event, hnode, hpolicy,
    Table.get_insert_self h.history, rfl, rfl, rfl, Table.get_insert_self h.outbox, h.announces.1,
    h.announces.2.1, h.announces.2.2.1⟩

/-- Every stored workflow is whole. -/
def AllWhole (db : DB) : Prop := ∀ id w, db.workflows.get id = some w → WholeWorkflow db id

theorem AllWhole.evolves {env : Env} {db db' : DB} (h : AllWhole db) (he : Evolves env db db') :
    AllWhole db' := by
  intro id w' hw'
  cases he with
  | same => exact h id w' hw'
  | tick d => exact h id w' hw'
  | commit op hc hnoNew =>
      cases hw : db.workflows.get id with
      | none =>
          rw [hnoNew id hw] at hw'
          cases hw'
      | some w => exact (h id w hw).commit hc
  | created input n event _ hroom hsubmits =>
      rw [Table.get_insert hsubmits.workflows] at hw'
      split at hw'
      · rename_i hid
        rw [hid]
        exact hsubmits.whole
      · exact (h id w' hw').commit (hsubmits.commit hroom)

-- ============================================================================
-- Replies
-- ============================================================================

/-- A step gives no reply, or one: a success is a stored workflow, or one that was just created
    under a free key. -/
theorem Submissions.Step.reply_cases {env : Env} {s s' : Submissions} {last : List Reply}
    (h : Submissions.Step env s last s') : last = [] ∨ ∃ p, last = [p] ∧
      ((s'.db = s.db ∧ ∀ r, p.outcome = .ok r → Replays p.input r s.db) ∨
        ∃ locked n event, p.outcome = .ok ⟨p.input.workflow, true⟩ ∧
          s.db.submission p.input.namespace_ p.input.submissionKey = none ∧
          Submits env p.input locked n event s.db s'.db) := by
  cases h with
  | tick | commit | wait | lost => exact .inl rfl
  | arrive _ input =>
      obtain ⟨outcome, harrive, hreplays⟩ | harrive := s.arrive_cases input <;> rw [harrive]
      · exact .inr ⟨_, rfl, .inl ⟨rfl, hreplays⟩⟩
      · exact .inl rfl
  | «end» _ before after amb request outcome db' hreqs hstep =>
      refine .inr ⟨_, rfl, ?_⟩
      obtain ⟨rfl, hreplays⟩ | ⟨input, locked, n, event, rfl, rfl, hfree, hsubmits⟩ :=
        Request.ends_cases hstep
      · exact .inl ⟨rfl, hreplays⟩
      · exact .inr ⟨locked, n, event, rfl, hfree, hsubmits⟩

theorem Reply.stored_of_replays {p : Reply} {db : DB}
    (h : ∀ r, p.outcome = .ok r → Replays p.input r db) : p.stored db := by
  intro r hr
  have hreplays := h r hr
  exact ⟨r.workflow, hreplays.stored, hreplays.key.1, hreplays.key.2, hreplays.hash⟩

theorem Reply.stored.evolves {env : Env} {p : Reply} {db db' : DB} (h : p.stored db)
    (he : Evolves env db db') : p.stored db' := by
  intro r hr
  obtain ⟨w, hw, hns, hkey, hhash⟩ := h r hr
  obtain ⟨w', hw', hns', hkey', hhash'⟩ := he.submission_kept hw
  exact ⟨w', hw', hns'.trans hns, hkey'.trans hkey, hhash'.trans hhash⟩

theorem Submissions.Step.stored {env : Env} {s s' : Submissions} {last : List Reply}
    (h : Submissions.Step env s last s') : ∀ p ∈ last, p.stored s'.db := by
  intro p hp
  obtain rfl | ⟨q, rfl, hcases⟩ := h.reply_cases
  · cases hp
  · obtain rfl := List.mem_singleton.mp hp
    obtain ⟨hsame, hreplays⟩ | ⟨locked, n, event, hout, -, hsubmits⟩ := hcases
    · rw [hsame]
      exact Reply.stored_of_replays hreplays
    · intro r hr
      rw [hout] at hr
      cases hr
      exact ⟨p.input.workflow, Table.get_insert_self hsubmits.workflows, rfl, rfl, rfl⟩

/-- A reply that creates a workflow under the key got it while the key was free. -/
theorem Reply.free_of_creates {env : Env} {s s' : Submissions} {p : Reply} {ns key : String}
    (h : Submissions.Step env s [p] s') (hcreates : p.creates ns key = true) :
    s.db.submission ns key = none := by
  simp only [Reply.creates, Bool.and_eq_true, decide_eq_true_eq] at hcreates
  obtain ⟨⟨rfl, rfl⟩, hcreated⟩ := hcreates
  obtain hnil | ⟨q, hq, hcases⟩ := h.reply_cases
  · cases hnil
  · cases hq
    obtain ⟨-, hreplays⟩ | ⟨-, -, -, -, hfree, -⟩ := hcases
    · obtain ⟨r, hr, hcreated⟩ := (Option.any_eq_true _ _).mp hcreated
      rw [(hreplays r (toOption_eq_some hr)).created] at hcreated
      cases hcreated
    · exact hfree

/-- No earlier reply creates a workflow under a key that is free. -/
theorem filter_creates_eq_nil {replies : List Reply} {db : DB} {ns key : String}
    (hstored : ∀ p ∈ replies, p.stored db) (hfree : db.submission ns key = none) :
    replies.filter (·.creates ns key) = [] := by
  refine List.filter_eq_nil_iff.mpr (fun p hp hcreates => ?_)
  simp only [Reply.creates, Bool.and_eq_true, decide_eq_true_eq] at hcreates
  obtain ⟨⟨rfl, rfl⟩, hcreated⟩ := hcreates
  obtain ⟨r, hr, -⟩ := (Option.any_eq_true _ _).mp hcreated
  obtain ⟨w, hw, hns, hkey, -⟩ := hstored p hp r (toOption_eq_some hr)
  have hsome := submission_ne_none hw
  rw [hns, hkey] at hsome
  exact hsome hfree

-- ============================================================================
-- Runs
-- ============================================================================

/-- What a run keeps of the database and the replies given so far. -/
structure Answered (env : Env) (replies : List Reply) (s : Submissions) : Prop where
  ordered : s.Ordered env
  keys : KeysUnique s.db
  whole : AllWhole s.db
  stored : ∀ p ∈ replies, p.stored s.db
  once : ∀ ns key, (replies.filter (·.creates ns key)).length ≤ 1

theorem Answered.step {env : Env} {replies last : List Reply} {s s' : Submissions}
    (h : Answered env replies s) (hs : Submissions.Step env s last s') :
    Answered env (replies ++ last) s' := by
  have he := h.ordered.evolves hs
  refine ⟨h.ordered.step hs, h.keys.evolves he, h.whole.evolves he, fun p hp => ?_, fun ns key => ?_⟩
  · rcases List.mem_append.mp hp with hp | hp
    · exact (h.stored p hp).evolves he
    · exact hs.stored p hp
  · rw [List.filter_append]
    obtain rfl | ⟨p, rfl, -⟩ := hs.reply_cases
    · simpa using h.once ns key
    · by_cases hcreates : p.creates ns key = true
      · rw [filter_creates_eq_nil h.stored (Reply.free_of_creates hs hcreates)]
        rw [List.nil_append]
        exact List.length_filter_le _ [p]
      · simpa [hcreates] using h.once ns key

theorem Answered.run {env : Env} {replies more : List Reply} {s s' : Submissions}
    (h : Answered env replies s) (hrun : Submissions.Run env s more s') :
    Answered env (replies ++ more) s' := by
  induction hrun with
  | refl => simpa using h
  | tail _ hstep ih =>
      rw [← List.append_assoc]
      exact ih.step hstep

theorem answered_init (env : Env) (now : Int) :
    Answered env [] (Submissions.start (DB.init now)) :=
  ⟨Submissions.ordered_start env _, fun _ _ _ _ h₁ => (nomatch h₁), fun _ _ hw => (nomatch hw),
    fun _ hp => (nomatch hp), fun _ _ => Nat.zero_le 1⟩

/-- A stored workflow keeps its key and hash along a run. -/
theorem Submissions.Run.kept {env : Env} {more : List Reply} {s s' : Submissions}
    (hordered : s.Ordered env) (hrun : Submissions.Run env s more s') (id : String) (w : Workflow)
    (hw : s.db.workflows.get id = some w) :
    ∃ w', s'.db.workflows.get id = some w' ∧ w'.namespace_ = w.namespace_ ∧
      w'.submissionKey = w.submissionKey ∧ w'.payloadHash = w.payloadHash := by
  have hboth : s'.Ordered env ∧ ∃ w', s'.db.workflows.get id = some w' ∧
      w'.namespace_ = w.namespace_ ∧ w'.submissionKey = w.submissionKey ∧
      w'.payloadHash = w.payloadHash := by
    induction hrun with
    | refl => exact ⟨hordered, w, hw, rfl, rfl, rfl⟩
    | tail _ hstep ih =>
        obtain ⟨ho, v, hv, hns, hkey, hhash⟩ := ih
        obtain ⟨v', hv', hns', hkey', hhash'⟩ := (ho.evolves hstep).submission_kept hv
        exact ⟨ho.step hstep, v', hv', hns'.trans hns, hkey'.trans hkey, hhash'.trans hhash⟩
  exact hboth.2

/-- A stored workflow is found under its key by every later request. -/
theorem Answered.refused {env : Env} {replies : List Reply} {s : Submissions}
    (h : Answered env replies s) {id : String} {w : Workflow} {input : CreateWorkflowInput}
    (hw : s.db.workflows.get id = some w) (hns : w.namespace_ = input.namespace_)
    (hkey : w.submissionKey = input.submissionKey)
    (hhash : w.payloadHash ≠ input.submissionPayloadHash) (hcomplete : input.complete) :
    s.arrive input = ([⟨input, .error (.sentinel .submissionConflict)⟩], s) := by
  obtain ⟨w', hfound⟩ := Option.ne_none_iff_exists'.mp (submission_ne_none hw)
  obtain ⟨hget, hns', hkey'⟩ := submission_eq_some hfound
  have hid := h.keys _ _ w' w hget hw hns' hkey'
  rw [hid, hw, Option.some.injEq] at hget
  subst hget
  rw [hns, hkey] at hfound
  have hstart : startRequest input s.db = .error (.sentinel .submissionConflict) := by
    obtain ⟨h₁, h₂, h₃, h₄, h₅, h₆⟩ := hcomplete
    rw [startRequest, rejectIf_of_not _ (by simp [h₁, h₂, h₃, h₄, h₅, h₆]), ok_bind,
      lookupSubmission, hfound]
    simp only [replaySubmission, rejectIf_of _ hhash]
    rfl
  unfold Submissions.arrive
  rw [hstart]
  rfl

/-- Submissions are idempotent in every run. -/
theorem submissions_idempotent {env : Env} {now : Int} {replies : List Reply} {s : Submissions}
    (h : Submissions.Run env (Submissions.start (DB.init now)) replies s) :
    IdempotentSubmissions env replies s := by
  have ha : Answered env replies s := by simpa using (answered_init env now).run h
  refine ⟨ha.once, ?_, ?_, ⟨fun input => ?_, ?_⟩, ha.whole, ?_⟩
  · intro p hp q hq r r' hr hr' hns hkey
    obtain ⟨w, hw, hwns, hwkey, hwhash⟩ := ha.stored p hp r hr
    obtain ⟨w', hw', hwns', hwkey', hwhash'⟩ := ha.stored q hq r' hr'
    have hid := ha.keys _ _ w w' hw hw' (by rw [hwns, hwns', hns]) (by rw [hwkey, hwkey', hkey])
    rw [hid, hw', Option.some.injEq] at hw
    exact ⟨by rw [← hwhash, ← hwhash', hw], hid⟩
  · intro id w input hw hns hkey hhash
    refine ⟨fun more s' hrun p hp hinput r hr => ?_, ha.refused hw hns hkey hhash⟩
    have ha' := ha.run hrun
    obtain ⟨v, hv, hvns, hvkey, hvhash⟩ := ha'.stored p (List.mem_append_right _ hp) r hr
    -- the workflow stored before the run is the one the reply returns
    obtain ⟨w', hw', hwns, hwkey, hwhash⟩ := (Submissions.Run.kept ha.ordered hrun) id w hw
    have hid := ha'.keys _ _ v w' hv hw' (by rw [hvns, hinput, hwns, hns])
      (by rw [hvkey, hinput, hwkey, hkey])
    rw [hid, hw', Option.some.injEq] at hv
    exact hhash (by rw [← hwhash, hv, hvhash, hinput])
  · obtain ⟨outcome, harrive, -⟩ | harrive := s.arrive_cases input <;> rw [harrive]
  · intro amb request outcome db' _ hstep hcreated
    obtain ⟨hsame, -⟩ | ⟨input, locked, n, event, -, rfl, -⟩ := Request.ends_cases hstep
    · exact hsame
    · exact nomatch hcreated _ rfl
  · intro last s' id w hstep hnone hw
    exact (ha.ordered.evolves hstep).together hnone hw

/-- Two requests with one key race: both look it up before the first insert. -/
def raceScript : List Submissions.Move := [
  .call (.createDefinition soloDefinition), .arrive soloWorkflow, .arrive soloWorkflow,
  .next 0, .next 1, .next 0, .next 1, .next 0, .next 0]

/-- One request creates the workflow, the other one gets it. -/
theorem submissions_idempotent_race :
    ∃ replies s, Submissions.Run .plain (Submissions.start (DB.init 0)) replies s ∧
      replies.map (fun p => p.outcome.toOption.map (·.created)) = [some true, some false] ∧
      IdempotentSubmissions .plain replies s := by
  have hrun : (Submissions.moves? .plain 0 raceScript (Submissions.start (DB.init 0))).any
      (fun r => r.1.map (fun p => p.outcome.toOption.map (·.created)) = [some true, some false]) =
      true := by decide +kernel
  obtain ⟨⟨replies, s⟩, hmoves, hreplies⟩ := (Option.any_eq_true _ _).mp hrun
  have hrun := Submissions.run_of_moves? hmoves
  exact ⟨replies, s, hrun, by simpa using hreplies, submissions_idempotent hrun⟩

end DurableEngine.State
