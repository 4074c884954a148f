/-
  DurableEngine.State.Submitting

  `CreateWorkflow` statement by statement, with any number of requests in
  progress.

  The transaction runs at read committed: what a statement has read may be
  out of date at the next one.  A request looks its idempotency key up, reads
  the definition, waits for the admission lock of a gated namespace, looks
  again under the lock, and inserts.  The insert decides: it takes both unique
  keys or none, and a request that loses the race resolves the row that won.
  From the insert to the commit the new keys are held, so that part is one
  step.
-/

import DurableEngine.State.Provision
import DurableEngine.State.Results

namespace DurableEngine.State

open Lib

-- ============================================================================
-- Statements
-- ============================================================================

/-- `SELECT … WHERE namespace = $1 AND submission_key = $2` and what the request makes of it. -/
def lookupSubmission (input : CreateWorkflowInput) (db : DB) :
    Except Err (Option CreateWorkflowResult) :=
  match db.submission input.namespace_ input.submissionKey with
  | some workflow => do
      let result ← replaySubmission workflow input
      return some result
  | none => .ok none

/-- `SELECT … WHERE workflow_id = $1` and what the request makes of it. -/
def lookupWorkflowID (input : CreateWorkflowInput) (db : DB) :
    Except Err (Option CreateWorkflowResult) :=
  match db.workflows.get input.workflowID with
  | some workflow => do
      let result ← replayWorkflowID workflow input
      return some result
  | none => .ok none

/-- The checks before the transaction and its first statement. -/
def startRequest (input : CreateWorkflowInput) (db : DB) :
    Except Err (Option CreateWorkflowResult) := do
  rejectIf (input.workflowID = "" ∨ input.namespace_ = "" ∨ input.submissionKey = "" ∨
      input.submissionPayloadHash = "" ∨ input.definitionID = "" ∨ input.initialNodeID = "")
    (.text "workflow identity and initial node are required")
  lookupSubmission input db

/-- The checks against the definition the request names. -/
def checkDefinition (input : CreateWorkflowInput) (db : DB) : Except Err Unit := do
  let definition ← getOr (db.definitions.get ⟨input.definitionID, input.definitionVersion⟩)
    (.sentinel .definitionNotFound)
  let graph ← (decodeDefinitionGraph definition.graph.doc).mapError (.wrapped .graphViolation)
  rejectIf (input.initialNodeID ≠ graph.entry) (.sentinel .unknownNode)
  rejectIf (partitionOf input.workflowID ≠ input.partitionID)
    (.wrapped .partitionMismatch ("got " ++ toString input.partitionID ++ ", want " ++
      toString (partitionOf input.workflowID)))

/-- The statements under the admission lock: both keys again, then the capacity. -/
def recheckAdmission (env : Env) (input : CreateWorkflowInput) (db : DB) :
    Except Err (Option CreateWorkflowResult) := do
  match ← lookupSubmission input db with
  | some result => return some result
  | none =>
      match ← lookupWorkflowID input db with
      | some result => return some result
      | none => do
          checkAdmissionCapacity env db input.namespace_
          return none

/-- `INSERT … ON CONFLICT DO NOTHING`: the writes of a new workflow, or the row that holds one of
    its keys. -/
def insertOrResolve (env : Env) (amb : Ambient) (input : CreateWorkflowInput)
    (admissionLocked : Bool) (db : DB) : Except Err (CreateWorkflowResult × DB) := do
  match ← lookupSubmission input db with
  | some result => return (result, db)
  | none =>
      match ← lookupWorkflowID input db with
      | some result => return (result, db)
      | none => insertWorkflow env amb input admissionLocked db

-- ============================================================================
-- Requests
-- ============================================================================

/-- A request between two of its statements. -/
inductive Request where
  | lookedUp (input : CreateWorkflowInput)
  | checked (input : CreateWorkflowInput)
  | locked (input : CreateWorkflowInput)
  | admitted (input : CreateWorkflowInput) (admissionLocked : Bool)

namespace Request

def input : Request → CreateWorkflowInput
  | lookedUp input | checked input | locked input | admitted input _ => input

/-- The request holds the admission lock of its namespace until it ends. -/
def holdsLock : Request → Bool
  | locked _ | admitted _ true => true
  | _ => false

end Request

/-- What the next statement of a request leads to: the request goes on, or it ends with an
    outcome and the database it commits or rolls back to. -/
inductive Progress where
  | waits (request : Request)
  | ends (outcome : Except Err CreateWorkflowResult) (db : DB)

/-- A request that ends without writing, or goes on. -/
def Progress.ofLookup (db : DB) (next : Request) :
    Except Err (Option CreateWorkflowResult) → Progress
  | .error e => .ends (.error e) db
  | .ok (some result) => .ends (.ok result) db
  | .ok none => .waits next

/-- The next statement of a request. -/
def Request.step (env : Env) (amb : Ambient) (db : DB) : Request → Progress
  | .lookedUp input =>
      match checkDefinition input db with
      | .error e => .ends (.error e) db
      | .ok () => .waits (.checked input)
  | .checked input =>
      match lockAdmissionNamespace env input.namespace_ with
      | .error e => .ends (.error e) db
      | .ok true => .waits (.locked input)
      | .ok false => .waits (.admitted input false)
  | .locked input => .ofLookup db (.admitted input true) (recheckAdmission env input db)
  | .admitted input admissionLocked =>
      match insertOrResolve env amb input admissionLocked db with
      | .error e => .ends (.error e) db
      | .ok (result, db') => .ends (.ok result) db'

/-- A request with the outcome its caller got. -/
structure Reply where
  input : CreateWorkflowInput
  outcome : Except Err CreateWorkflowResult

/-- The database and the requests in progress. -/
structure Submissions where
  db : DB
  requests : List Request

def Op.isSubmission {α : Type} : Op α → Bool
  | .createWorkflow _ => true
  | _ => false

namespace Submissions

/-- A request arrives: its first statement answers it or lets it go on. -/
def arrive (s : Submissions) (input : CreateWorkflowInput) : List Reply × Submissions :=
  match Progress.ofLookup s.db (.lookedUp input) (startRequest input s.db) with
  | .ends outcome db => ([⟨input, outcome⟩], { s with db := db })
  | .waits request => ([], { s with requests := request :: s.requests })

/-- One step, with the replies it gives: the clock advances, another operation of the store
    commits, a request arrives, takes a statement, or is lost at any point. The admission lock is
    free when a request gets it. -/
inductive Step (env : Env) : Submissions → List Reply → Submissions → Prop where
  | tick (s : Submissions) (d : Nat) : Step env s [] { s with db := s.db.tick d }
  | commit {α : Type} (s : Submissions) (amb : Ambient) (op : Op α) (a : α) (db' : DB)
      (h : op.run env amb s.db = .ok (a, db')) (other : op.isSubmission = false) :
      Step env s [] { s with db := db' }
  | arrive (s : Submissions) (input : CreateWorkflowInput) :
      Step env s (s.arrive input).1 (s.arrive input).2
  | wait (s : Submissions) (before after : List Request) (amb : Ambient) (request next : Request)
      (requests : s.requests = before ++ request :: after)
      (h : request.step env amb s.db = .waits next)
      (free : next.holdsLock = true → request.holdsLock = false →
        ∀ r ∈ before ++ after, r.input.namespace_ = next.input.namespace_ → r.holdsLock = false) :
      Step env s [] { s with requests := before ++ next :: after }
  | «end» (s : Submissions) (before after : List Request) (amb : Ambient) (request : Request)
      (outcome : Except Err CreateWorkflowResult) (db' : DB)
      (requests : s.requests = before ++ request :: after)
      (h : request.step env amb s.db = .ends outcome db') :
      Step env s [⟨request.input, outcome⟩] ⟨db', before ++ after⟩
  | lost (s : Submissions) (before after : List Request) (request : Request)
      (requests : s.requests = before ++ request :: after) :
      Step env s [] { s with requests := before ++ after }

/-- A run with its replies, in order. -/
inductive Run (env : Env) (start : Submissions) : List Reply → Submissions → Prop where
  | refl : Run env start [] start
  | tail {replies last : List Reply} {s s' : Submissions} (run : Run env start replies s)
      (step : Step env s last s') : Run env start (replies ++ last) s'

end Submissions

-- ============================================================================
-- What a statement can do
-- ============================================================================

/-- The result of a request that found its workflow. -/
structure Replays (input : CreateWorkflowInput) (r : CreateWorkflowResult) (db : DB) : Prop where
  created : r.created = false
  stored : db.workflows.get r.workflow.workflowID = some r.workflow
  key : r.workflow.namespace_ = input.namespace_ ∧ r.workflow.submissionKey = input.submissionKey
  hash : r.workflow.payloadHash = input.submissionPayloadHash

theorem submission_eq_some {db : DB} {ns key : String} {w : Workflow}
    (h : db.submission ns key = some w) :
    db.workflows.get w.workflowID = some w ∧ w.namespace_ = ns ∧ w.submissionKey = key := by
  have hkeys := List.find?_some h
  simp only [Bool.and_eq_true, decide_eq_true_eq] at hkeys
  exact ⟨Table.get_of_mem (List.mem_of_find?_eq_some h), hkeys⟩

theorem submission_ne_none {db : DB} {id : String} {w : Workflow}
    (hw : db.workflows.get id = some w) :
    db.submission w.namespace_ w.submissionKey ≠ none := by
  intro hnone
  have hall := List.find?_eq_none.mp hnone w (Table.mem_of_get hw)
  simp at hall

theorem lookupSubmission_eq_ok {input : CreateWorkflowInput} {db : DB}
    {o : Option CreateWorkflowResult} (h : lookupSubmission input db = .ok o) :
    (∀ r, o = some r → Replays input r db) ∧
      (o = none → db.submission input.namespace_ input.submissionKey = none) := by
  unfold lookupSubmission at h
  split at h
  · rename_i w hfound
    obtain ⟨hget, hns, hkey⟩ := submission_eq_some hfound
    simp only [replaySubmission, bind_eq_ok, rejectIf_eq_ok, exists_const, pure_eq_ok,
      not_not] at h
    obtain ⟨r, ⟨hhash, rfl⟩, rfl⟩ := h
    exact ⟨fun r hr => Option.some.inj hr ▸ ⟨rfl, hget, ⟨hns, hkey⟩, hhash⟩, fun hn => (by cases hn)⟩
  · rename_i hfree
    cases h
    exact ⟨fun r hr => (by cases hr), fun _ => hfree⟩

theorem lookupWorkflowID_eq_ok {input : CreateWorkflowInput} {db : DB}
    {o : Option CreateWorkflowResult} (h : lookupWorkflowID input db = .ok o) :
    ∀ r, o = some r → Replays input r db := by
  intro r hr
  unfold lookupWorkflowID at h
  split at h
  · rename_i w hfound
    simp only [replayWorkflowID, replaySubmission, bind_eq_ok, rejectIf_eq_ok, exists_const,
      pure_eq_ok, not_not, not_or] at h
    obtain ⟨r', ⟨⟨hns, hkey⟩, hhash, rfl⟩, rfl⟩ := h
    obtain rfl := Option.some.inj hr
    exact ⟨rfl, by rw [Table.key_of_get hfound]; exact hfound, ⟨hns, hkey⟩, hhash⟩
  · cases h
    cases hr

theorem recheckAdmission_eq_ok {env : Env} {input : CreateWorkflowInput} {db : DB}
    {o : Option CreateWorkflowResult} (h : recheckAdmission env input db = .ok o) :
    (∀ r, o = some r → Replays input r db) ∧ (o = none →
      ((db.slotsOf input.namespace_).length : Int) < env.admission.maxActiveWorkflows) := by
  simp only [recheckAdmission, bind_eq_ok] at h
  obtain ⟨o₁, h₁, h⟩ := h
  cases o₁ with
  | some r₁ =>
      simp only [pure_eq_ok] at h
      subst h
      exact ⟨(lookupSubmission_eq_ok h₁).1, fun hn => (by cases hn)⟩
  | none =>
      simp only [bind_eq_ok] at h
      obtain ⟨o₂, h₂, h⟩ := h
      cases o₂ with
      | some r₂ =>
          simp only [pure_eq_ok] at h
          subst h
          exact ⟨lookupWorkflowID_eq_ok h₂, fun hn => (by cases hn)⟩
      | none =>
          simp only [checkAdmissionCapacity, bind_eq_ok, rejectIf_eq_ok, exists_const,
            pure_eq_ok] at h
          obtain ⟨⟨hactive, -⟩, rfl⟩ := h
          exact ⟨fun r hr => (by cases hr), fun _ => Int.not_le.mp hactive⟩

theorem insertOrResolve_eq_ok {env : Env} {amb : Ambient} {input : CreateWorkflowInput}
    {locked : Bool} {db db' : DB} {r : CreateWorkflowResult}
    (h : insertOrResolve env amb input locked db = .ok (r, db')) :
    (db' = db ∧ Replays input r db) ∨
      (r = ⟨input.workflow, true⟩ ∧ db.submission input.namespace_ input.submissionKey = none ∧
        ∃ n event, Submits env input locked n event db db') := by
  simp only [insertOrResolve, bind_eq_ok] at h
  obtain ⟨o₁, h₁, h⟩ := h
  cases o₁ with
  | some r₁ =>
      simp only [pure_eq_ok, Prod.mk.injEq] at h
      obtain ⟨rfl, rfl⟩ := h
      exact .inl ⟨rfl, (lookupSubmission_eq_ok h₁).1 _ rfl⟩
  | none =>
      simp only [bind_eq_ok] at h
      obtain ⟨o₂, h₂, h⟩ := h
      cases o₂ with
      | some r₂ =>
          simp only [pure_eq_ok, Prod.mk.injEq] at h
          obtain ⟨rfl, rfl⟩ := h
          exact .inl ⟨rfl, lookupWorkflowID_eq_ok h₂ _ rfl⟩
      | none =>
          obtain ⟨hr, hsubmits⟩ := insertWorkflow_eq_ok h
          exact .inr ⟨hr, (lookupSubmission_eq_ok h₁).2 rfl, hsubmits⟩

/-- How a request ends: it writes nothing, and a success is the stored workflow, or its insert
    creates the workflow. -/
theorem Request.ends_cases {env : Env} {amb : Ambient} {db db' : DB} {request : Request}
    {outcome : Except Err CreateWorkflowResult} (h : request.step env amb db = .ends outcome db') :
    (db' = db ∧ ∀ r, outcome = .ok r → Replays request.input r db) ∨
      ∃ input locked n event, request = .admitted input locked ∧
        outcome = .ok ⟨input.workflow, true⟩ ∧
        db.submission input.namespace_ input.submissionKey = none ∧
        Submits env input locked n event db db' := by
  cases request with
  | lookedUp input =>
      simp only [Request.step] at h
      split at h <;> cases h
      exact .inl ⟨rfl, fun r hr => nomatch hr⟩
  | checked input =>
      simp only [Request.step] at h
      split at h <;> cases h
      exact .inl ⟨rfl, fun r hr => nomatch hr⟩
  | locked input =>
      simp only [Request.step] at h
      cases hcheck : recheckAdmission env input db with
      | error e =>
          rw [hcheck] at h
          cases h
          exact .inl ⟨rfl, fun r hr => nomatch hr⟩
      | ok o =>
          cases o with
          | none => rw [hcheck] at h; cases h
          | some r =>
              rw [hcheck] at h
              cases h
              refine .inl ⟨rfl, fun r' hr => ?_⟩
              cases hr
              exact (recheckAdmission_eq_ok hcheck).1 r rfl
  | admitted input locked =>
      simp only [Request.step] at h
      split at h
      · cases h
        exact .inl ⟨rfl, fun r hr => nomatch hr⟩
      · rename_i r db₁ hinsert
        cases h
        obtain ⟨rfl, hreplays⟩ | ⟨rfl, hfree, n, event, hsubmits⟩ := insertOrResolve_eq_ok hinsert
        · exact .inl ⟨rfl, fun r' hr => by cases hr; exact hreplays⟩
        · exact .inr ⟨input, locked, n, event, rfl, rfl, hfree, hsubmits⟩

/-- How a request goes on: with the same input, and to its insert only after the checks that its
    namespace asks for. -/
theorem Request.waits_cases {env : Env} {amb : Ambient} {db : DB} {request next : Request}
    (h : request.step env amb db = .waits next) :
    next.input = request.input ∧ (request.holdsLock = true → next.holdsLock = true) ∧
      (next.holdsLock = true → request.holdsLock = true ∨
        env.gates request.input.namespace_ = true) ∧
      (∀ input, next = .admitted input false → env.gates input.namespace_ = false) ∧
      (∀ input, next = .admitted input true →
        ((db.slotsOf input.namespace_).length : Int) < env.admission.maxActiveWorkflows) := by
  cases request with
  | lookedUp input =>
      simp only [Request.step] at h
      split at h <;> cases h
      exact ⟨rfl, fun hl => (by cases hl), fun hl => (by cases hl), fun _ hn => (by cases hn),
        fun _ hn => (by cases hn)⟩
  | checked input =>
      have hgates : ∀ b, lockAdmissionNamespace env input.namespace_ = .ok b →
          env.gates input.namespace_ = b := by
        intro b hb
        simp only [lockAdmissionNamespace, bind_eq_ok, pure_eq_ok] at hb
        obtain ⟨-, -, rfl⟩ := hb
        rfl
      simp only [Request.step] at h
      split at h
      · cases h
      · rename_i hlock
        cases h
        exact ⟨rfl, fun hl => (by cases hl), fun _ => .inr (hgates true hlock),
          fun _ hn => (by cases hn), fun _ hn => (by cases hn)⟩
      · rename_i hlock
        cases h
        refine ⟨rfl, fun hl => (by cases hl), fun hl => (by cases hl), fun _ hn => ?_,
          fun _ hn => (by cases hn)⟩
        cases hn
        exact hgates false hlock
  | locked input =>
      simp only [Request.step] at h
      cases hcheck : recheckAdmission env input db with
      | error e => rw [hcheck] at h; cases h
      | ok o =>
          cases o with
          | some r => rw [hcheck] at h; cases h
          | none =>
              rw [hcheck] at h
              cases h
              refine ⟨rfl, fun _ => rfl, fun _ => .inl rfl, fun _ hn => (by cases hn), fun _ hn => ?_⟩
              cases hn
              exact (recheckAdmission_eq_ok hcheck).2 rfl
  | admitted input locked =>
      simp only [Request.step] at h
      split at h <;> cases h

-- ============================================================================
-- The requests of a run
-- ============================================================================

/-- What a run keeps of its requests: only gated namespaces are locked, each by one request, and
    there is room for the request that was admitted under the lock. -/
structure Submissions.Ordered (env : Env) (s : Submissions) : Prop where
  gated : ∀ r ∈ s.requests, r.holdsLock = true → env.gates r.input.namespace_ = true
  ungated : ∀ input, .admitted input false ∈ s.requests → env.gates input.namespace_ = false
  room : ∀ input, .admitted input true ∈ s.requests →
    ((s.db.slotsOf input.namespace_).length : Int) < env.admission.maxActiveWorkflows
  alone : s.requests.Pairwise (fun r r' => r.input.namespace_ = r'.input.namespace_ →
    ¬ (r.holdsLock = true ∧ r'.holdsLock = true))

/-- What one step does to the database. -/
inductive Evolves (env : Env) (db : DB) : DB → Prop where
  | same : Evolves env db db
  | tick (d : Nat) : Evolves env db (db.tick d)
  | commit {α : Type} {db' : DB} (op : Op α) (h : Commit env db op db')
      (noNew : ∀ id, db.workflows.get id = none → db'.workflows.get id = none) : Evolves env db db'
  | created {db' : DB} (input : CreateWorkflowInput) (n : NodeInstance) (event : OutboxEvent)
      (free : db.submission input.namespace_ input.submissionKey = none)
      (room : env.gates input.namespace_ = true →
        ((db.slotsOf input.namespace_).length : Int) < env.admission.maxActiveWorkflows)
      (h : Submits env input (env.gates input.namespace_) n event db db') : Evolves env db db'

/-- An operation other than a submission adds no workflow. -/
theorem noNew_of_commit {env : Env} {amb : Ambient} {α : Type} {op : Op α} {db db' : DB} {a : α}
    (h : op.run env amb db = .ok (a, db')) (other : op.isSubmission = false) (id : String)
    (hnone : db.workflows.get id = none) : db'.workflows.get id = none := by
  by_contra hsome
  obtain ⟨w, hw⟩ := Option.ne_none_iff_exists'.mp hsome
  obtain ⟨w₀, hw₀, -⟩ | ⟨input, hop, -⟩ := (Op.run_commit h).change.workflow_origin hw
  · rw [hnone] at hw₀
    cases hw₀
  · cases hop
    cases other

namespace Submissions

/-- A request is answered without a write, or it goes on. -/
theorem arrive_cases (s : Submissions) (input : CreateWorkflowInput) :
    (∃ outcome, s.arrive input = ([⟨input, outcome⟩], s) ∧
      ∀ r, outcome = .ok r → Replays input r s.db) ∨
    s.arrive input = ([], { s with requests := .lookedUp input :: s.requests }) := by
  unfold Submissions.arrive
  cases hstart : startRequest input s.db with
  | error e => exact .inl ⟨.error e, rfl, fun r hr => nomatch hr⟩
  | ok o =>
      simp only [startRequest, bind_eq_ok, rejectIf_eq_ok, exists_const] at hstart
      cases o with
      | none => exact .inr rfl
      | some r =>
          refine .inl ⟨.ok r, rfl, fun r' hr => ?_⟩
          cases hr
          exact (lookupSubmission_eq_ok hstart.2).1 r rfl

theorem Ordered.evolves {env : Env} {s s' : Submissions} {replies : List Reply}
    (h : s.Ordered env) (hs : Step env s replies s') : Evolves env s.db s'.db := by
  cases hs with
  | tick _ d => exact .tick d
  | commit _ amb op a db' hrun hother =>
      exact .commit op (Op.run_commit hrun) (noNew_of_commit hrun hother)
  | arrive _ input =>
      obtain ⟨outcome, harrive, -⟩ | harrive := s.arrive_cases input <;> rw [harrive] <;> exact .same
  | wait | lost => exact .same
  | «end» _ before after amb request outcome db' hreqs hstep =>
      obtain ⟨rfl, -⟩ | ⟨input, locked, n, event, rfl, -, hfree, hsubmits⟩ :=
        Request.ends_cases hstep
      · exact .same
      · have hmem : Request.admitted input locked ∈ s.requests := by
          rw [hreqs]
          exact List.mem_append_right _ List.mem_cons_self
        cases locked with
        | true =>
            have hgates := h.gated _ hmem rfl
            exact .created input n event hfree (fun _ => h.room input hmem) (hgates ▸ hsubmits)
        | false =>
            have hgates := h.ungated input hmem
            refine .created input n event hfree (fun hg => ?_) (hgates ▸ hsubmits)
            rw [hgates] at hg
            cases hg

/-- Slots grow only with a new workflow of the namespace. -/
theorem slotsOf_le {env : Env} {db db' : DB} {ns : String} (h : Evolves env db db')
    (hnew : ∀ id w, db.workflows.get id = none → db'.workflows.get id = some w →
      w.namespace_ ≠ ns) : (db'.slotsOf ns).length ≤ (db.slotsOf ns).length := by
  have hbounded : SlotStep env db db' → (db'.slotsOf ns).length ≤ (db.slotsOf ns).length := by
    intro hslots
    obtain hle | ⟨-, id, w, hnone, hw, hns⟩ := hslots.bounded ns
    · exact hle
    · exact absurd hns (hnew id w hnone hw)
  cases h with
  | same => exact Nat.le_refl _
  | tick d => exact Nat.le_refl _
  | commit op hc _ => exact hbounded hc.slots
  | created input n event _ hroom hsubmits => exact hbounded (hsubmits.commit hroom).slots

/-- One element of a list is replaced by another that is related to the rest. -/
theorem pairwise_replace {α : Type} {R : α → α → Prop} {before after : List α} {a b : α}
    (h : (before ++ a :: after).Pairwise R) (hbefore : ∀ x ∈ before, R x b)
    (hafter : ∀ x ∈ after, R b x) : (before ++ b :: after).Pairwise R := by
  obtain ⟨h₁, h₂, h₁₂⟩ := List.pairwise_append.mp h
  refine List.pairwise_append.mpr ⟨h₁, List.pairwise_cons.mpr ⟨hafter, (List.pairwise_cons.mp h₂).2⟩,
    fun x hx y hy => ?_⟩
  rcases List.mem_cons.mp hy with rfl | hy
  · exact hbefore x hx
  · exact h₁₂ x hx y (List.mem_cons_of_mem _ hy)

theorem Ordered.wait {env : Env} {s : Submissions} {before after : List Request} {amb : Ambient}
    {request next : Request} (h : s.Ordered env) (hreqs : s.requests = before ++ request :: after)
    (hstep : request.step env amb s.db = .waits next)
    (hfree : next.holdsLock = true → request.holdsLock = false →
      ∀ r ∈ before ++ after, r.input.namespace_ = next.input.namespace_ → r.holdsLock = false) :
    Ordered env { s with requests := before ++ next :: after } := by
  obtain ⟨hinput, -, hgets, hungated, hroom⟩ := Request.waits_cases hstep
  have hmem : ∀ r ∈ before ++ next :: after, r = next ∨ r ∈ s.requests := by
    intro r hr
    rw [hreqs]
    simp only [List.mem_append, List.mem_cons] at hr ⊢
    tauto
  have hrequest : request ∈ s.requests := by
    rw [hreqs]
    exact List.mem_append_right _ List.mem_cons_self
  -- whoever else holds the lock keeps `next` from getting it
  have halone : ∀ r ∈ before ++ after, r.input.namespace_ = next.input.namespace_ →
      next.holdsLock = true → r.holdsLock = true → False := by
    intro r hr hns hnext hlock
    by_cases hheld : request.holdsLock = true
    · have hpair := h.alone
      rw [hreqs] at hpair
      obtain ⟨-, h₂, h₁₂⟩ := List.pairwise_append.mp hpair
      rw [hinput] at hns
      rcases List.mem_append.mp hr with hr | hr
      · exact h₁₂ r hr request List.mem_cons_self hns ⟨hlock, hheld⟩
      · exact (List.pairwise_cons.mp h₂).1 r hr hns.symm ⟨hheld, hlock⟩
    · rw [hfree hnext (by simpa using hheld) r hr hns] at hlock
      cases hlock
  refine ⟨fun r hr hlock => ?_, fun input hin => ?_, fun input hin => ?_, ?_⟩
  · rcases hmem r hr with rfl | hold
    · rw [hinput]
      exact (hgets hlock).elim (h.gated request hrequest) id
    · exact h.gated r hold hlock
  · rcases hmem _ hin with heq | hold
    · exact hungated input heq.symm
    · exact h.ungated input hold
  · rcases hmem _ hin with heq | hold
    · exact hroom input heq.symm
    · exact h.room input hold
  · have hpair := h.alone
    rw [hreqs] at hpair
    refine pairwise_replace hpair (fun r hr hns hlocks => ?_) (fun r hr hns hlocks => ?_)
    · exact halone r (List.mem_append_left _ hr) hns hlocks.2 hlocks.1
    · exact halone r (List.mem_append_right _ hr) hns.symm hlocks.1 hlocks.2

/-- The end of a request leaves the room of the others: no other request of its namespace is
    past the gate. -/
theorem Ordered.end {env : Env} {s : Submissions} {before after : List Request} {amb : Ambient}
    {request : Request} {outcome : Except Err CreateWorkflowResult} {db' : DB} (h : s.Ordered env)
    (hreqs : s.requests = before ++ request :: after)
    (hstep : request.step env amb s.db = .ends outcome db') : Ordered env ⟨db', before ++ after⟩ := by
  have hsub : (before ++ after).Sublist s.requests := by
    rw [hreqs]
    exact (List.Sublist.refl before).append (List.sublist_cons_self request after)
  have hevolves : Evolves env s.db db' :=
    h.evolves (.end s before after amb request outcome db' hreqs hstep)
  refine ⟨fun r hr => h.gated r (hsub.subset hr), fun input hin => h.ungated input (hsub.subset hin),
    fun input hin => ?_, h.alone.sublist hsub⟩
  have hroom := h.room input (hsub.subset hin)
  suffices hle : (db'.slotsOf input.namespace_).length ≤ (s.db.slotsOf input.namespace_).length by
    show ((db'.slotsOf input.namespace_).length : Int) < _
    omega
  refine slotsOf_le hevolves (fun id w hnone hw hns => ?_)
  obtain ⟨rfl, -⟩ | ⟨input', locked, n, event, rfl, -, -, hsubmits⟩ := Request.ends_cases hstep
  · rw [hnone] at hw
    cases hw
  · have hmem : Request.admitted input' locked ∈ s.requests := by
      rw [hreqs]
      exact List.mem_append_right _ List.mem_cons_self
    rw [Table.get_insert hsubmits.workflows] at hw
    split at hw
    · cases hw
      have hgates : env.gates input.namespace_ = true := h.gated _ (hsub.subset hin) rfl
      cases locked with
      | false =>
          have hopen := h.ungated input' hmem
          rw [show input'.namespace_ = input.namespace_ from hns, hgates] at hopen
          cases hopen
      | true =>
          have hpair := h.alone
          rw [hreqs] at hpair
          obtain ⟨-, h₂, h₁₂⟩ := List.pairwise_append.mp hpair
          rcases List.mem_append.mp hin with hr | hr
          · exact h₁₂ _ hr _ List.mem_cons_self hns.symm ⟨rfl, rfl⟩
          · exact (List.pairwise_cons.mp h₂).1 _ hr hns ⟨rfl, rfl⟩
    · rw [hnone] at hw
      cases hw

theorem Ordered.step {env : Env} {s s' : Submissions} {replies : List Reply} (h : s.Ordered env)
    (hs : Step env s replies s') : s'.Ordered env := by
  cases hs with
  | tick _ d => exact ⟨h.gated, h.ungated, h.room, h.alone⟩
  | commit _ amb op a db' hrun hother =>
      refine ⟨h.gated, h.ungated, fun input hin => ?_, h.alone⟩
      have hevolves : Evolves env s.db db' :=
        .commit op (Op.run_commit hrun) (noNew_of_commit hrun hother)
      have hle : (db'.slotsOf input.namespace_).length ≤ (s.db.slotsOf input.namespace_).length := by
        refine slotsOf_le hevolves (fun id w hnone hw _ => ?_)
        rw [noNew_of_commit hrun hother id hnone] at hw
        cases hw
      have hroom := h.room input hin
      show ((db'.slotsOf input.namespace_).length : Int) < _
      omega
  | arrive _ input =>
      obtain ⟨outcome, harrive, -⟩ | harrive := s.arrive_cases input <;> rw [harrive]
      · exact h
      · refine ⟨fun r hr hlock => ?_, fun input' hin => ?_, fun input' hin => ?_,
          List.pairwise_cons.mpr ⟨fun r _ _ hlocks => (nomatch hlocks.1), h.alone⟩⟩
        · rcases List.mem_cons.mp hr with rfl | hr
          · cases hlock
          · exact h.gated r hr hlock
        · rcases List.mem_cons.mp hin with heq | hin
          · cases heq
          · exact h.ungated input' hin
        · rcases List.mem_cons.mp hin with heq | hin
          · cases heq
          · exact h.room input' hin
  | wait _ before after amb request next hreqs hstep hfree => exact h.wait hreqs hstep hfree
  | «end» _ before after amb request outcome db' hreqs hstep => exact h.end hreqs hstep
  | lost _ before after request hreqs =>
      have hsub : (before ++ after).Sublist s.requests := by
        rw [hreqs]
        exact (List.Sublist.refl before).append (List.sublist_cons_self request after)
      exact ⟨fun r hr => h.gated r (hsub.subset hr), fun input hin => h.ungated input (hsub.subset hin),
        fun input hin => h.room input (hsub.subset hin), h.alone.sublist hsub⟩

/-- The database of a system with no request in progress. -/
def start (db : DB) : Submissions := ⟨db, []⟩

theorem ordered_start (env : Env) (db : DB) : (start db).Ordered env :=
  ⟨fun _ hr => (nomatch hr), fun _ hr => (nomatch hr), fun _ hr => (nomatch hr), List.Pairwise.nil⟩

/-- What holds of the first database and is kept by every way to evolve holds along a run. -/
theorem Run.invariant {env : Env} {db₀ : DB} {replies : List Reply} {s : Submissions}
    {I : DB → Prop} (h : Run env (start db₀) replies s) (hinit : I db₀)
    (hstep : ∀ db db', I db → Evolves env db db' → I db') : I s.db ∧ s.Ordered env := by
  induction h with
  | refl => exact ⟨hinit, ordered_start env db₀⟩
  | tail _ hlast ih => exact ⟨hstep _ _ ih.1 (ih.2.evolves hlast), ih.2.step hlast⟩

-- ============================================================================
-- Scripts
-- ============================================================================

/-- One entry of a script: the clock, an operation, a new request, or the next statement of the
    request at a position. -/
inductive Move where
  | tick (d : Nat)
  | call {α : Type} (op : Op α)
  | arrive (input : CreateWorkflowInput)
  | next (position : Nat)

/-- The replies and the state after an entry, absent when it is not a step. -/
def move? (env : Env) (amb : Ambient) (s : Submissions) : Move → Option (List Reply × Submissions)
  | .tick d => some ([], { s with db := s.db.tick d })
  | .call op =>
      match op.isSubmission, op.run env amb s.db with
      | false, .ok (_, db') => some ([], { s with db := db' })
      | _, _ => none
  | .arrive input => some (s.arrive input)
  | .next position =>
      match s.requests.drop position with
      | [] => none
      | request :: after =>
          match request.step env amb s.db with
          | .ends outcome db' =>
              some ([⟨request.input, outcome⟩], ⟨db', s.requests.take position ++ after⟩)
          | .waits next =>
              if next.holdsLock && (s.requests.take position ++ after).any (fun r =>
                  r.input.namespace_ = next.input.namespace_ && r.holdsLock) then none
              else some ([], { s with requests := s.requests.take position ++ next :: after })

theorem step_of_move? {env : Env} {amb : Ambient} {s s' : Submissions} {move : Move}
    {last : List Reply} (h : s.move? env amb move = some (last, s')) : Step env s last s' := by
  cases move with
  | tick d =>
      cases h
      exact .tick s d
  | call op =>
      simp only [move?] at h
      split at h
      · rename_i a db' hother hrun
        cases h
        exact .commit s amb op a db' hrun hother
      · cases h
  | arrive input =>
      have harrive : s.arrive input = (last, s') := Option.some.inj h
      have hstep : Step env s (s.arrive input).1 (s.arrive input).2 := .arrive s input
      rwa [harrive] at hstep
  | next position =>
      simp only [move?] at h
      split at h
      · cases h
      · rename_i request after hdrop
        have hreqs : s.requests = s.requests.take position ++ request :: after := by
          rw [← hdrop, List.take_append_drop]
        split at h
        · rename_i outcome db' hstep
          cases h
          exact .end s _ after amb request outcome db' hreqs hstep
        · rename_i next hstep
          split at h
          · cases h
          · rename_i hfree
            cases h
            refine .wait s _ after amb request next hreqs hstep (fun hnext _ r hr hns => ?_)
            by_contra hlock
            rw [hnext, Bool.true_and] at hfree
            exact hfree (List.any_eq_true.mpr ⟨r, hr, by simp [hns, hlock]⟩)

/-- The replies and the state a script leads to, its first entry being the `n`-th call. -/
def moves? (env : Env) : Nat → List Move → Submissions → Option (List Reply × Submissions)
  | _, [], s => some ([], s)
  | n, move :: script, s =>
      match s.move? env (.drawn n) move with
      | none => none
      | some (last, s') => (moves? env (n + 1) script s').map (fun r => (last ++ r.1, r.2))

theorem Run.head {env : Env} {s s' s'' : Submissions} {first replies : List Reply}
    (h : Step env s first s') (hrun : Run env s' replies s'') : Run env s (first ++ replies) s'' := by
  induction hrun with
  | refl =>
      have hone : Run env s ([] ++ first) s' := .tail .refl h
      simpa using hone
  | tail _ hstep ih =>
      rw [← List.append_assoc]
      exact ih.tail hstep

theorem run_of_moves? {env : Env} {n : Nat} {script : List Move} {s s' : Submissions}
    {replies : List Reply} (h : moves? env n script s = some (replies, s')) :
    Run env s replies s' := by
  induction script generalizing n s replies with
  | nil =>
      cases h
      exact .refl
  | cons move script ih =>
      simp only [moves?] at h
      split at h
      · cases h
      · rename_i last s₁ hmove
        obtain ⟨⟨rest, s₂⟩, hrest, heq⟩ := Option.map_eq_some_iff.mp h
        cases heq
        exact .head (step_of_move? hmove) (ih hrest)

end Submissions

end DurableEngine.State
