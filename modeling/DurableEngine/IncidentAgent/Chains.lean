/-
  DurableEngine.IncidentAgent.Chains

  The commits of the calls of the incident workflow, one after another.

  An approved run is dispatched in a fixed chain of commits (`dispatch_run`),
  which the effect's checks cut short or pass; an approval puts three more in
  front (`approve_run`).
-/

import DurableEngine.IncidentAgent.Workflow

namespace DurableEngine.IncidentAgent

open Lib Lib.Durable

variable {py : Python} {w : InvestigationWorkflow} {s t : Store} {i j : Incident} {e : Event} {p : Proposal}
  {α β : Type} {f : Unit → Call β} {r : Receipt}

-- ============================================================================
-- Tables
-- ============================================================================

namespace Store

@[simp] theorem recorded_incident : (s.recorded i e).incident = some { i with revision := i.revision + 1 } := rfl

@[simp] theorem recorded_grant : (s.recorded i e).grant = s.grant := rfl

@[simp] theorem recorded_effects : (s.recorded i e).effects = s.effects := rfl

@[simp] theorem recorded_approval : (s.recorded i e).approval = s.approval := rfl

@[simp] theorem recorded_runID : (s.recorded i e).runID = s.runID := rfl

/-- The row after an `update` that gives the state and perhaps a receipt. -/
def moved (s : Store) (i : Incident) (state : WorkflowState) (receipt : Option Receipt) : Store :=
  { s with incident := some { i with state := state, receipt := receipt <|> i.receipt } }

@[simp] theorem updated_none (state : WorkflowState) (receipt : Option Receipt) :
    s.updated i state none none none receipt = s.moved i state receipt := by
  simp [updated, moved]

@[simp] theorem moved_incident (state : WorkflowState) (receipt : Option Receipt) :
    (s.moved i state receipt).incident = some { i with state := state, receipt := receipt <|> i.receipt } := rfl

@[simp] theorem moved_grant (state : WorkflowState) (receipt : Option Receipt) :
    (s.moved i state receipt).grant = s.grant := rfl

@[simp] theorem moved_effects (state : WorkflowState) (receipt : Option Receipt) :
    (s.moved i state receipt).effects = s.effects := rfl

@[simp] theorem moved_approval (state : WorkflowState) (receipt : Option Receipt) :
    (s.moved i state receipt).approval = s.approval := rfl

@[simp] theorem moved_runID (state : WorkflowState) (receipt : Option Receipt) :
    (s.moved i state receipt).runID = s.runID := rfl

theorem effectOf_eq_none {key : String} : s.effectOf key = none ↔ ∀ e ∈ s.effects, e.effectKey ≠ key := by
  simp [effectOf]

end Store

-- ============================================================================
-- Single calls of the store
-- ============================================================================

theorem run_row (h : s.incident = some i) : row s = ⟨[], .ok i⟩ := by
  rw [row, run_read_bind, h]
  rfl

theorem run_row_none (h : s.incident = none) :
    row s = ⟨[], .error (.workflowError s!"unknown incident run: {s.runID}")⟩ := by
  rw [row, run_read_bind, h]
  rfl

theorem run_row_bind {f : Incident → Call β} (h : s.incident = some i) : (row >>= f) s = f i s := by
  rw [run_bind_ok (a := i) (by rw [run_row h])]
  simp [run_row h, Commits.last]

theorem run_row_none_bind {f : Incident → Call β} (h : s.incident = none) :
    (row >>= f) s = ⟨[], .error (.workflowError s!"unknown incident run: {s.runID}")⟩ := by
  rw [run_bind_error (e := .workflowError s!"unknown incident run: {s.runID}") (by rw [run_row_none h]),
    run_row_none h]

theorem run_event_bind (h : s.incident = some i) :
    (event e >>= f) s = ⟨s.recorded i e :: (f () (s.recorded i e)).states, (f () (s.recorded i e)).result⟩ := by
  have hevent : event e s = ⟨[s.recorded i e], .ok ()⟩ := by
    rw [event, run_row_bind h, run_commit]
  rw [run_bind_ok (a := ()) (by rw [hevent])]
  simp [hevent, Commits.last]

theorem run_event (h : s.incident = some i) : event e s = ⟨[s.recorded i e], .ok ()⟩ := by
  rw [event, run_row_bind h, run_commit]

theorem run_require_bind : (require true >>= f) s = f () s := by
  simp [require, run_bind_ok, Commits.last]

theorem run_require_false_bind : (require false >>= f) s = ⟨[], .error .raised⟩ := by
  simp [require, run_raise_bind]

/-- An `update` of the state and the receipt cannot fail. -/
theorem run_move_bind {state : WorkflowState} {receipt : Option Receipt} (h : s.incident = some i) :
    (update py state none none none receipt >>= f) s =
      ⟨s.moved i state receipt :: (f () (s.moved i state receipt)).states,
        (f () (s.moved i state receipt)).result⟩ := by
  have hupdate : update py state none none none receipt s = ⟨[s.moved i state receipt], .ok ()⟩ := by
    rw [update, run_row_bind h]
    simp [run_require_bind]
  rw [run_bind_ok (a := ()) (by rw [hupdate])]
  simp [hupdate, Commits.last]

theorem run_snapshot (h : s.incident = some i) : snapshot s = ⟨[], .ok ⟨s.runID, i, s.timeline⟩⟩ := by
  rw [snapshot, run_row_bind h]
  rfl

-- ============================================================================
-- Conditions on the commits
-- ============================================================================

variable {I : Store → Prop} {Q : Unit → Store → Prop} {R : β → Store → Prop}

theorem holds_row_bind {f : Incident → Call β} (h : ∀ i, s.incident = some i → Holds I (f i) s R) :
    Holds I (row >>= f) s R := by
  cases hi : s.incident with
  | none => exact (Holds.raise (Q := R)).congr (run_row_none_bind hi)
  | some i => exact (h i hi).congr (run_row_bind hi)

theorem holds_require_bind {b : Bool} (h : b = true → Holds I (f ()) s R) : Holds I (require b >>= f) s R := by
  cases b with
  | false => exact (Holds.raise (Q := R)).congr run_require_false_bind
  | true => exact (h rfl).congr run_require_bind

theorem holds_event_bind (h : ∀ i, s.incident = some i → I (s.recorded i e) ∧ Holds I (f ()) (s.recorded i e) R) :
    Holds I (event e >>= f) s R := by
  cases hi : s.incident with
  | none =>
      apply (Holds.raise (Q := R)).congr
      show (event e >>= f) s = ⟨[], .error (.workflowError s!"unknown incident run: {s.runID}")⟩
      have hevent : event e s = ⟨[], .error (.workflowError s!"unknown incident run: {s.runID}")⟩ := by
        rw [event, run_row_none_bind hi]
      rw [run_bind_error (by rw [hevent]), hevent]
  | some i =>
      obtain ⟨hI, hf⟩ := h i hi
      exact hf.cons (run_event_bind hi) hI

theorem holds_event (h : ∀ i, s.incident = some i → I (s.recorded i e) ∧ Q () (s.recorded i e)) :
    Holds I (event e) s Q := by
  apply holds_row_bind
  intro i hi
  exact Holds.commit (h i hi).1 (h i hi).2

theorem holds_update {state : WorkflowState} {diagnosis : Option PyStr} {citations : Option (List PyStr)}
    {proposal : Option Proposal} {receipt : Option Receipt}
    (h : ∀ i, s.incident = some i →
      I (s.updated i state diagnosis citations (proposal.map Proposal.reread) receipt) ∧
      Q () (s.updated i state diagnosis citations (proposal.map Proposal.reread) receipt)) :
    Holds I (update py state diagnosis citations proposal receipt) s Q := by
  apply holds_row_bind
  intro i hi
  apply holds_require_bind
  intro _
  apply holds_require_bind
  intro _
  exact Holds.commit (h i hi).1 (h i hi).2

-- ============================================================================
-- Chains
-- ============================================================================

/-- The row of a run that is dispatched, and its store. -/
def Incident.sent (i : Incident) : Incident := { i with state := .dispatched, revision := i.revision + 1 }

def Store.sent (s : Store) (i : Incident) (p : Proposal) : Store :=
  (s.moved i .dispatched none).recorded { i with state := .dispatched } (.effectDispatched p.canonicalArgumentHash)

/-- The row and the store after `effect_verified`. -/
def Incident.checked (i : Incident) (r : Receipt) : Incident :=
  { i with state := .verifying, receipt := some r, revision := i.revision + 1 }

def Store.checked (s : Store) (i : Incident) (r : Receipt) : Store :=
  (s.moved i .verifying (some r)).recorded { i with state := .verifying, receipt := some r } .effectVerified

/-- The commits after an effect: `s` and `i` are what it left. -/
def Store.finishing (s : Store) (i : Incident) (r : Receipt) : List Store :=
  [s.moved i .verifying (some r), s.checked i r,
    (s.checked i r).moved (i.checked r) .completed (some r),
    ((s.checked i r).moved (i.checked r) .completed (some r)).recorded
      { i.checked r with state := .completed } .incidentCompleted]

@[simp] theorem Store.sent_incident : (s.sent i p).incident = some i.sent := rfl

/-- The commits of a dispatch that its effect allows or not. -/
def Store.dispatching (py : Python) (s : Store) (i : Incident) (p : Proposal) : List Store :=
  s.moved i .dispatched none :: s.sent i p ::
    match checkEffect py (s.sent i p) i.sent p with
    | .error _ => []
    | .ok (some r) => (s.sent i p).finishing i.sent r
    | .ok none =>
        let key := Store.effectKey s.runID p.canonicalArgumentHash
        (s.sent i p).applied key p p.receipt :: ((s.sent i p).applied key p p.receipt).finishing i.sent p.receipt

@[simp] theorem Store.applied_incident {key : String} : (s.applied key p r).incident = s.incident := rfl

theorem dispatch_run (h : s.incident = some i) (hstate : i.state = .waitingApproval)
    (happroval : s.approval = some .approved) (hp : i.proposal = some p) :
    (dispatch py s).states = s.dispatching py i p := by
  have hgate : ¬ (i.state ≠ .waitingApproval ∨ s.approval ≠ some .approved) := by simp [hstate, happroval]
  have hfinish : ∀ (t : Store) (k : Incident) (r : Receipt), t.incident = some k →
      ((do
        update py .verifying none none none (some r)
        event .effectVerified
        update py .completed none none none (some r)
        event .incidentCompleted
        snapshot : Call WorkflowSnapshot) t).states = t.finishing k r := by
    intro t k r ht
    rw [run_move_bind ht, run_event_bind (Store.moved_incident ..), run_move_bind Store.recorded_incident,
      run_event_bind (Store.moved_incident ..), run_snapshot Store.recorded_incident]
    rfl
  rw [dispatch, run_row_bind h, run_read_bind, if_neg hgate, hp]
  show (Commits.states ((update py .dispatched none none none none >>= _) s)) = _
  rw [run_move_bind h, run_event_bind (Store.moved_incident ..)]
  show s.moved i .dispatched none :: s.sent i p :: Commits.states ((applyEffect py p >>= _) (s.sent i p)) = _
  unfold Store.dispatching
  congr 2
  cases hcheck : checkEffect py (s.sent i p) i.sent p with
  | error e =>
      have hrun : applyEffect py p (s.sent i p) = ⟨[], .error e⟩ := by
        rw [applyEffect, run_row_bind Store.sent_incident, run_read_bind, hcheck]
        rfl
      rw [run_bind_error (by rw [hrun]), hrun]
  | ok receipt =>
      cases receipt with
      | some r =>
          have hrun : applyEffect py p (s.sent i p) = ⟨[], .ok r⟩ := by
            rw [applyEffect, run_row_bind Store.sent_incident, run_read_bind, hcheck]
            rfl
          rw [run_bind_ok (a := r) (by rw [hrun])]
          simp only [hrun, Commits.last, lastOf_nil, List.nil_append]
          exact hfinish _ _ _ Store.sent_incident
      | none =>
          have hrun : applyEffect py p (s.sent i p) =
              ⟨[(s.sent i p).applied (Store.effectKey s.runID p.canonicalArgumentHash) p p.receipt],
                .ok p.receipt⟩ := by
            rw [applyEffect, run_row_bind Store.sent_incident, run_read_bind, hcheck]
            rfl
          rw [run_bind_ok (a := p.receipt) (by rw [hrun])]
          simp only [hrun, Commits.last, lastOf_cons, lastOf_nil, List.cons_append, List.nil_append]
          rw [hfinish _ _ _ Store.applied_incident]
          rfl

/-- Otherwise `resume` writes nothing. -/
theorem dispatch_idle
    (h : ¬ ∃ i p, s.incident = some i ∧ i.state = .waitingApproval ∧ s.approval = some .approved ∧ i.proposal = some p) :
    (dispatch py s).states = [] := by
  cases hi : s.incident with
  | none => rw [dispatch, run_row_none_bind hi]
  | some i =>
      rw [dispatch, run_row_bind hi, run_read_bind]
      split
      · rw [run_snapshot hi]
      · rename_i hgate
        rw [not_or, not_not, not_not] at hgate
        cases hp : i.proposal with
        | none => rfl
        | some p => exact absurd ⟨i, p, hi, hgate.1, hgate.2, hp⟩ h

/-- The row and the store after `approval_granted`. -/
def Incident.noted (i : Incident) : Incident := { i with revision := i.revision + 1 }

def Store.noted (s : Store) (i : Incident) (actor : String) : Store :=
  { s with approval := some .approved }.recorded i (.approvalGranted actor)

@[simp] theorem Store.noted_incident {actor : String} : (s.noted i actor).incident = some i.noted := rfl

@[simp] theorem Store.granted_incident : (s.granted i p).incident = s.incident := rfl

/-- The commits of an approval. -/
def Store.approving (py : Python) (s : Store) (i : Incident) (p : Proposal) (actor : String) : List Store :=
  { s with approval := some .approved } :: s.noted i actor ::
    if p.targetResourceID.encodable then
      (s.noted i actor).granted i.noted p :: ((s.noted i actor).granted i.noted p).dispatching py i.noted p
    else []

theorem approve_run {actor : String} (h : s.incident = some i) (hstate : i.state = .waitingApproval)
    (hp : i.proposal = some p) : (approve w actor s).states = s.approving w.py i p actor := by
  rw [approve, run_row_bind h, if_neg (not_not.mpr hstate)]
  show (Commits.states ((storeApproval .approved >>= _) s)) = _
  rw [storeApproval, run_commit_bind, hp]
  show { s with approval := some .approved } :: (Commits.states ((event (.approvalGranted actor) >>= _) _)) = _
  rw [run_event_bind (s := { s with approval := some .approved }) h]
  show _ :: s.noted i actor :: Commits.states ((createGrant p >>= _) (s.noted i actor)) = _
  unfold Store.approving
  congr 2
  cases htarget : p.targetResourceID.encodable with
  | false =>
      have hrun : createGrant p (s.noted i actor) = ⟨[], .error .raised⟩ := by
        rw [createGrant, run_row_bind Store.noted_incident, run_read_bind, if_neg (by simp [Store.noted]), htarget,
          run_require_false_bind]
      rw [run_bind_error (by rw [hrun]), hrun, if_neg (by simp)]
  | true =>
      have hrun : createGrant p (s.noted i actor) = ⟨[(s.noted i actor).granted i.noted p], .ok ()⟩ := by
        rw [createGrant, run_row_bind Store.noted_incident, run_read_bind, if_neg (by simp [Store.noted]), htarget,
          run_require_bind]
        rfl
      rw [run_bind_ok (a := ()) (by rw [hrun]), if_pos rfl]
      simp only [hrun, Commits.last, lastOf_cons, lastOf_nil, List.cons_append, List.nil_append]
      have hwaiting : ((s.noted i actor).granted i.noted p).incident = some i.noted := rfl
      rw [dispatch_run hwaiting hstate rfl hp]

theorem approve_other {actor : String} (h : ∀ i, s.incident = some i → i.state ≠ .waitingApproval) :
    (approve w actor s).states = [] := by
  cases hi : s.incident with
  | none => rw [approve, run_row_none_bind hi]
  | some i =>
      rw [approve, run_row_bind hi, if_pos (h i hi)]
      rfl

/-- An approval of a run without a proposal raises after two commits. -/
theorem approve_nothing {actor : String} (h : s.incident = some i) (hstate : i.state = .waitingApproval)
    (hp : i.proposal = none) :
    (approve w actor s).states = [{ s with approval := some .approved }, s.noted i actor] := by
  rw [approve, run_row_bind h, if_neg (not_not.mpr hstate)]
  show (Commits.states ((storeApproval .approved >>= _) s)) = _
  rw [storeApproval, run_commit_bind, hp]
  show { s with approval := some .approved } :: (Commits.states ((event (.approvalGranted actor) >>= _) _)) = _
  rw [run_event_bind (s := { s with approval := some .approved }) h]
  rfl

/-- The commits of a rejection. -/
def Store.rejecting (s : Store) (i : Incident) (actor : String) : List Store :=
  let t := { s with approval := some .rejected }
  [t, t.moved i .rejected none, (t.moved i .rejected none).recorded { i with state := .rejected }
    (.approvalRejected actor)]

theorem reject_run {actor : String} (h : s.incident = some i) (hstate : i.state = .waitingApproval) :
    (reject w actor s).states = s.rejecting i actor := by
  rw [reject, run_row_bind h, if_neg (not_not.mpr hstate)]
  show (Commits.states ((storeApproval .rejected >>= _) s)) = _
  rw [storeApproval, run_commit_bind, run_move_bind (s := { s with approval := some .rejected }) h,
    run_event_bind (Store.moved_incident ..), run_snapshot Store.recorded_incident]
  rfl

theorem reject_other {actor : String} (h : ∀ i, s.incident = some i → i.state ≠ .waitingApproval) :
    (reject w actor s).states = [] := by
  cases hi : s.incident with
  | none => rw [reject, run_row_none_bind hi]
  | some i =>
      rw [reject, run_row_bind hi, if_pos (h i hi)]
      rfl

end DurableEngine.IncidentAgent
