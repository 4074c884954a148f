/-
  DurableEngine.State.Ambiguity

  Attempts whose effect may have happened although no result was recorded.

  When the claimed attempt of a non-cooperating effect times out, its node keeps
  pointing to it; when it is canceled, its workflow has ended.  Either way the
  store has no way to give the node another attempt (`Stuck`).  So a node whose
  effect does not cooperate gets a further attempt only after the results of all
  earlier ones were recorded and consumed (`Consumed`).
-/

import DurableEngine.State.Intents
import DurableEngine.State.Results

namespace DurableEngine.State

open Lib

-- ============================================================================
-- Why a node points to another attempt
-- ============================================================================

/-- The workflow of a node has ended. -/
def DB.over (db : DB) (k : NodeKey) : Prop :=
  ∃ w, db.workflows.get k.workflowID = some w ∧ w.state.isTerminal = true

/-- No attempt of the node is new. -/
def NoNewAttempt (db db' : DB) (k : NodeKey) : Prop :=
  ∀ m b, db'.attempts.get ⟨k, m⟩ = some b → ∃ a, db.attempts.get ⟨k, m⟩ = some a

/-- What a committed operation does to the attempt a node points to, and why. -/
inductive PointerMove (db db' : DB) (k : NodeKey) : Prop where
  | keep (pointer : db'.pointer k = db.pointer k) (noNew : NoNewAttempt db db' k)
  | ended (isOver : db'.over k) (noNew : NoNewAttempt db db' k)
  | consumed (m : Int) (a : Attempt) (before : db.pointer k = some m)
      (attempt : db.attempts.get ⟨k, m⟩ = some a)
      (outcome : a.state = .succeeded ∧ (∃ n, db'.nodes.get k = some n ∧ n.state = .succeeded) ∨
        a.state = .failedRetryable)
      (attempts : db'.attempts = db.attempts)
  | created (N : Int) (before : db.pointer k = none) (generation : Generation db k N)
      (live : ¬ db.over k) (waiting : ∃ n, db.nodes.get k = some n ∧ n.state = .waitingActivity)
      (after : db'.pointer k = some (N + 1))
      (new : ∀ m b, db'.attempts.get ⟨k, m⟩ = some b → m ≠ N + 1 →
        db.attempts.get ⟨k, m⟩ = some b)
  | replaced (m : Int) (a : Attempt) (before : db.pointer k = some m)
      (attempt : db.attempts.get ⟨k, m⟩ = some a) (isCurrent : a.isCurrent = true)
      (effectClass : a.effectClass ≠ .nonCooperating) (after : db'.pointer k = some (m + 1))
      (timedOut : ∀ a', db'.attempts.get ⟨k, m⟩ = some a' → a'.state = .timedOut)
      (new : ∀ m' b, db'.attempts.get ⟨k, m'⟩ = some b → m' ≠ m + 1 →
        ∃ a, db.attempts.get ⟨k, m'⟩ = some a)

theorem NoNewAttempt.of_eq {db db' : DB} (h : db'.attempts = db.attempts) (k : NodeKey) :
    NoNewAttempt db db' k := by
  intro m b hb
  rw [h] at hb
  exact ⟨b, hb⟩

theorem NoNewAttempt.of_modify {db db' : DB} {key : AttemptKey} {f : Attempt → Attempt}
    {hf : ∀ a, (f a).key = a.key} (h : db'.attempts = (db.modifyAttempt key f hf).attempts)
    (k : NodeKey) : NoNewAttempt db db' k :=
  fun _ b hb => (exists_get_modifyAttempt h _).mp ⟨b, hb⟩

theorem over_of_moves {db db' : DB} {w : Workflow} {s : WorkflowState} {row : TransitionRecord}
    (h : Moves db db' w s row) (hs : s.isTerminal = true) {k : NodeKey}
    (hk : k.workflowID = w.workflowID) : db'.over k :=
  ⟨_, by rw [h.get_workflow, if_pos hk], hs⟩

theorem Change.Owner.noNew {db db' : DB} {input : OwnerTransitionInput} {w : Workflow}
    {row : TransitionRecord} {current : Option Int} {timer : Option Timer}
    (c : Change.Owner db input w row current timer db') (k : NodeKey) : NoNewAttempt db db' k := by
  intro m b hb
  rw [c.attempts, moveOwnedNode_attempts] at hb
  split at hb
  · obtain ⟨a, ha, -⟩ := Option.map_eq_some_iff.mp hb
    exact ⟨a, ha⟩
  · exact ⟨b, hb⟩

theorem Change.Owner.pointerMove {db db' : DB} {input : OwnerTransitionInput} {w : Workflow}
    {row : TransitionRecord} {current : Option Int} {timer : Option Timer}
    (c : Change.Owner db input w row current timer db') (k : NodeKey) : PointerMove db db' k := by
  by_cases hcancels : k = input.key ∧ input.cancels w.state = true
  · obtain ⟨rfl, hcancels⟩ := hcancels
    have hnew : input.newState = .canceled := by
      simp only [OwnerTransitionInput.cancels, Bool.and_eq_true, decide_eq_true_eq] at hcancels
      exact hcancels.1
    exact .ended (over_of_moves c.moves (by rw [hnew]; rfl) c.workflow.symm) (c.noNew _)
  · refine .keep ?_ (c.noNew k)
    rw [DB.pointer, DB.pointer, c.nodes, moveOwnedNode_nodes]
    split
    · rename_i hk
      cases db.nodes.get k with
      | none => rfl
      | some n =>
          rw [Option.map_some, Option.bind_some, Option.bind_some, NodeInstance.ownerMove,
            if_neg (fun hc => hcancels ⟨hk, hc.1⟩)]
          cases input.target <;> rfl
    · rfl

theorem Change.Canceled.noNew {db db' : DB} {w : Workflow} (c : Change.Canceled db w db')
    (k : NodeKey) : NoNewAttempt db db' k := by
  intro m b hb
  rw [c.attempts] at hb
  obtain ⟨a, ha, -⟩ := Option.map_eq_some_iff.mp hb
  exact ⟨a, ha⟩

theorem Change.Canceled.pointerMove {db db' : DB} {w : Workflow} (c : Change.Canceled db w db')
    (k : NodeKey) : PointerMove db db' k := by
  obtain ⟨row, hm, -⟩ := c.advances.moves
  by_cases hk : k.workflowID = w.workflowID
  · exact .ended (over_of_moves hm rfl hk) (c.noNew k)
  · refine .keep ?_ (c.noNew k)
    rw [DB.pointer, DB.pointer, c.nodes]
    cases hn : db.nodes.get k with
    | none => rfl
    | some n =>
        have hcancelable : n.cancelable w.workflowID = false := by
          simp [NodeInstance.cancelable, Table.key_of_get hn, hk]
        rw [Option.map_some, hcancelable]
        rfl

/-- A consumed result either ends the workflow, or is a success or a failure to be retried. -/
theorem Change.Consumed.outcome_cases {db db' : DB} {input : ConsumeResultInput} {w : Workflow}
    {n : NodeInstance} {a : Attempt} {result : Jsonb} {newState nodeState : WorkflowState}
    {retryAfter : Option Int}
    (c : Change.Consumed db input w n a result newState nodeState retryAfter db') :
    newState.isTerminal = true ∨ (a.state = .succeeded ∧ nodeState = .succeeded) ∨
      a.state = .failedRetryable := by
  have h := c.outcome
  unfold consumedNodeState at h
  split at h
  · rename_i hs
    split at h
    · cases h
    · cases h
      exact .inr (.inl ⟨hs, rfl⟩)
  · rename_i hs
    exact .inr (.inr hs)
  · split at h
    · cases h
    · rename_i hfailed
      simp only [ne_eq, not_not] at hfailed
      rw [hfailed]
      exact .inl rfl
  · cases h

theorem Change.Consumed.pointerMove {db db' : DB} {input : ConsumeResultInput} {w : Workflow}
    {n : NodeInstance} {a : Attempt} {result : Jsonb} {newState nodeState : WorkflowState}
    {retryAfter : Option Int}
    (c : Change.Consumed db input w n a result newState nodeState retryAfter db') (k : NodeKey) :
    PointerMove db db' k := by
  by_cases hk : k = input.key
  · subst hk
    have hptr : db.pointer input.key = some input.attemptNumber :=
      pointer_eq_some.mpr ⟨n, c.node, c.current⟩
    obtain ⟨row, hm, -⟩ := c.advances.moves
    rcases c.outcome_cases with hterm | ⟨hs, hnode⟩ | hs
    · exact .ended (over_of_moves hm hterm c.workflow.symm) (.of_eq c.attempts _)
    · refine .consumed _ a hptr c.attempt (.inl ⟨hs, n.consume nodeState result
        (retryAfter.map (fun delay => db.now + delay)), ?_, hnode⟩) c.attempts
      rw [c.nodes, DB.get_modifyNode, if_pos rfl, c.node, Option.map_some]
    · exact .consumed _ a hptr c.attempt (.inr hs) c.attempts
  · exact .keep (pointer_modifyNode_ne c.nodes hk) (.of_eq c.attempts k)

theorem Change.AttemptCreated.pointerMove {db db' : DB} {input : AttemptInput} {w : Workflow}
    {n : NodeInstance} {effectClass : EffectClass} {deadline : Int} {effectKey scope : Option String}
    (c : Change.AttemptCreated db input w n effectClass deadline effectKey scope db') {N : Int}
    (hN : Generation db input.key N) (k : NodeKey) : PointerMove db db' k := by
  by_cases hk : k = input.key
  · subst hk
    have hmax := hN.maxAttempt
    have hfree : db.pointer input.key = none := by
      rw [pointer_of_get c.node]
      cases hp : n.currentAttempt with
      | none => rfl
      | some p =>
          have hpos := hN.pointer p (pointer_eq_some.mpr ⟨n, c.node, hp⟩)
          have hzero := c.free
          rw [hp, Option.getD_some] at hzero
          omega
    have hlive : ¬ db.over input.key := by
      rintro ⟨w', hw', hterm⟩
      obtain ⟨row, hm, -⟩ := c.advances.moves
      have hget := hm.get
      rw [c.workflow] at hget
      cases hw'.symm.trans hget
      rw [c.waiting] at hterm
      cases hterm
    refine .created N hfree hN hlive ⟨n, c.node, c.nodeWaiting⟩ ?_ ?_
    · rw [pointer_modifyNode_self c.nodes c.node, hmax]
    · intro m b hb hne
      rw [Table.get_insert c.attempts, if_neg (by simp [freshAttempt, hmax, hne])] at hb
      exact hb
  · refine .keep (pointer_modifyNode_ne c.nodes hk) (fun m b hb => ⟨b, ?_⟩)
    rw [Table.get_insert c.attempts, if_neg (by simp [freshAttempt, hk])] at hb
    exact hb

theorem Change.Replaced.pointerMove {db db' : DB} {input : TimeoutInput} {w : Workflow}
    {n : NodeInstance} {a : Attempt} {deadline : Int}
    (c : Change.Replaced db input w n a deadline db') {N : Int}
    (hN : Generation db input.key.node N) (k : NodeKey) : PointerMove db db' k := by
  have hold : ∀ m b, db'.attempts.get ⟨k, m⟩ = some b →
      ¬ (k = input.key.node ∧ m = input.attemptNumber + 1) →
      ∃ a, db.attempts.get ⟨k, m⟩ = some a := by
    intro m b hb hne
    rw [Table.get_insert c.attempts, if_neg (by simpa [freshAttempt] using hne)] at hb
    exact (exists_get_modifyAttempt rfl _).mp ⟨b, hb⟩
  by_cases hk : k = input.key.node
  · subst hk
    refine .replaced input.attemptNumber a (c.pointer hN) c.attempt c.isClaimed.1 c.effectClass
      (pointer_modifyNode_self c.nodes c.node) (fun b hb => ?_)
      (fun m b hb hne => hold m b hb (fun h => hne h.2))
    rw [Table.get_insert_ne c.attempts (by simp [freshAttempt]), DB.get_modifyAttempt] at hb
    rw [if_pos (show (⟨input.key.node, input.attemptNumber⟩ : AttemptKey) = input.key from rfl)] at hb
    obtain ⟨b', -, rfl⟩ := Option.map_eq_some_iff.mp hb
    rfl
  · exact .keep (pointer_modifyNode_ne c.nodes hk) (fun m b hb => hold m b hb (fun h => hk h.1))

theorem Change.pointerMove {db db' : DB} {α : Type} {op : Op α} (h : Change db op db')
    (hgen : ∀ k, ∃ N, Generation db k N) (k : NodeKey) : PointerMove db db' k := by
  cases h with
  | idle rows => exact .keep (pointer_of_nodes rows.nodes k) (.of_eq rows.attempts k)
  | created c =>
      refine .keep ?_ (.of_eq c.attempts k)
      rw [DB.pointer, DB.pointer, Table.get_insert c.nodes]
      split
      · rename_i hk
        rw [hk, (Table.insert?_eq_some_iff.mp c.nodes).1, Option.bind_some, c.node.2.2.2.1]
        rfl
      · rfl
  | owner c => exact c.pointerMove k
  | consumed c => exact c.pointerMove k
  | attemptCreated c =>
      obtain ⟨N, hN⟩ := hgen _
      exact c.pointerMove hN k
  | claimed c | extended c | recorded c | redispatched c | expired c =>
      exact .keep (pointer_of_nodes c.nodes k) (.of_modify c.attempts k)
  | replaced c =>
      obtain ⟨N, hN⟩ := hgen _
      exact c.pointerMove hN k
  | timerScheduled c | approvalRequested c | approvalGranted c | approvalRejected c =>
      exact .keep (pointer_modifyNode c.nodes (fun _ => rfl) k) (.of_eq c.attempts k)
  | canceled c => exact c.pointerMove k
  | advanced c => exact .keep (c.pointer k) (.of_eq c.attempts k)

theorem Change.over {db db' : DB} {α : Type} {op : Op α} (h : Change db op db') {k : NodeKey}
    (hover : db.over k) : db'.over k := by
  obtain ⟨w, hw, hterm⟩ := hover
  exact ⟨w, h.ended hw hterm, hterm⟩

-- ============================================================================
-- Nodes that get no further attempt
-- ============================================================================

/-- The node has no attempt to run and cannot get one: its workflow has ended, or it
    still points to an attempt that timed out. -/
structure Stuck (db : DB) (k : NodeKey) : Prop where
  idle : ∀ m a, db.attempts.get ⟨k, m⟩ = some a → a.isCurrent = false
  blocked : db.over k ∨ ∃ m a, db.pointer k = some m ∧ db.attempts.get ⟨k, m⟩ = some a ∧
    a.state = .timedOut

/-- An attempt that is not current keeps its state and its lack of a result. -/
theorem AttemptStep.settled {a : Attempt} {o' : Option Attempt} (h : AttemptStep (some a) o')
    (hcur : a.isCurrent = false) (hstate : a.state ≠ .dispatchable ∧ a.state ≠ .claimed) :
    ∃ a', o' = some a' ∧ a'.isCurrent = false ∧ a'.state = a.state ∧ a'.result = a.result ∧
      a'.effectClass = a.effectClass := by
  cases h with
  | same => exact ⟨a, rfl, hcur, rfl, rfl, rfl⟩
  | claimed _ token workerID requestID deadline hdisp => exact absurd hdisp.2 hstate.1
  | extended _ deadline => exact ⟨_, rfl, hcur, rfl, rfl, rfl⟩
  | recorded _ outcome document _ hclaimed => exact absurd hclaimed.2 hstate.2
  | timedOut _ hclaimed => exact absurd hclaimed.2 hstate.2
  | canceled =>
      have hne : a.isCurrent ≠ true := by
        rw [hcur]
        exact Bool.false_ne_true
      exact ⟨a, by rw [Attempt.cancel, if_neg hne], hcur, rfl, rfl, rfl⟩

section Step

variable {env : Env} {db db' : DB} {α : Type} {op : Op α} {k : NodeKey}

theorem idle_of_noNew (hidle : ∀ m a, db.attempts.get ⟨k, m⟩ = some a → a.isCurrent = false)
    (hc : Change db op db') (hnoNew : NoNewAttempt db db' k) :
    ∀ m a, db'.attempts.get ⟨k, m⟩ = some a → a.isCurrent = false := by
  intro m b hb
  obtain ⟨a, ha⟩ := hnoNew m b hb
  cases hcur : b.isCurrent with
  | false => rfl
  | true =>
      have hold := (hc.attemptStep ⟨k, m⟩).current_of ha hb hcur
      rw [hidle m a ha] at hold
      cases hold

/-- A stuck node stays stuck and gets no attempt. -/
theorem Stuck.change (h : Stuck db k) (hc : Change db op db') (hgen : ∀ k, ∃ N, Generation db k N) :
    Stuck db' k ∧ NoNewAttempt db db' k := by
  have hover : db.over k → db'.over k := hc.over
  cases hc.pointerMove hgen k with
  | keep pointer noNew =>
      refine ⟨⟨idle_of_noNew h.idle hc noNew, ?_⟩, noNew⟩
      rcases h.blocked with ho | ⟨m, a, hptr, ha, hs⟩
      · exact .inl (hover ho)
      · have hstep := hc.attemptStep ⟨k, m⟩
        rw [ha] at hstep
        obtain ⟨a', ha', -, hs', -⟩ := hstep.settled (h.idle m a ha) (by rw [hs]; decide)
        exact .inr ⟨m, a', pointer.trans hptr, ha', hs'.trans hs⟩
  | ended isOver noNew => exact ⟨⟨idle_of_noNew h.idle hc noNew, .inl isOver⟩, noNew⟩
  | consumed m a before attempt outcome attempts =>
      have noNew : NoNewAttempt db db' k := .of_eq attempts k
      refine ⟨⟨idle_of_noNew h.idle hc noNew, ?_⟩, noNew⟩
      rcases h.blocked with ho | ⟨m', a', hptr, ha', hs⟩
      · exact .inl (hover ho)
      · cases before.symm.trans hptr
        cases attempt.symm.trans ha'
        rcases outcome with ⟨hs', -⟩ | hs' <;> exact absurd (hs'.symm.trans hs) (by decide)
  | created N before generation live waiting after new =>
      rcases h.blocked with ho | ⟨m', a', hptr, -⟩
      · exact absurd ho live
      · rw [before] at hptr
        cases hptr
  | replaced m a before attempt isCurrent effectClass after timedOut new =>
      rw [h.idle m a attempt] at isCurrent
      cases isCurrent

end Step

/-- What holds in the fresh database and is kept by every step of a reachable state holds in
    every reachable state. -/
theorem Reachable.invariant {env : Env} {I : DB → Prop} {db : DB} (h : Reachable env db)
    (hinit : ∀ now, I (DB.init now))
    (hstep : ∀ db db', Reachable env db → I db → Step env db db' → I db') : I db := by
  obtain ⟨now, hrun⟩ := h
  induction hrun with
  | refl => exact hinit now
  | tail hfirst hlast ih => exact hstep _ _ ⟨now, hfirst⟩ ih hlast

/-- The attempt was taken from its worker, or canceled, without a result. -/
def Attempt.lost (a : Attempt) : Prop :=
  a.state = .canceled ∨ a.state = .timedOut ∧ a.effectClass = .nonCooperating

theorem AttemptStep.effectClass_eq {a a' : Attempt} (h : AttemptStep (some a) (some a')) :
    a'.effectClass = a.effectClass := by
  cases h with
  | same | claimed | extended | recorded | timedOut => rfl
  | canceled =>
      unfold Attempt.cancel
      split <;> rfl

/-- An attempt is canceled only with its workflow. -/
theorem Change.over_of_canceled {db db' : DB} {α : Type} {op : Op α} (h : Change db op db')
    {k : AttemptKey} {a a' : Attempt} (ha : db.attempts.get k = some a)
    (ha' : db'.attempts.get k = some a') (hne : a.state ≠ .canceled) (hs : a'.state = .canceled) :
    db'.over k.node ∧ NoNewAttempt db db' k.node := by
  have hsame : db'.attempts.get k = db.attempts.get k →
      db'.over k.node ∧ NoNewAttempt db db' k.node := by
    intro hget
    cases ha'.symm.trans (hget.trans ha)
    exact absurd hs hne
  have hmodify : ∀ {key : AttemptKey} {f : Attempt → Attempt} {hf : ∀ a, (f a).key = a.key},
      db'.attempts = (db.modifyAttempt key f hf).attempts →
      (∀ b, db.attempts.get key = some b → (f b).state ≠ .canceled) →
      db'.over k.node ∧ NoNewAttempt db db' k.node := by
    intro key f hf hattempts hf'
    rw [hattempts, DB.get_modifyAttempt, ha] at ha'
    split at ha'
    · rename_i hk
      cases ha'
      exact absurd hs (hf' a (hk ▸ ha))
    · cases ha'
      exact absurd hs hne
  cases h with
  | idle rows => exact hsame (by rw [rows.attempts])
  | created c | consumed c | timerScheduled c | advanced c | approvalRequested c | approvalGranted c
  | approvalRejected c => exact hsame (by rw [c.attempts])
  | @owner _ input w _ current _ c =>
      by_cases hcancels : k.node = input.key ∧ input.cancels w.state = true ∧
          current = some k.number
      · have hnew : input.newState = .canceled := by
          have hc := hcancels.2.1
          simp only [OwnerTransitionInput.cancels, Bool.and_eq_true, decide_eq_true_eq] at hc
          exact hc.1
        exact ⟨over_of_moves c.moves (by rw [hnew]; rfl)
          ((congrArg NodeKey.workflowID hcancels.1).trans c.workflow.symm), c.noNew k.node⟩
      · refine hsame ?_
        rw [c.attempts, moveOwnedNode_attempts, if_neg hcancels]
  | attemptCreated c => exact hsame (Table.get_insert_of_get c.attempts ha ▸ ha.symm)
  | claimed c => exact hmodify c.attempts (fun b hb => (nomatch ·))
  | extended c =>
      refine hmodify c.attempts (fun b hb hs => ?_)
      cases hb.symm.trans c.attempt
      exact absurd (hs.symm.trans c.isClaimed.2) (by decide)
  | redispatched c =>
      refine hmodify c.attempts (fun b hb hs => ?_)
      cases hb.symm.trans c.attempt
      exact absurd (hs.symm.trans c.dispatchable.2) (by decide)
  | recorded c =>
      refine hmodify c.attempts (fun b hb hs => ?_)
      have hterm := c.outcome
      simp only at hs
      rw [hs] at hterm
      cases hterm
  | expired c => exact hmodify c.attempts (fun b hb => (nomatch ·))
  | @replaced _ input _ _ _ _ c =>
      rw [Table.get_insert c.attempts] at ha'
      split at ha'
      · cases ha'
        cases hs
      · rw [DB.get_modifyAttempt, ha] at ha'
        split at ha'
        · cases ha'
          cases hs
        · cases ha'
          exact absurd hs hne
  | @canceled _ _ _ w c =>
      rw [c.attempts, ha, Option.map_some, Option.some.injEq] at ha'
      split at ha'
      · rename_i hcancels
        simp only [DB.cancelsAttempt, Option.any_eq_true, Bool.and_eq_true] at hcancels
        obtain ⟨n, hn, hcancelable, -⟩ := hcancels
        simp only [NodeInstance.cancelable, Bool.and_eq_true, decide_eq_true_eq] at hcancelable
        have hid : k.node.workflowID = w.workflowID := by
          rw [← Table.key_of_get hn]
          exact hcancelable.1
        obtain ⟨row, hm, -⟩ := c.advances.moves
        exact ⟨over_of_moves hm rfl hid, c.noNew k.node⟩
      · rw [ha'] at hne
        exact absurd hs hne

/-- A node whose current attempt is lost in a step is stuck from then on. -/
theorem Stuck.of_lost {env : Env} {db db' : DB} {α : Type} {op : Op α} (h : Reachable env db)
    (hc : Change db op db') {k : AttemptKey} {a a' : Attempt} (ha : db.attempts.get k = some a)
    (hcur : a.isCurrent = true) (ha' : db'.attempts.get k = some a')
    (hshape' : AttemptShape a') (hlost : a'.lost) : Stuck db' k.node := by
  obtain ⟨N, hN⟩ := h.generation k.node
  have hshape := h.attemptShape ha
  have hptr := hN.current k.number a ha hcur
  have hgone : a'.isCurrent = false := by
    cases hc' : a'.isCurrent with
    | false => rfl
    | true =>
        rcases hshape'.current.mp hc' with hs | hs <;> rcases hlost with hl | ⟨hl, -⟩ <;>
          exact absurd (hs.symm.trans hl) (by decide)
  -- the node's other attempts were not current before
  have hidle : NoNewAttempt db db' k.node →
      ∀ m b, db'.attempts.get ⟨k.node, m⟩ = some b → b.isCurrent = false := by
    intro noNew m b hb
    obtain ⟨b₀, hb₀⟩ := noNew m b hb
    cases hb' : b.isCurrent with
    | false => rfl
    | true =>
        have hold := (hc.attemptStep ⟨k.node, m⟩).current_of hb₀ hb hb'
        cases hptr.symm.trans (hN.current m b₀ hb₀ hold)
        cases ha'.symm.trans hb
        rw [hgone] at hb'
        cases hb'
  rcases hlost with hs | ⟨hs, hclass⟩
  · have hne : a.state ≠ .canceled := by
      rcases hshape.current.mp hcur with h' | h' <;> rw [h'] <;> decide
    obtain ⟨isOver, noNew⟩ := hc.over_of_canceled ha ha' hne hs
    exact ⟨hidle noNew, .inl isOver⟩
  · cases hc.pointerMove h.generation k.node with
    | keep pointer noNew =>
        exact ⟨hidle noNew, .inr ⟨k.number, a', pointer.trans hptr, ha', hs⟩⟩
    | ended isOver noNew => exact ⟨hidle noNew, .inl isOver⟩
    | consumed m b before attempt outcome attempts =>
        rw [attempts, ha, Option.some.injEq] at ha'
        rw [← ha', hcur] at hgone
        cases hgone
    | created N before generation live waiting after new =>
        rw [before] at hptr
        cases hptr
    | replaced m b before attempt isCurrent effectClass after timedOut new =>
        cases hptr.symm.trans before
        cases ha.symm.trans attempt
        have hstep := hc.attemptStep k
        rw [ha, ha'] at hstep
        exact absurd (hstep.effectClass_eq.symm.trans hclass) effectClass

/-- The node of a lost attempt is stuck. -/
theorem Reachable.stuck {env : Env} {db : DB} (h : Reachable env db) {k : AttemptKey} {a : Attempt}
    (ha : db.attempts.get k = some a) (hlost : a.lost) : Stuck db k.node := by
  have hall : ∀ k a, db.attempts.get k = some a → a.lost → Stuck db k.node := by
    refine h.invariant (I := fun db => ∀ k a, db.attempts.get k = some a → a.lost → Stuck db k.node)
      (fun _ _ _ hget => (nomatch hget)) ?_
    intro db db' hreach hi hs k a' ha' hlost
    have hreach' : Reachable env db' := ⟨hreach.choose, hreach.choose_spec.tail hs⟩
    cases hs with
    | tick d => exact ⟨(hi k a' ha' hlost).idle, (hi k a' ha' hlost).blocked⟩
    | commit amb op r hrun =>
        have hc := (Op.run_commit hrun).change
        have hshape' := hreach'.attemptShape ha'
        have hstep := hc.attemptStep k
        cases ha : db.attempts.get k with
        | none =>
            -- a new attempt is dispatchable
            rw [ha, ha'] at hstep
            cases hstep
            rcases hlost with hl | ⟨hl, -⟩ <;> cases hl
        | some a =>
            cases hcur : a.isCurrent with
            | true => exact .of_lost hreach hc ha hcur ha' hshape' hlost
            | false =>
                have hshape := hreach.attemptShape ha
                have hstate : a.state ≠ .dispatchable ∧ a.state ≠ .claimed := by
                  constructor <;> intro hs <;> have hc' := hshape.current.mpr (by simp [hs]) <;>
                    rw [hcur] at hc' <;> cases hc'
                rw [ha] at hstep
                obtain ⟨a'', ha'', -, hs'', -, hclass⟩ := hstep.settled hcur hstate
                cases ha'.symm.trans ha''
                refine ((hi k a ha ?_).change hc hreach.generation).1
                rwa [Attempt.lost, hs'', hclass] at hlost
  exact hall k a ha hlost

-- ============================================================================
-- The effect class of a node
-- ============================================================================

/-- The effect class that the definition of its workflow declares for a node. -/
def DB.effectClassOf (db : DB) (k : NodeKey) : Option EffectClass :=
  (db.workflows.get k.workflowID).bind (fun w => (definitionClass db w k.nodeID).toOption)

theorem effectClassOf_eq_some {db : DB} {k : NodeKey} {cls : EffectClass} :
    db.effectClassOf k = some cls ↔
      ∃ w, db.workflows.get k.workflowID = some w ∧ definitionClass db w k.nodeID = .ok cls := by
  rw [DB.effectClassOf, Option.bind_eq_some_iff]
  refine exists_congr (fun w => and_congr_right (fun _ => ⟨toOption_eq_some, fun h => ?_⟩))
  rw [h]
  rfl

/-- A workflow keeps its definition, and a definition what it declares. -/
theorem Commit.effectClassOf {env : Env} {db db' : DB} {α : Type} {op : Op α}
    (h : Commit env db op db') {k : NodeKey} {cls : EffectClass}
    (hcls : db.effectClassOf k = some cls) : db'.effectClassOf k = some cls := by
  obtain ⟨w, hw, hdef⟩ := effectClassOf_eq_some.mp hcls
  have hrow : ∃ w', db'.workflows.get k.workflowID = some w' ∧
      w'.definitionID = w.definitionID ∧ w'.definitionVersion = w.definitionVersion := by
    obtain ⟨hsame, -⟩ | ⟨w₀, row, hins, -⟩ | ⟨w₀, s, row, hm⟩ := h.change.history_cases
    · exact ⟨w, by rw [hsame]; exact hw, rfl, rfl⟩
    · exact ⟨w, Table.get_insert_of_get hins hw, rfl, rfl⟩
    · rw [hm.get_workflow]
      split
      · rename_i hid
        rw [hid, hm.get, Option.some.injEq] at hw
        exact ⟨_, rfl, by rw [hw], by rw [hw]⟩
      · exact ⟨w, hw, rfl, rfl⟩
  obtain ⟨w', hw', hid, hversion⟩ := hrow
  refine effectClassOf_eq_some.mpr ⟨w', hw', ?_⟩
  simp only [definitionClass, bind_eq_ok, getOr_eq_ok] at hdef ⊢
  obtain ⟨d, hd, hrest⟩ := hdef
  exact ⟨d, by rw [hid, hversion]; exact h.definitions _ d hd, hrest⟩

theorem createAttempt_class {env : Env} {amb : Ambient} {input : AttemptInput} {db db' : DB}
    {r : Attempt} (h : createAttempt env amb input db = .ok (r, db')) :
    Inserted db.attempts r db'.attempts ∧ db.effectClassOf r.key.node = some r.effectClass := by
  simp only [createAttempt, bind_eq_ok, getOr_eq_ok, rejectIf_eq_ok, exists_const, pure_eq_ok,
    Prod.mk.injEq] at h
  obtain ⟨-, w, hw, -, cls, hcls, -, identity, -, -, n, -, -, -, db₁, hins, db₂, hhist, db₃, hout,
    rfl, rfl⟩ := h
  obtain ⟨hown, -⟩ := lockOwnedWorkflow_eq_ok hw
  obtain ⟨-, attempts, hattempt, rfl⟩ := insertAttempt_eq_ok hins
  obtain ⟨history, hhistory, rfl⟩ := insertHistory_eq_ok hhist
  obtain ⟨-, event, outbox, -, -, -, -, -, rfl⟩ := insertOutbox_eq_ok hout
  exact ⟨hattempt, effectClassOf_eq_some.mpr ⟨w, hown.get, hcls⟩⟩

/-- A new attempt is the one a scheduler created, or it replaces an attempt of its node and takes
    over what names the effect. -/
theorem attempt_of_new {env : Env} {db db' : DB} {α : Type} {op : Op α} {amb : Ambient} {r : α}
    (hrun : op.run env amb db = .ok (r, db')) {k : AttemptKey} {a : Attempt}
    (hnone : db.attempts.get k = none) (ha : db'.attempts.get k = some a) :
    (∃ input, createAttempt env amb input db = .ok (a, db')) ∨
      ∃ m b, db.attempts.get ⟨k.node, m⟩ = some b ∧ b.effectClass = a.effectClass ∧
        a.logicalEffectKey = b.logicalEffectKey ∧ a.grantScopeHash = b.grantScopeHash := by
  have hold : (∃ b, db.attempts.get k = some b) → False := by
    rintro ⟨b, hb⟩
    rw [hnone] at hb
    cases hb
  have hsame : db'.attempts = db.attempts → False := by
    intro hattempts
    rw [hattempts] at ha
    exact hold ⟨a, ha⟩
  cases (Op.run_commit hrun).change with
  | idle rows => exact (hsame rows.attempts).elim
  | created c | consumed c | timerScheduled c | advanced c | approvalRequested c | approvalGranted c
  | approvalRejected c => exact (hsame c.attempts).elim
  | claimed c | extended c | recorded c | redispatched c | expired c =>
      exact (hold ((exists_get_modifyAttempt c.attempts k).mp ⟨a, ha⟩)).elim
  | owner c => exact (hold (c.noNew k.node k.number a ha)).elim
  | canceled c => exact (hold (c.noNew k.node k.number a ha)).elim
  | @attemptCreated _ input _ _ _ _ _ _ c =>
      obtain ⟨hins, -⟩ := createAttempt_class hrun
      rw [Table.get_insert hins] at ha
      split at ha
      · cases ha
        exact .inl ⟨input, hrun⟩
      · exact (hold ⟨a, ha⟩).elim
  | @replaced _ input _ _ b _ c =>
      rw [Table.get_insert c.attempts] at ha
      split at ha
      · rename_i hk
        cases ha
        rw [hk]
        exact .inr ⟨input.attemptNumber, b, c.attempt, rfl, rfl, rfl⟩
      · exact (hold ((exists_get_modifyAttempt rfl k).mp ⟨a, ha⟩)).elim

/-- An attempt has the effect class of its node. -/
theorem Reachable.effectClass {env : Env} {db : DB} (h : Reachable env db) {k : AttemptKey}
    {a : Attempt} (ha : db.attempts.get k = some a) :
    db.effectClassOf k.node = some a.effectClass := by
  have hall : ∀ k a, db.attempts.get k = some a → db.effectClassOf k.node = some a.effectClass := by
    refine h.induction
      (I := fun db => ∀ k a, db.attempts.get k = some a →
        db.effectClassOf k.node = some a.effectClass) (fun _ _ _ hget => (nomatch hget)) ?_
    intro db db' hi hs k a' ha'
    cases hs with
    | tick d => exact hi k a' ha'
    | commit amb op r hrun =>
        have hcommit := Op.run_commit hrun
        cases ha : db.attempts.get k with
        | some a =>
            have hstep := hcommit.change.attemptStep k
            rw [ha, ha'] at hstep
            rw [hstep.effectClass_eq]
            exact hcommit.effectClassOf (hi k a ha)
        | none =>
            rcases attempt_of_new hrun ha ha' with ⟨input, hcreated⟩ | ⟨m, b, hb, hcls, -⟩
            · rw [← Table.key_of_get ha']
              exact hcommit.effectClassOf (createAttempt_class hcreated).2
            · rw [← hcls]
              exact hcommit.effectClassOf (hi ⟨k.node, m⟩ b hb)
  exact hall k a ha

-- ============================================================================
-- Earlier attempts
-- ============================================================================

/-- The result of the attempt was recorded as a success or a failure to be retried. -/
def Attempt.reported (a : Attempt) : Prop := a.state = .succeeded ∨ a.state = .failedRetryable

/-- An attempt of a non-cooperating effect that its node does not point to any more was
    reported, unless the workflow has ended; and so were all attempts before another one. -/
structure Reported (db : DB) (k : NodeKey) : Prop where
  released : ∀ m a, db.attempts.get ⟨k, m⟩ = some a → a.effectClass = .nonCooperating →
    a.reported ∨ db.pointer k = some m ∨ db.over k
  earlier : ∀ m m' a a', db.attempts.get ⟨k, m⟩ = some a → db.attempts.get ⟨k, m'⟩ = some a' →
    m < m' → a.effectClass = .nonCooperating → a.reported

theorem Attempt.reported.isTerminal {a : Attempt} (h : a.reported) : a.state.isTerminal = true := by
  rcases h with h | h <;> rw [h] <;> rfl

/-- A reported attempt stays reported. -/
theorem AttemptStep.reported {a a' : Attempt} (h : AttemptStep (some a) (some a'))
    (hshape : AttemptShape a) (hr : a.reported) : a'.reported := by
  obtain ⟨a'', heq, hs, -, -⟩ := h.frozen hshape hr.isTerminal
  cases heq
  rwa [Attempt.reported, hs]

theorem Reported.change {env : Env} {db db' : DB} {α : Type} {op : Op α} {k : NodeKey}
    (h : Reported db k) (hreach : Reachable env db) (hc : Change db op db') : Reported db' k := by
  -- what is known of an attempt that existed before
  have hkept : ∀ m a a', db.attempts.get ⟨k, m⟩ = some a → db'.attempts.get ⟨k, m⟩ = some a' →
      (a.reported → a'.reported) ∧ a'.effectClass = a.effectClass := by
    intro m a a' ha ha'
    have hstep := hc.attemptStep ⟨k, m⟩
    rw [ha, ha'] at hstep
    exact ⟨hstep.reported (hreach.attemptShape ha), hstep.effectClass_eq⟩
  have hnoNew : NoNewAttempt db db' k →
      ∀ m m' a a', db'.attempts.get ⟨k, m⟩ = some a → db'.attempts.get ⟨k, m'⟩ = some a' →
      m < m' → a.effectClass = .nonCooperating → a.reported := by
    intro noNew m m' a a' ha ha' hlt hclass
    obtain ⟨a₀, ha₀⟩ := noNew m a ha
    obtain ⟨a₀', ha₀'⟩ := noNew m' a' ha'
    obtain ⟨hr, hcls⟩ := hkept m a₀ a ha₀ ha
    exact hr (h.earlier m m' a₀ a₀' ha₀ ha₀' hlt (hcls.symm.trans hclass))
  cases hc.pointerMove hreach.generation k with
  | keep pointer noNew =>
      refine ⟨fun m a ha hclass => ?_, hnoNew noNew⟩
      obtain ⟨a₀, ha₀⟩ := noNew m a ha
      obtain ⟨hr, hcls⟩ := hkept m a₀ a ha₀ ha
      rcases h.released m a₀ ha₀ (hcls.symm.trans hclass) with hrep | hptr | ho
      · exact .inl (hr hrep)
      · exact .inr (.inl (pointer.trans hptr))
      · exact .inr (.inr (hc.over ho))
  | ended isOver noNew => exact ⟨fun _ _ _ _ => .inr (.inr isOver), hnoNew noNew⟩
  | consumed m₀ b before attempt outcome attempts =>
      refine ⟨fun m a ha hclass => ?_, hnoNew (.of_eq attempts k)⟩
      rw [attempts] at ha
      rcases h.released m a ha hclass with hrep | hptr | ho
      · exact .inl hrep
      · cases before.symm.trans hptr
        cases attempt.symm.trans ha
        exact .inl (outcome.imp (·.1) id)
      · exact .inr (.inr (hc.over ho))
  | created N before generation live waiting after new =>
      have hall : ∀ m a, db.attempts.get ⟨k, m⟩ = some a → a.effectClass = .nonCooperating →
          a.reported := by
        intro m a ha hclass
        rcases h.released m a ha hclass with hrep | hptr | ho
        · exact hrep
        · rw [before] at hptr
          cases hptr
        · exact absurd ho live
      refine ⟨fun m a ha hclass => ?_, fun m m' a a' ha ha' hlt hclass => ?_⟩
      · by_cases hm : m = N + 1
        · exact .inr (.inl (by rw [hm]; exact after))
        · exact .inl (hall m a (new m a ha hm) hclass)
      · have hm : m ≠ N + 1 := by
          rintro rfl
          have hold := (generation.numbers m').mp ⟨a', new m' a' ha' (by omega)⟩
          omega
        exact hall m a (new m a ha hm) hclass
  | replaced m₀ b before attempt isCurrent effectClass after timedOut new =>
      obtain ⟨N, hN⟩ := hreach.generation k
      have hlast := (hN.pointer m₀ before).1
      have hall : ∀ m a, db'.attempts.get ⟨k, m⟩ = some a → m ≠ m₀ + 1 →
          a.effectClass = .nonCooperating → a.reported := by
        intro m a ha hm hclass
        obtain ⟨a₀, ha₀⟩ := new m a ha hm
        obtain ⟨hr, hcls⟩ := hkept m a₀ a ha₀ ha
        have hle := ((hN.numbers m).mp ⟨a₀, ha₀⟩).2
        by_cases hm₀ : m = m₀
        · subst hm₀
          cases attempt.symm.trans ha₀
          exact absurd (hcls.symm.trans hclass) effectClass
        · exact hr (h.earlier m m₀ a₀ b ha₀ attempt (by omega) (hcls.symm.trans hclass))
      refine ⟨fun m a ha hclass => ?_, fun m m' a a' ha ha' hlt hclass => ?_⟩
      · by_cases hm : m = m₀ + 1
        · exact .inr (.inl (by rw [hm]; exact after))
        · exact .inl (hall m a ha hm hclass)
      · refine hall m a ha ?_ hclass
        rintro rfl
        obtain ⟨a₀, ha₀⟩ := new m' a' ha' (by omega)
        have hle := ((hN.numbers m').mp ⟨a₀, ha₀⟩).2
        omega

theorem Reachable.reportedAt {env : Env} {db : DB} (h : Reachable env db) (k : NodeKey) :
    Reported db k := by
  refine h.invariant (I := fun db => Reported db k)
    (fun _ => ⟨fun _ _ hget => (nomatch hget), fun _ _ _ _ hget => (nomatch hget)⟩) ?_
  intro db db' hreach hi hs
  cases hs with
  | tick d => exact ⟨hi.released, hi.earlier⟩
  | commit amb op r hrun => exact hi.change hreach (Op.run_commit hrun).change

-- ============================================================================
-- Runs
-- ============================================================================

/-- From `db` to the later state `db'` nothing is done about the lost attempt `k`: its node got
    no attempt and has none to run, and the attempt has no result. -/
structure NotRepeated (env : Env) (db db' : DB) (k : AttemptKey) : Prop where
  noNew : NoNewAttempt db db' k.node
  idle : ∀ m b, db'.attempts.get ⟨k.node, m⟩ = some b →
    b.state ≠ .dispatchable ∧ b.state ≠ .claimed
  late : ∀ amb input, input.key = k →
    ∃ evidence, ((Op.recordResultReceipt input).exec env amb db').2 =
      { db' with evidence := evidence }
  unconsumed : ∀ amb input r, input.key = k.node → input.attemptNumber = k.number →
    consumeResult env amb input db' ≠ .ok r

/-- A lost attempt stays as it is, and its node gets no other. -/
theorem Reachable.lost_run {env : Env} {db db' : DB} (h : Reachable env db)
    (hrun : Relation.ReflTransGen (Step env) db db') {k : AttemptKey} {a : Attempt}
    (ha : db.attempts.get k = some a) (hlost : a.lost) :
    (∃ a', db'.attempts.get k = some a' ∧ a'.lost) ∧ NoNewAttempt db db' k.node := by
  induction hrun with
  | refl => exact ⟨⟨a, ha, hlost⟩, .of_eq rfl _⟩
  | @tail db₁ db₂ hfirst hlast ih =>
      obtain ⟨⟨a₁, ha₁, hlost₁⟩, hnoNew⟩ := ih
      have hreach : Reachable env db₁ := ⟨h.choose, h.choose_spec.trans hfirst⟩
      have hstuck := hreach.stuck ha₁ hlost₁
      cases hlast with
      | tick _ d => exact ⟨⟨a₁, ha₁, hlost₁⟩, hnoNew⟩
      | commit amb op r hop =>
          have hc := (Op.run_commit hop).change
          have hstep := hc.attemptStep k
          rw [ha₁] at hstep
          have hstate : a₁.state ≠ .dispatchable ∧ a₁.state ≠ .claimed := by
            rcases hlost₁ with hs | ⟨hs, -⟩ <;> rw [hs] <;> decide
          obtain ⟨a₂, ha₂, -, hs, -, hclass⟩ :=
            hstep.settled (hstuck.idle k.number a₁ ha₁) hstate
          refine ⟨⟨a₂, ha₂, by rwa [Attempt.lost, hs, hclass]⟩, fun m b hb => ?_⟩
          obtain ⟨b₁, hb₁⟩ := (hstuck.change hc hreach.generation).2 m b hb
          exact hnoNew m b₁ hb₁

theorem Reachable.notRepeated {env : Env} {db db' : DB} (h : Reachable env db)
    (hrun : Relation.ReflTransGen (Step env) db db') {k : AttemptKey} {a : Attempt}
    (ha : db.attempts.get k = some a) (hlost : a.lost) : NotRepeated env db db' k := by
  obtain ⟨⟨a', ha', hlost'⟩, hnoNew⟩ := h.lost_run hrun ha hlost
  have hreach : Reachable env db' := ⟨h.choose, h.choose_spec.trans hrun⟩
  have hstuck := hreach.stuck ha' hlost'
  have hcur := hstuck.idle k.number a' ha'
  refine ⟨hnoNew, fun m b hb => ?_, fun amb input hkey => ?_, fun amb input r hnode hnumber hok => ?_⟩
  · have hidle := hstuck.idle m b hb
    have hshape := hreach.attemptShape hb
    constructor <;> intro hs <;> have hb' := hshape.current.mpr (by simp [hs]) <;>
      rw [hidle] at hb' <;> cases hb'
  · subst hkey
    obtain ⟨evidence, hevidence, -⟩ := onlyEvidence_of_superseded ha' (.inl hcur)
    exact ⟨evidence, hevidence⟩
  · -- a result is consumed only if there is one
    simp only [consumeResult, bind_eq_ok, getOr_eq_ok, rejectIf_eq_ok, exists_const] at hok
    obtain ⟨-, w, -, -, n, -, -, b, hb, hrec, -⟩ := hok
    rw [hnode, hnumber] at hb
    cases ha'.symm.trans hb
    refine hrec (.inr ?_)
    rcases hlost' with hs | ⟨hs, -⟩ <;> rw [hs] <;> rfl

end DurableEngine.State
