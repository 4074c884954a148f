/-
  DurableEngine.Services.Exclusion

  A grant and a cancellation exclude each other, and a grant authorises one
  effect.

  Every authorised call is backed by an intent that is still granted
  (`Authorised`); a workflow that was canceled by a request had no grant, has
  ended, and so gets none (`Closed`).
-/

import DurableEngine.Services.AtMostOnce
import DurableEngine.State.Intents

namespace DurableEngine.Services

open Lib State

-- ============================================================================
-- Steps
-- ============================================================================

theorem World.Step.intents {env : Env} {w w' : World} {events : List Event}
    (h : World.Step env w events w') : IntentsMove w.db w'.db := by
  cases h with
  | tick _ d => exact .of_eq rfl
  | commit _ amb op a db' h _ => exact intents_of_commit h
  | relay _ events s' h => exact .of_eq (by rw [h.frame]; rfl)
  | consumer _ events db' h => exact .of_eq (by rw [h.frame]; rfl)
  | effect _ events s' h =>
      cases h.intents with
      | same h => exact .of_eq h
      | dispatched id intent h => exact h.intentsMove

/-- A workflow that has ended stays as it is. -/
theorem World.Step.ended {env : Env} {w w' : World} {events : List Event}
    (h : World.Step env w events w') {id : String} {wf : Workflow}
    (hwf : w.db.workflows.get id = some wf) (hend : wf.state.isTerminal = true) :
    w'.db.workflows.get id = some wf := by
  cases h with
  | tick _ d => exact hwf
  | commit _ amb op a db' h _ => exact (Op.run_commit h).change.ended hwf hend
  | relay _ events s' h =>
      rw [h.frame]
      exact hwf
  | consumer _ events db' h =>
      rw [h.frame]
      exact hwf
  | effect _ events s' h =>
      rw [h.frame]
      exact hwf

/-- A call is authorised by the grant it is checked against. -/
theorem World.Step.checked {env : Env} {w w' : World} {events : List Event}
    (h : World.Step env w events w') {input : EffectApplyInput}
    (hshown : .authorised input ∈ effectTrace events) :
    ∃ id i, w.db.intents.get id = some i ∧ i.Backs input := by
  cases h with
  | tick | commit => cases hshown
  | relay _ events s' h =>
      rw [effectTrace_relay] at hshown
      cases hshown
  | consumer _ events db' h =>
      rw [effectTrace_consumer] at hshown
      cases hshown
  | effect _ events s' h =>
      rw [effectTrace_effect] at hshown
      cases h with
      | check now input' hok =>
          obtain rfl : input = input' := by simpa using hshown
          exact checkGrant_eq_ok hok
      | found | apply => simp at hshown
      | miss | mark | lost | unknown | resolve => cases hshown

-- ============================================================================
-- Authorised calls
-- ============================================================================

/-- What a run keeps of the grants: calls in progress and mutations were authorised, and an
    authorised call is backed by a grant. -/
structure Authorised (trace : List Event) (w : World) : Prop where
  calls : ∀ call ∈ w.calls, .authorised call.input ∈ effectTrace trace
  mutated : ∀ input ∈ mutations trace, .authorised input ∈ effectTrace trace
  backed : ∀ input, .authorised input ∈ effectTrace trace →
    ∃ id i, w.db.intents.get id = some i ∧ i.Backs input

/-- A grant goes on backing its calls. -/
theorem backed_of_move {db db' : DB} {input : EffectApplyInput} (hmove : IntentsMove db db')
    (h : ∃ id i, db.intents.get id = some i ∧ i.Backs input) :
    ∃ id i, db'.intents.get id = some i ∧ i.Backs input := by
  obtain ⟨id, i, hi, hbacks⟩ := h
  obtain ⟨i', hi', rfl | hstep⟩ := hmove.kept id i hi
  · exact ⟨id, i', hi', hbacks⟩
  · exact ⟨id, i', hi', hbacks.of_keepsGrant (hstep.keepsGrant hbacks.granted)⟩

/-- Only the effect service has calls and answers them. -/
theorem World.Step.calls {env : Env} {w w' : World} {events trace : List Event}
    (h : World.Step env w events w')
    (hcalls : ∀ call ∈ w.calls, .authorised call.input ∈ effectTrace trace) :
    (∀ call ∈ w'.calls, .authorised call.input ∈ effectTrace trace ++ effectTrace events) ∧
      ∀ input reply, .answered input reply ∈ effectTrace events →
        .authorised input ∈ effectTrace trace := by
  have hother : effectTrace events = [] → w'.calls = w.calls →
      (∀ call ∈ w'.calls, .authorised call.input ∈ effectTrace trace ++ effectTrace events) ∧
        ∀ input reply, .answered input reply ∈ effectTrace events →
          .authorised input ∈ effectTrace trace := by
    intro hquiet hsame
    rw [hquiet, hsame, List.append_nil]
    exact ⟨hcalls, fun _ _ hmem => (nomatch hmem)⟩
  cases h with
  | tick _ d => exact hother rfl rfl
  | commit _ amb op a db' h _ => exact hother rfl rfl
  | relay _ events s' h => exact hother (effectTrace_relay events) rfl
  | consumer _ events db' h => exact hother (effectTrace_consumer events) rfl
  | effect _ events s' h =>
      rw [effectTrace_effect]
      exact h.authorised hcalls

theorem Authorised.step {env : Env} {trace events : List Event} {w w' : World}
    (h : Authorised trace w) (hs : World.Step env w events w') : Authorised (trace ++ events) w' := by
  obtain ⟨hcalls, hanswered⟩ := hs.calls h.calls
  refine ⟨by rw [effectTrace_append]; exact hcalls, fun input hin => ?_, fun input hin => ?_⟩
  · rw [effectTrace_append]
    rw [mutations_append, List.mem_append] at hin
    rcases hin with hold | hnew
    · exact List.mem_append_left _ (h.mutated input hold)
    · obtain ⟨revision, hshown⟩ := mem_mutations.mp hnew
      exact List.mem_append_left _ (hanswered input _ hshown)
  · rw [effectTrace_append, List.mem_append] at hin
    rcases hin with hold | hnew
    · exact backed_of_move hs.intents (h.backed input hold)
    · exact backed_of_move hs.intents (hs.checked hnew)

theorem World.Run.authorised {env : Env} {now : Int} {trace : List Event} {w : World}
    (h : World.Run env (World.start now) trace w) : Authorised trace w := by
  refine h.invariant ⟨fun _ hcall => (nomatch hcall), fun _ hin => (nomatch hin),
    fun _ hin => (nomatch hin)⟩ (fun trace events w w' hw hs => hw.step hs)

-- ============================================================================
-- Canceled workflows
-- ============================================================================

/-- The workflow has ended, and none of its intents is granted. -/
structure Closed (db : DB) (workflowID : String) : Prop where
  ended : ∃ wf, db.workflows.get workflowID = some wf ∧ wf.state.isTerminal = true
  ungranted : ¬ db.hasGrant workflowID

/-- Without a workflow that waits for approval there is no new grant. -/
theorem hasGrant_of_move {db db' : DB} {workflowID : String} {wf : Workflow}
    (hmove : IntentsMove db db') (hwf : db.workflows.get workflowID = some wf)
    (hend : wf.state.isTerminal = true) (h : db'.hasGrant workflowID) : db.hasGrant workflowID := by
  obtain ⟨i', hmem', hworkflow', hgranted'⟩ := h
  have hi' := Table.get_of_mem hmem'
  cases hi : db.intents.get i'.intentID with
  | none =>
      rw [hmove.fresh _ i' hi hi'] at hgranted'
      cases hgranted'
  | some i =>
      obtain ⟨i'', hi'', hstep⟩ := hmove.kept _ i hi
      rw [hi'] at hi''
      cases hi''
      obtain rfl | hstep := hstep
      · exact ⟨_, Table.mem_of_get hi, hworkflow', hgranted'⟩
      · have hworkflow : i.node.workflowID = workflowID := by
          rw [← hstep.sameProposal.node]
          exact hworkflow'
        by_cases hgranted : i.isGranted = true
        · exact ⟨i, Table.mem_of_get hi, hworkflow, hgranted⟩
        · obtain ⟨w, hw, hwaiting⟩ := hstep.awaited_of_grant (by simpa using hgranted) hgranted'
          rw [hworkflow, hwf, Option.some.injEq] at hw
          rw [hw, hwaiting] at hend
          cases hend

theorem Closed.step {env : Env} {w w' : World} {events : List Event} {workflowID : String}
    (h : Closed w.db workflowID) (hs : World.Step env w events w') : Closed w'.db workflowID := by
  obtain ⟨⟨wf, hwf, hend⟩, hungranted⟩ := h
  exact ⟨⟨wf, hs.ended hwf hend, hend⟩,
    fun hgrant => hungranted (hasGrant_of_move hs.intents hwf hend hgrant)⟩

/-- A closed workflow has seen no mutation. -/
theorem Authorised.unmutated {trace : List Event} {w : World} {workflowID : String}
    (h : Authorised trace w) (hclosed : Closed w.db workflowID) :
    ∀ input ∈ mutations trace, input.workflowID ≠ workflowID := by
  rintro input hin rfl
  obtain ⟨id, i, hi, hbacks⟩ := h.backed input (h.mutated input hin)
  exact hclosed.ungranted ⟨i, Table.mem_of_get hi, by rw [hbacks.node]; rfl, hbacks.granted⟩

/-- A request that moved a workflow found no grant of it, and closed it. -/
theorem closed_of_cancellation {env : Env} {amb : Ambient} {lease : LeaseRef}
    {requestID actorID : String} {db db' : DB} {r : Workflow} {id : String} {wf wf' : Workflow}
    (h : applyCancellationRequest env amb lease requestID actorID db = .ok (r, db'))
    (hwf : db.workflows.get id = some wf) (hwf' : db'.workflows.get id = some wf')
    (hmoved : wf.state ≠ .canceled) (hcanceled : wf'.state = .canceled) : Closed db' id := by
  refine ⟨⟨wf', hwf', by rw [hcanceled]; rfl⟩, ?_⟩
  obtain ⟨request, -, -, hcases⟩ := applyCancellationRequest_eq_ok h
  cases hcases with
  | kept hsame _ =>
      rw [hsame, hwf] at hwf'
      cases hwf'
      exact absurd hcanceled hmoved
  | canceled hungranted hintents hothers =>
      by_cases hid : id = request.workflowID
      · subst hid
        simpa only [DB.hasGrant, hintents] using hungranted
      · rw [hothers id hid, hwf] at hwf'
        cases hwf'
        exact absurd hcanceled hmoved

-- ============================================================================
-- Runs
-- ============================================================================

/-- No two granted intents drew the same token. -/
def TokensDistinct (db : DB) : Prop :=
  ∀ i ∈ db.intents.rows, ∀ j ∈ db.intents.rows, i.isGranted = true → j.isGranted = true →
    i.grantToken = j.grantToken → i.intentID = j.intentID

/-- The texts whose hashes the authorised calls were checked against. -/
def hashedScopes (trace : List Event) (db : DB) : Set String :=
  { text | ∃ i ∈ db.intents.rows, ∃ input, .authorised input ∈ effectTrace trace ∧
    text = i.scopeText input.logicalEffectKey }

/-- A scope text determines its effect. -/
theorem scopeText_inj {i : ApprovalIntent} {key key' : String}
    (h : i.scopeText key = i.scopeText key') : key = key' := by
  have hchars := congrArg String.toList h
  simp only [ApprovalIntent.scopeText, String.toList_append] at hchars
  have hstart := List.append_cancel_right (List.append_cancel_right hchars)
  exact String.toList_inj.mp (List.append_cancel_left hstart)

/-- Grant and cancellation exclude each other in a state of a run, and a grant authorises one
    effect.  If a request cancels a workflow here, then no intent of the workflow is granted from
    here on, and no call of it has mutated or will mutate the sandbox.  While an intent is granted,
    no request moves its workflow, and a pending one ends as best effort.  Where SHA-256 has no
    collision among the scopes that were hashed, and tokens are drawn apart, the calls a token
    authorised are for one effect. -/
structure GrantsExclusive (env : Env) (trace : List Event) (w : World) : Prop where
  canceled : ∀ amb lease requestID actorID r db' id wf wf',
    (Op.applyCancellationRequest lease requestID actorID).run env amb w.db = .ok (r, db') →
    w.db.workflows.get id = some wf → db'.workflows.get id = some wf' → wf.state ≠ .canceled →
    wf'.state = .canceled → ∀ trace' w', World.Run env ⟨db', w.passes, w.calls⟩ trace' w' →
      (∀ i ∈ w'.db.intents.rows, i.node.workflowID = id → i.isGranted = false) ∧
      ∀ input ∈ mutations (trace ++ trace'), input.workflowID ≠ id
  granted : ∀ i ∈ w.db.intents.rows, i.isGranted = true → ∀ amb lease requestID actorID r db',
    (Op.applyCancellationRequest lease requestID actorID).run env amb w.db = .ok (r, db') →
    db'.workflows.get i.node.workflowID = w.db.workflows.get i.node.workflowID ∧
    ∀ request, uuidText requestID = some request.requestID →
      w.db.cancellations.get request.requestID = some request →
      request.workflowID = i.node.workflowID → request.status = .pending →
      ∃ request', db'.cancellations.get request.requestID = some request' ∧
        request'.status = .bestEffort
  oneEffect : TokensDistinct w.db → Set.InjOn Sha256.hexSum (hashedScopes trace w.db) →
    ∀ a b, .authorised a ∈ effectTrace trace → .authorised b ∈ effectTrace trace →
    uuidText a.grantToken = uuidText b.grantToken → a.logicalEffectKey = b.logicalEffectKey

/-- In every state that any interleaving of clients, schedulers and effect calls reaches, grants
    and cancellations exclude each other. -/
theorem grants_exclusive {env : Env} {now : Int} {trace : List Event} {w : World}
    (h : World.Run env (World.start now) trace w) : GrantsExclusive env trace w where
  canceled := by
    intro amb lease requestID actorID r db' id wf wf' hok hwf hwf' hmoved hcanceled trace' w' hrun
    have hclosed : Closed db' id := closed_of_cancellation hok hwf hwf' hmoved hcanceled
    have hauthorised : Authorised trace ⟨db', w.passes, w.calls⟩ :=
      ⟨h.authorised.calls, h.authorised.mutated,
        fun input hin => backed_of_move (intents_of_commit hok) (h.authorised.backed input hin)⟩
    have hlater : Closed w'.db id :=
      hrun.keeps (I := fun w' => Closed w'.db id) hclosed (fun _ _ _ hclosed hs => hclosed.step hs)
    have hauthorised' : Authorised (trace ++ trace') w' := by
      refine hrun.invariant (I := fun trace' w' => Authorised (trace ++ trace') w') ?_ ?_
      · rw [List.append_nil]
        exact hauthorised
      · intro trace₁ events w₁ w₂ h₁ hs
        rw [← List.append_assoc]
        exact h₁.step hs
    refine ⟨fun i hi hworkflow => ?_, hauthorised'.unmutated hlater⟩
    rw [← Bool.not_eq_true]
    exact fun hgranted => hlater.ungranted ⟨i, hi, hworkflow, hgranted⟩
  granted := by
    intro i hi hgranted amb lease requestID actorID r db' hok
    obtain ⟨request, hid, hrequest, hcases⟩ := applyCancellationRequest_eq_ok hok
    cases hcases with
    | kept hsame hbestEffort =>
        refine ⟨by rw [hsame], fun request' hid' hrequest' hworkflow hpending => ?_⟩
        rw [hid, Option.some.injEq] at hid'
        rw [← hid', hrequest, Option.some.injEq] at hrequest'
        subst hrequest'
        exact hbestEffort hpending ⟨i, hi, hworkflow.symm, hgranted⟩
    | canceled hungranted _ hothers =>
        have hother : i.node.workflowID ≠ request.workflowID :=
          fun hworkflow => hungranted ⟨i, hi, hworkflow, hgranted⟩
        refine ⟨hothers _ hother, fun request' hid' hrequest' hworkflow _ => ?_⟩
        rw [hid, Option.some.injEq] at hid'
        rw [← hid', hrequest, Option.some.injEq] at hrequest'
        subst hrequest'
        exact absurd hworkflow.symm hother
  oneEffect := by
    intro hdistinct hinj a b ha hb htoken
    obtain ⟨id, i, hi, hbacks⟩ := h.authorised.backed a ha
    obtain ⟨id', i', hi', hbacks'⟩ := h.authorised.backed b hb
    have hmem := Table.mem_of_get hi
    have hmem' := Table.mem_of_get hi'
    have hsame : i.grantToken = i'.grantToken := by
      rw [hbacks.token, hbacks'.token] at htoken
      exact Option.some.inj htoken
    -- one token is one intent, whose scope is the hash of both texts
    have hintent : i' = i := by
      have hid := hdistinct i hmem i' hmem' hbacks.granted hbacks'.granted hsame
      have hget := Table.get_of_mem hmem
      rw [hid, Table.get_of_mem hmem', Option.some.injEq] at hget
      exact hget
    rw [hintent] at hbacks'
    exact scopeText_inj (hinj ⟨i, hmem, a, ha, rfl⟩ ⟨i, hmem, b, hb, rfl⟩
      (hbacks.scope.symm.trans hbacks'.scope))

/-- A client asks for a cancellation while the proposal is undecided. -/
def undecidedScript : List Move := approvedScript.take 4 ++ ([
  .call (.requestCancellation ⟨"w", "client", 0⟩)] : List Move)

/-- It asks after the proposal was granted, while two calls carry the grant. -/
def grantedScript : List Move := approvedScript ++ ([
  .call (.requestCancellation ⟨"w", "client", 0⟩), .check 0 (soloEffect "first" 1),
  .check 0 (soloEffect "second" 2)] : List Move)

/-- The effect an event authorises. -/
def EffectEvent.authorised? : EffectEvent → Option String
  | .authorised input => some input.logicalEffectKey
  | .answered _ _ => none

/-- With one intent and one effect there is one scope. -/
theorem injOn_of_single {trace : List Event} {db : DB} (hrows : db.intents.rows.length = 1)
    (hkeys : (effectTrace trace).all (fun e => e.authorised? = some "key") = true) :
    TokensDistinct db ∧ Set.InjOn Sha256.hexSum (hashedScopes trace db) := by
  obtain ⟨i, hi⟩ := List.length_eq_one_iff.mp hrows
  have honly : ∀ j ∈ db.intents.rows, j = i := by
    intro j hj
    rw [hi] at hj
    exact List.mem_singleton.mp hj
  have htext : ∀ text ∈ hashedScopes trace db, text = i.scopeText "key" := by
    rintro text ⟨j, hj, input, hin, rfl⟩
    have hkey := of_decide_eq_true (List.all_eq_true.mp hkeys _ hin)
    rw [honly j hj, Option.some.inj hkey]
  refine ⟨fun j hj k hk _ _ _ => ?_, fun x hx y hy _ => ?_⟩
  · rw [honly j hj, honly k hk]
  · rw [htext x hx, htext y hy]

/-- What `ApplyCancellationRequest` leaves in the two cases: the state of the workflow and the
    status of the request. -/
def canceledTo (requestID : String) (db : DB) : Option (WorkflowState × CancellationStatus) := do
  let (_, db') ← ((Op.applyCancellationRequest soloLease requestID "scheduler").run .plain (.drawn 9)
    db).toOption
  let wf ← db'.workflows.get "w"
  let request ← db'.cancellations.get requestID
  return (wf.state, request.status)

theorem grants_exclusive_both :
    (∃ trace w, World.Run .plain (World.start 0) trace w ∧
      (w.db.workflows.get "w").map (·.state) = some .waitingApproval ∧
      canceledTo (uuidOf 6 4) w.db = some (.canceled, .applied) ∧
      GrantsExclusive .plain trace w) ∧
    ∃ trace w, World.Run .plain (World.start 0) trace w ∧
      canceledTo (uuidOf 6 6) w.db = some (.runnable, .bestEffort) ∧
      (effectTrace trace).map EffectEvent.authorised? = [some "key", some "key"] ∧
      TokensDistinct w.db ∧ Set.InjOn Sha256.hexSum (hashedScopes trace w.db) ∧
      GrantsExclusive .plain trace w := by
  have hundecided : (World.moves? .plain 0 undecidedScript (World.start 0)).any (fun r =>
      (r.2.db.workflows.get "w").map (·.state) = some .waitingApproval &&
      canceledTo (uuidOf 6 4) r.2.db = some (.canceled, .applied)) = true := by
    decide +kernel
  have hgranted : (World.moves? .plain 0 grantedScript (World.start 0)).any (fun r =>
      canceledTo (uuidOf 6 6) r.2.db = some (.runnable, .bestEffort) &&
      (effectTrace r.1).map EffectEvent.authorised? = [some "key", some "key"] &&
      r.2.db.intents.rows.length = 1 &&
      (effectTrace r.1).all (fun e => e.authorised? = some "key")) = true := by
    rw [grantedScript, moves?_approved, soloEffect_eq]
    decide +kernel
  constructor
  · obtain ⟨⟨trace, w⟩, hmoves, hshown⟩ := (Option.any_eq_true _ _).mp hundecided
    simp only [Bool.and_eq_true, decide_eq_true_eq] at hshown
    have hrun := World.run_of_moves? hmoves
    exact ⟨trace, w, hrun, hshown.1, hshown.2, grants_exclusive hrun⟩
  · obtain ⟨⟨trace, w⟩, hmoves, hshown⟩ := (Option.any_eq_true _ _).mp hgranted
    simp only [Bool.and_eq_true, decide_eq_true_eq] at hshown
    have hrun := World.run_of_moves? hmoves
    obtain ⟨hdistinct, hinj⟩ := injOn_of_single hshown.1.2 hshown.2
    exact ⟨trace, w, hrun, hshown.1.1.1, hshown.1.1.2, hdistinct, hinj, grants_exclusive hrun⟩

end DurableEngine.Services
