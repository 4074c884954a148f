/-
  DurableEngine.State.Claims

  A worker's claim is exclusive: an attempt is given to one worker under one
  token, a request is bound to one attempt, and only the holder of the token
  can heartbeat, checkpoint or answer the attempt.

  The token of an attempt never changes because only a dispatchable attempt
  is claimed and no attempt becomes dispatchable again.  A request is bound
  once because `ClaimAttempt` looks it up before it binds it.
-/

import DurableEngine.State.Generations

namespace DurableEngine.State

open Lib

/-- The caller presents the token of the attempt that is, at this moment, the node's current and
    claimed one. -/
def HoldsClaim (db : DB) (k : AttemptKey) (claimToken : String) : Prop :=
  ∃ n a token, db.nodes.get k.node = some n ∧ n.currentAttempt = some k.number ∧
    db.attempts.get k = some a ∧ a.isCurrent = true ∧ a.state = .claimed ∧
    uuidText claimToken = some token ∧ a.claimToken = some token

/-- The exclusivity of claims along a run from `db` to `db'`. -/
structure ClaimExclusive (env : Env) (db db' : DB) : Prop where
  kept : ∀ k a, db.attempts.get k = some a → a.claimToken ≠ none ∨ a.workerID ≠ none →
    ∃ a', db'.attempts.get k = some a' ∧ a'.claimToken = a.claimToken ∧ a'.workerID = a.workerID
  bound : ∀ k₁ k₂ a₁ a₂ request, db'.attempts.get k₁ = some a₁ → db'.attempts.get k₂ = some a₂ →
    a₁.workerRequestID = some request → a₂.workerRequestID = some request → k₁ = k₂
  retried : ∀ amb amb' input input' r r' db₁ db₂, claimAttempt amb input db = .ok (r, db₁) →
    Relation.ReflTransGen (Step env) db₁ db' → claimAttempt amb' input' db' = .ok (r', db₂) →
    input'.requestID = input.requestID → input'.key = input.key ∧
      r'.attemptNumber = r.attemptNumber ∧ r'.claimToken = r.claimToken ∧ db₂ = db'
  heartbeat : ∀ input r db₂, heartbeatAttempt input db' = .ok (r, db₂) →
    HoldsClaim db' ⟨input.key, input.attemptNumber⟩ input.claimToken
  checkpoint : ∀ input r db₂, recordCheckpoint input db' = .ok (r, db₂) →
    HoldsClaim db' input.key input.claimToken
  result : ∀ amb input r db₂, recordResultReceipt amb input db' = .ok (r, db₂) →
    SameRows db' db₂ ∨ HoldsClaim db' input.key input.claimToken

-- ============================================================================
-- One token in a lifetime
-- ============================================================================

/-- A held attempt keeps its token, worker and request. -/
theorem AttemptStep.holder {a : Attempt} {o' : Option Attempt} (h : AttemptStep (some a) o')
    (hshape : AttemptShape a) (hheld : a.held) :
    ∃ a', o' = some a' ∧ a'.claimToken = a.claimToken ∧ a'.workerID = a.workerID ∧
      a'.workerRequestID = a.workerRequestID := by
  cases h with
  | same => exact ⟨a, rfl, rfl, rfl, rfl⟩
  | claimed _ token workerID requestID deadline hdisp =>
      exact absurd (hshape.unheld hdisp.2) hheld.not_unheld
  | extended _ deadline => exact ⟨_, rfl, rfl, rfl, rfl⟩
  | recorded _ outcome document _ _ => exact ⟨_, rfl, rfl, rfl, rfl⟩
  | timedOut _ _ => exact ⟨_, rfl, rfl, rfl, rfl⟩
  | canceled =>
      refine ⟨_, rfl, ?_⟩
      unfold Attempt.cancel
      split <;> exact ⟨rfl, rfl, rfl⟩

theorem Attempt.held.congr {a a' : Attempt} (h : a.held) (htoken : a'.claimToken = a.claimToken)
    (hworker : a'.workerID = a.workerID) (hrequest : a'.workerRequestID = a.workerRequestID) :
    a'.held := by
  unfold Attempt.held
  rw [htoken, hworker, hrequest]
  exact h

/-- The holder of an attempt stays its holder. -/
theorem Reachable.holder {env : Env} {db db' : DB} (h : Reachable env db)
    (hrun : Relation.ReflTransGen (Step env) db db') {k : AttemptKey} {a : Attempt}
    (ha : db.attempts.get k = some a) (hheld : a.held) :
    ∃ a', db'.attempts.get k = some a' ∧ a'.claimToken = a.claimToken ∧ a'.workerID = a.workerID ∧
      a'.workerRequestID = a.workerRequestID := by
  induction hrun with
  | refl => exact ⟨a, ha, rfl, rfl, rfl⟩
  | @tail db₁ db₂ hfirst hlast ih =>
      obtain ⟨a₁, ha₁, htoken, hworker, hrequest⟩ := ih
      cases hlast with
      | tick _ d => exact ⟨a₁, ha₁, htoken, hworker, hrequest⟩
      | commit amb op r hop =>
          have hreach : Reachable env db₁ := ⟨h.choose, h.choose_spec.trans hfirst⟩
          have hs := (Op.run_commit hop).change.attemptStep k
          rw [ha₁] at hs
          obtain ⟨a₂, ha₂, htoken₂, hworker₂, hrequest₂⟩ :=
            hs.holder (hreach.attemptShape ha₁) (hheld.congr htoken hworker hrequest)
          exact ⟨a₂, ha₂, htoken₂.trans htoken, hworker₂.trans hworker, hrequest₂.trans hrequest⟩

theorem AttemptShape.held_of_some {a : Attempt} (h : AttemptShape a)
    (hsome : a.claimToken ≠ none ∨ a.workerID ≠ none ∨ a.workerRequestID ≠ none) : a.held := by
  refine h.either.resolve_right (fun hunheld => ?_)
  rcases hsome with hs | hs | hs
  · exact hs hunheld.1
  · exact hs hunheld.2.1
  · exact hs hunheld.2.2

-- ============================================================================
-- One attempt for a request
-- ============================================================================

theorem workerRequest_isSome {db : DB} {request : String} {k : AttemptKey} {a : Attempt}
    (ha : db.attempts.get k = some a) (hrequest : a.workerRequestID = some request) :
    db.workerRequest request ≠ none := by
  intro hnone
  have hall := List.find?_eq_none.mp hnone a (Table.mem_of_get ha)
  simp [hrequest] at hall

theorem Attempt.cancel_workerRequestID (a : Attempt) :
    a.cancel.workerRequestID = a.workerRequestID := by
  unfold Attempt.cancel
  split <;> rfl

/-- An update that keeps the request of a row. -/
theorem request_of_update {o : Option Attempt} {c : Prop} [Decidable c] {f : Attempt → Attempt}
    {a' : Attempt} (h : (if c then o.map f else o) = some a')
    (hf : ∀ a, (f a).workerRequestID = a.workerRequestID) :
    ∃ a, o = some a ∧ a.workerRequestID = a'.workerRequestID := by
  split at h
  · obtain ⟨a, ha, rfl⟩ := Option.map_eq_some_iff.mp h
    exact ⟨a, ha, (hf a).symm⟩
  · exact ⟨a', h, rfl⟩

/-- A binding that a committed operation adds is that of a claim, whose request was free. -/
theorem Change.request_origin {db db' : DB} {α : Type} {op : Op α} (h : Change db op db') :
    ∃ key fresh, ∀ k a' request, db'.attempts.get k = some a' → a'.workerRequestID = some request →
      (∃ a, db.attempts.get k = some a ∧ a.workerRequestID = some request) ∨
        (k = key ∧ request = fresh ∧ db.workerRequest fresh = none) := by
  have hkeep : (∀ k a', db'.attempts.get k = some a' → (∃ a, db.attempts.get k = some a ∧
      a.workerRequestID = a'.workerRequestID) ∨ a'.workerRequestID = none) →
      ∃ key fresh, ∀ k a' request, db'.attempts.get k = some a' →
        a'.workerRequestID = some request →
        (∃ a, db.attempts.get k = some a ∧ a.workerRequestID = some request) ∨
          (k = key ∧ request = fresh ∧ db.workerRequest fresh = none) := by
    intro hall
    refine ⟨⟨⟨"", "", 0⟩, 0⟩, "", fun k a' request ha' hrequest => .inl ?_⟩
    obtain ⟨a, ha, hsame⟩ | hnone := hall k a' ha'
    · exact ⟨a, ha, hsame.trans hrequest⟩
    · rw [hnone] at hrequest
      cases hrequest
  cases h with
  | idle rows => exact hkeep (fun k a' ha' => .inl ⟨a', by rw [← rows.attempts]; exact ha', rfl⟩)
  | created c | consumed c | timerScheduled c | advanced c | approvalRequested c | approvalGranted c
  | approvalRejected c =>
      exact hkeep (fun k a' ha' => .inl ⟨a', by rw [← c.attempts]; exact ha', rfl⟩)
  | extended c | recorded c | redispatched c | expired c =>
      refine hkeep (fun k a' ha' => .inl ?_)
      rw [c.attempts, DB.get_modifyAttempt] at ha'
      exact request_of_update ha' (fun _ => rfl)
  | owner c =>
      refine hkeep (fun k a' ha' => .inl ?_)
      rw [c.attempts, moveOwnedNode_attempts] at ha'
      exact request_of_update ha' Attempt.cancel_workerRequestID
  | canceled c =>
      refine hkeep (fun k a' ha' => .inl ?_)
      rw [c.attempts] at ha'
      obtain ⟨a, ha, rfl⟩ := Option.map_eq_some_iff.mp ha'
      refine ⟨a, ha, ?_⟩
      split
      · exact a.cancel_workerRequestID.symm
      · rfl
  | attemptCreated c =>
      refine hkeep (fun k a' ha' => ?_)
      rw [Table.get_insert c.attempts] at ha'
      split at ha'
      · cases ha'
        exact .inr rfl
      · exact .inl ⟨a', ha', rfl⟩
  | replaced c =>
      refine hkeep (fun k a' ha' => ?_)
      rw [Table.get_insert c.attempts] at ha'
      split at ha'
      · cases ha'
        exact .inr rfl
      · rw [DB.get_modifyAttempt] at ha'
        exact .inl (request_of_update ha' (fun _ => rfl))
  | @claimed _ input _ n _ _ _ c =>
      refine ⟨⟨input.key, n.currentAttempt.getD 0⟩, input.requestID, ?_⟩
      intro k a' request ha' hrequest
      rw [c.attempts, DB.get_modifyAttempt] at ha'
      split at ha'
      · rename_i hk
        obtain ⟨b, -, rfl⟩ := Option.map_eq_some_iff.mp ha'
        exact .inr ⟨hk, (Option.some.inj hrequest).symm, c.unbound⟩
      · exact .inl ⟨a', ha', hrequest⟩

/-- A request is bound to at most one attempt. -/
def RequestsBound (db : DB) : Prop :=
  ∀ k₁ k₂ a₁ a₂ request, db.attempts.get k₁ = some a₁ → db.attempts.get k₂ = some a₂ →
    a₁.workerRequestID = some request → a₂.workerRequestID = some request → k₁ = k₂

theorem RequestsBound.change {db db' : DB} {α : Type} {op : Op α} (h : RequestsBound db)
    (hc : Change db op db') : RequestsBound db' := by
  obtain ⟨key, fresh, horigin⟩ := hc.request_origin
  intro k₁ k₂ a₁ a₂ request h₁ h₂ hr₁ hr₂
  obtain ⟨b₁, hb₁, hs₁⟩ | ⟨rfl, rfl, hfree⟩ := horigin k₁ a₁ request h₁ hr₁
  · obtain ⟨b₂, hb₂, hs₂⟩ | ⟨-, rfl, hfree⟩ := horigin k₂ a₂ request h₂ hr₂
    · exact h k₁ k₂ b₁ b₂ request hb₁ hb₂ hs₁ hs₂
    · exact absurd hfree (workerRequest_isSome hb₁ hs₁)
  · obtain ⟨b₂, hb₂, hs₂⟩ | ⟨hk, -, -⟩ := horigin k₂ a₂ request h₂ hr₂
    · exact absurd hfree (workerRequest_isSome hb₂ hs₂)
    · exact hk.symm

theorem Reachable.requestsBound {env : Env} {db : DB} (h : Reachable env db) : RequestsBound db := by
  refine h.induction (fun _ _ _ _ _ _ hget => nomatch hget) ?_
  intro db db' hi hs
  cases hs with
  | tick d => exact hi
  | commit amb op r hrun => exact hi.change (Op.run_commit hrun).change

/-- A claim that succeeds binds its request to the attempt it returns; nothing is written when
    the request was bound before. -/
theorem claimAttempt_eq_ok {amb : Ambient} {input : ClaimInput} {db db' : DB} {r : ClaimResult}
    (h : claimAttempt amb input db = .ok (r, db')) :
    (∃ a, db'.attempts.get ⟨input.key, r.attemptNumber⟩ = some a ∧
      a.workerRequestID = some input.requestID ∧ a.claimToken = some r.claimToken) ∧
    (db.workerRequest input.requestID ≠ none → db' = db) := by
  simp only [claimAttempt, bind_eq_ok, getOr_eq_ok, rejectIf_eq_ok, exists_const] at h
  obtain ⟨-, w, -, -, h⟩ := h
  split at h
  · rename_i a hfound
    simp only [replayClaim, bind_eq_ok, getOr_eq_ok, rejectIf_eq_ok, exists_const, pure_eq_ok,
      Prod.mk.injEq] at h
    obtain ⟨result, ⟨hnode, -, token, htoken, -, rfl⟩, rfl, rfl⟩ := h
    simp only [ne_eq, not_not] at hnode
    refine ⟨⟨a, ?_, by simpa using List.find?_some hfound, htoken⟩, fun _ => rfl⟩
    rw [← hnode]
    exact Table.get_of_mem (List.mem_of_find?_eq_some hfound)
  · rename_i hnone
    simp only [bindClaim, bind_eq_ok, getOr_eq_ok, rejectIf_eq_ok, exists_const, pure_eq_ok,
      Prod.mk.injEq] at h
    obtain ⟨n, -, -, a, ha, -, rfl, rfl⟩ := h
    refine ⟨⟨_, by rw [DB.get_modifyAttempt, if_pos rfl, ha, Option.map_some], rfl, rfl⟩, ?_⟩
    exact fun hsome => absurd hnone hsome

-- ============================================================================
-- Only the holder commits
-- ============================================================================

theorem heartbeatAttempt_holds {env : Env} {input : HeartbeatInput} {db db' : DB} {r : Int}
    (hreach : Reachable env db) (h : heartbeatAttempt input db = .ok (r, db')) :
    HoldsClaim db ⟨input.key, input.attemptNumber⟩ input.claimToken := by
  simp only [heartbeatAttempt, bind_eq_ok, getOr_eq_ok, rejectIf_eq_ok, exists_const, pure_eq_ok,
    Prod.mk.injEq] at h
  obtain ⟨-, w, -, -, n, hn, -, token, htoken, a, ha, hclaimed, -, -⟩ := h
  simp only [not_or, not_not, Bool.not_eq_false, ne_eq] at hclaimed
  obtain ⟨hcur, hstate, hheld⟩ := hclaimed
  -- the node points to its current attempt
  obtain ⟨N, hgen⟩ := hreach.generation input.key
  have hpointer := hgen.current _ a ha hcur
  rw [pointer_of_get hn] at hpointer
  exact ⟨n, a, token, hn, hpointer, ha, hcur, hstate, htoken, hheld⟩

theorem recordCheckpoint_holds {input : CheckpointInput} {db db' : DB} {r : Checkpoint}
    (h : recordCheckpoint input db = .ok (r, db')) : HoldsClaim db input.key input.claimToken := by
  simp only [recordCheckpoint, bind_eq_ok, getOr_eq_ok, rejectIf_eq_ok, exists_const] at h
  obtain ⟨-, -, hash, -, w, -, -, n, hn, hcur, token, htoken, a, ha, hclaimed, -⟩ := h
  simp only [not_or, not_not, Bool.not_eq_false, ne_eq] at hclaimed hcur
  obtain ⟨hisCur, hheld, hstate⟩ := hclaimed
  exact ⟨n, a, token, hn, hcur, ha, hisCur, hstate, htoken, hheld⟩

/-- A result changes the workflow's rows only under the token of the current attempt; a replay
    and late evidence change none. -/
theorem recordResultReceipt_holds {amb : Ambient} {input : ResultInput} {db db' : DB}
    {r : ResultReceipt} (h : recordResultReceipt amb input db = .ok (r, db')) :
    SameRows db db' ∨ HoldsClaim db input.key input.claimToken := by
  simp only [recordResultReceipt, bind_eq_ok, getOr_eq_ok, rejectIf_eq_ok, exists_const] at h
  obtain ⟨-, -, -, -, w, -, n, hn, token, htoken, a, ha, hheld, h⟩ := h
  unfold settleResult at h
  split at h
  · simp only [bind_eq_ok, rejectIf_eq_ok, exists_const, pure_eq_ok, Prod.mk.injEq] at h
    obtain ⟨-, -, rfl⟩ := h
    exact .inl ⟨rfl, rfl, rfl, rfl, rfl, rfl⟩
  · split at h
    · simp only [bind_eq_ok, pure_eq_ok, Prod.mk.injEq] at h
      obtain ⟨⟨id, db₁⟩, hev, -, rfl⟩ := h
      obtain ⟨evidence, hdb₁, -⟩ := insertAttemptEvidence_eq_ok hev
      simp only at hdb₁
      subst hdb₁
      exact .inl ⟨rfl, rfl, rfl, rfl, rfl, rfl⟩
    · simp only [bind_eq_ok, rejectIf_eq_ok, exists_const, not_or, not_not, ne_eq,
        Bool.not_eq_false] at h
      obtain ⟨-, ⟨hcur, hisCur, hstate⟩, -⟩ := h
      exact .inr ⟨n, a, token, hn, hcur, ha, hisCur, hstate, htoken, by simpa using hheld⟩

/-- Claims are exclusive along every run of the store. -/
theorem claim_exclusivity {env : Env} {db db' : DB} (h : Reachable env db)
    (hrun : Relation.ReflTransGen (Step env) db db') : ClaimExclusive env db db' := by
  have hreach : Reachable env db' := ⟨h.choose, h.choose_spec.trans hrun⟩
  refine ⟨?_, hreach.requestsBound, ?_, fun _ _ _ hbeat => heartbeatAttempt_holds hreach hbeat,
    fun _ _ _ hcheck => recordCheckpoint_holds hcheck,
    fun _ _ _ _ hresult => recordResultReceipt_holds hresult⟩
  · intro k a ha hsome
    have hheld := (h.attemptShape ha).held_of_some (hsome.imp_right .inl)
    obtain ⟨a', ha', htoken, hworker, -⟩ := h.holder hrun ha hheld
    exact ⟨a', ha', htoken, hworker⟩
  · intro amb amb' input input' r r' db₁ db₂ hfirst hbetween hagain hsame
    have hreach₁ : Reachable env db₁ := h.step (.commit amb (.claimAttempt input) r hfirst)
    obtain ⟨⟨a, ha, hrequest, htoken⟩, -⟩ := claimAttempt_eq_ok hfirst
    have hheld := (hreach₁.attemptShape ha).held_of_some (.inl (by rw [htoken]; exact nofun))
    obtain ⟨a', ha', htoken', -, hrequest'⟩ := hreach₁.holder hbetween ha hheld
    rw [hrequest] at hrequest'
    -- the request is bound, so the retry reads the binding and writes nothing
    obtain ⟨⟨b, hb, hbrequest, hbtoken⟩, hidle⟩ := claimAttempt_eq_ok hagain
    obtain rfl := hidle (by rw [hsame]; exact workerRequest_isSome ha' hrequest')
    rw [hsame] at hbrequest
    have hkey := hreach.requestsBound _ _ b a' _ hb ha' hbrequest hrequest'
    rw [hkey, ha', Option.some.injEq] at hb
    rw [← hb, htoken', htoken] at hbtoken
    obtain ⟨hnode, hnumber⟩ := AttemptKey.mk.injEq .. |>.mp hkey
    exact ⟨hnode, hnumber, (Option.some.inj hbtoken).symm, rfl⟩

/-- The claim of the single activity is repeated after its heartbeat. -/
theorem claim_exclusivity_retried :
    ∃ db db', Reachable .plain db ∧ Relation.ReflTransGen (Step .plain) db db' ∧
      (db'.attempts.get ⟨⟨"w", "a", 0⟩, 1⟩).any (·.state = .claimed) = true ∧
      ClaimExclusive .plain db db' := by
  have hrun : (runScript? .plain 0 (soloScript.take 5) (DB.init 0)).any (fun db =>
      (runScript? .plain 5 [.call (.claimAttempt ⟨1, "w", "a", 0, "worker", "request", 0⟩),
        .call (.heartbeatAttempt ⟨"w", "a", 0, 1, uuidOf 3 5, 0⟩),
        .call (.claimAttempt ⟨1, "w", "a", 0, "worker", "request", 0⟩)] db).any (fun db' =>
          (db'.attempts.get ⟨⟨"w", "a", 0⟩, 1⟩).any (·.state = .claimed))) = true := by
    decide +kernel
  obtain ⟨db, hdb, hrest⟩ := (Option.any_eq_true _ _).mp hrun
  obtain ⟨db', hdb', hclaimed⟩ := (Option.any_eq_true _ _).mp hrest
  have hreach : Reachable .plain db := reachable_of_runScript? hdb
  exact ⟨db, db', hreach, run_of_runScript? hdb', hclaimed,
    claim_exclusivity hreach (run_of_runScript? hdb')⟩

end DurableEngine.State
