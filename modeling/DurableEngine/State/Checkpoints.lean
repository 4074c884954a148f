/-
  DurableEngine.State.Checkpoints

  The checkpoint log of a node.

  Only `RecordCheckpoint` writes to it, for the worker that holds the current
  attempt, and it appends at the end: the sequences are those below the length
  of the log, and since attempts are numbered upwards the rows stand in the
  order of the attempts that wrote them.
-/

import DurableEngine.State.Claims
import DurableEngine.State.Identity
import DurableEngine.State.Budget

namespace DurableEngine.State

open Lib

-- ============================================================================
-- The latest checkpoint
-- ============================================================================

theorem foldl_later {l : List Checkpoint} {best : Option Checkpoint} :
    (l.foldl later best = none ↔ best = none ∧ l = []) ∧
      ∀ c, l.foldl later best = some c → (best = some c ∨ c ∈ l) ∧
        (∀ b, best = some b → b.key.sequence ≤ c.key.sequence) ∧
        ∀ b ∈ l, b.key.sequence ≤ c.key.sequence := by
  induction l generalizing best with
  | nil =>
      refine ⟨by simp, fun c hc => ⟨.inl hc, fun b hb => ?_, fun b hb => (nomatch hb)⟩⟩
      cases hb.symm.trans hc
      exact Int.le_refl _
  | cons a l ih =>
      obtain ⟨hnone, hsome⟩ := @ih (later best a)
      refine ⟨?_, fun c hc => ?_⟩
      · rw [List.foldl_cons, hnone]
        simp only [reduceCtorEq, and_false, iff_false]
        rintro ⟨hlater, -⟩
        cases best with
        | none => cases hlater
        | some b =>
            simp only [later] at hlater
            split at hlater <;> cases hlater
      · obtain ⟨hmem, hbest, hrest⟩ := hsome c hc
        cases best with
        | none =>
            refine ⟨.inr ?_, fun b hb => (nomatch hb), fun b hb => ?_⟩
            · obtain heq | hmem := hmem
              · cases heq
                exact List.mem_cons_self
              · exact List.mem_cons_of_mem _ hmem
            · obtain rfl | hb := List.mem_cons.mp hb
              · exact hbest b rfl
              · exact hrest b hb
        | some b₀ =>
            -- the better of the two first ones is not later than the result
            have hboth : b₀.key.sequence ≤ c.key.sequence ∧ a.key.sequence ≤ c.key.sequence := by
              simp only [later] at hbest
              split at hbest
              · have := hbest a rfl
                omega
              · have := hbest b₀ rfl
                omega
            refine ⟨?_, fun b hb => ?_, fun b hb => ?_⟩
            · obtain heq | hmem := hmem
              · simp only [later] at heq
                split at heq <;> cases heq
                · exact .inr List.mem_cons_self
                · exact .inl rfl
              · exact .inr (List.mem_cons_of_mem _ hmem)
            · cases hb
              exact hboth.1
            · obtain rfl | hb := List.mem_cons.mp hb
              · exact hboth.2
              · exact hrest b hb

variable {env : Env} {db db' : DB} {k : NodeKey}

theorem mem_checkpointsOf {c : Checkpoint} :
    c ∈ db.checkpoints.select (fun c => c.key.node = k) ↔
      db.checkpoints.get ⟨k, c.key.sequence⟩ = some c := by
  rw [Table.mem_select, decide_eq_true_eq, Table.mem_rows_iff]
  constructor
  · rintro ⟨hget, rfl⟩
    exact hget
  · intro hget
    have hkey : c.key = ⟨k, c.key.sequence⟩ := Table.key_of_get hget
    exact ⟨by rw [hkey]; exact hget, by rw [hkey]⟩

theorem latestCheckpoint_eq_none (h : db.latestCheckpoint k = none) (s : Int) :
    db.checkpoints.get ⟨k, s⟩ = none := by
  cases hc : db.checkpoints.get ⟨k, s⟩ with
  | none => rfl
  | some c =>
      have hkey : c.key = ⟨k, s⟩ := Table.key_of_get hc
      have hmem : c ∈ db.checkpoints.select (fun c => c.key.node = k) := by
        rw [mem_checkpointsOf, hkey]
        exact hc
      rw [(foldl_later.1.mp h).2] at hmem
      cases hmem

theorem latestCheckpoint_eq_some {c : Checkpoint} (h : db.latestCheckpoint k = some c) :
    db.checkpoints.get ⟨k, c.key.sequence⟩ = some c ∧
      ∀ s b, db.checkpoints.get ⟨k, s⟩ = some b → s ≤ c.key.sequence := by
  obtain ⟨hmem, -, hall⟩ := foldl_later.2 c h
  refine ⟨mem_checkpointsOf.mp (hmem.resolve_left (fun hnone => (nomatch hnone))), fun s b hb => ?_⟩
  have hkey : b.key = ⟨k, s⟩ := Table.key_of_get hb
  have hle := hall b (mem_checkpointsOf.mpr (by rw [hkey]; exact hb))
  rwa [hkey] at hle

-- ============================================================================
-- Saving a checkpoint
-- ============================================================================

/-- The row that a call appends. -/
structure Appends (db : DB) (input : CheckpointInput) (row : Checkpoint) (db' : DB) : Prop where
  key : row.key = ⟨input.key.node, input.sequence⟩
  schemaVersion : row.schemaVersion = input.schemaVersion
  sourceAttempt : row.sourceAttempt = input.attemptNumber
  hash : canonicalPayloadHash input.payload = .ok row.payloadHash
  inserted : Inserted db.checkpoints row db'.checkpoints
  next : (db.latestCheckpoint input.key.node = none ∧ input.sequence = 0) ∨
    ∃ c, db.latestCheckpoint input.key.node = some c ∧ input.sequence = c.key.sequence + 1

/-- What a committed call does: it appends a row, or it returns the latest one again. -/
structure Saved (db : DB) (input : CheckpointInput) (row : Checkpoint) (db' : DB) : Prop where
  holder : HoldsClaim db input.key input.claimToken
  version : input.schemaVersion = (db.retryPolicyOf input.key.node).checkpointSchemaVersion
  policies : PoliciesKept db db'
  policy : db'.retryPolicies.get input.key.node = some (db.retryPolicyOf input.key.node)
  frame : db' = { db with retryPolicies := db'.retryPolicies, checkpoints := db'.checkpoints }
  cases : Appends db input row db' ∨
    db'.checkpoints = db.checkpoints ∧ db.latestCheckpoint input.key.node = some row ∧
      input.sequence = row.key.sequence ∧ row.schemaVersion = input.schemaVersion

theorem appendCheckpoint_saves {input : CheckpointInput} {hash : String} {row : Checkpoint}
    (hhash : canonicalPayloadHash input.payload = .ok hash)
    (h : appendCheckpoint input hash db = .ok (row, db')) :
    db' = { db with checkpoints := db'.checkpoints } ∧ (Appends db input row db' ∨
      db'.checkpoints = db.checkpoints ∧ db.latestCheckpoint input.key.node = some row ∧
        input.sequence = row.key.sequence ∧ row.schemaVersion = input.schemaVersion) := by
  unfold appendCheckpoint at h
  split at h
  · rename_i hnone
    simp only [bind_eq_ok, getOr_eq_ok, rejectIf_eq_ok, exists_const, pure_eq_ok, Prod.mk.injEq,
      not_not] at h
    obtain ⟨hseq, document, -, checkpoints, hins, rfl, rfl⟩ := h
    exact ⟨rfl, .inl ⟨rfl, rfl, rfl, hhash, hins, .inl ⟨hnone, hseq⟩⟩⟩
  · rename_i c hc
    simp only [bind_eq_ok, rejectIf_eq_ok, exists_const, not_or, Int.not_lt] at h
    obtain ⟨hrange, h⟩ := h
    split at h
    · rename_i hseq
      simp only [bind_eq_ok, rejectIf_eq_ok, exists_const, pure_eq_ok, Prod.mk.injEq, not_or,
        not_not] at h
      obtain ⟨⟨-, hversion⟩, rfl, rfl⟩ := h
      exact ⟨rfl, .inr ⟨rfl, hc, hseq, hversion⟩⟩
    · rename_i hseq
      simp only [bind_eq_ok, getOr_eq_ok, pure_eq_ok, Prod.mk.injEq] at h
      obtain ⟨document, -, checkpoints, hins, rfl, rfl⟩ := h
      exact ⟨rfl, .inl ⟨rfl, rfl, rfl, hhash, hins, .inr ⟨c, hc, by omega⟩⟩⟩

theorem recordCheckpoint_eq_ok {input : CheckpointInput} {row : Checkpoint}
    (h : recordCheckpoint input db = .ok (row, db')) : Saved db input row db' := by
  have hholds := recordCheckpoint_holds h
  simp only [recordCheckpoint, bind_eq_ok, getOr_eq_ok, rejectIf_eq_ok, exists_const] at h
  obtain ⟨-, -, hash, hhash, w, -, -, n, hn, -, token, -, a, -, -, ⟨policy, db₁⟩, hpol, hversion,
    happend⟩ := h
  obtain ⟨rfl, policies, hdb₁, hkept, hself⟩ := retryPolicyTx_eq_ok hpol
  simp only at hdb₁ hkept happend hversion
  obtain ⟨hframe, hcases⟩ := appendCheckpoint_saves hhash happend
  simp only [not_not] at hversion
  have hpolicies : db'.retryPolicies = policies := by rw [hframe, hdb₁]
  refine ⟨hholds, hversion, hkept.trans (.of_eq (by rw [hframe])), by rw [hpolicies]; exact hself,
    by rw [hframe, hdb₁], ?_⟩
  subst hdb₁
  obtain happ | hsame := hcases
  · exact .inl ⟨happ.key, happ.schemaVersion, happ.sourceAttempt, happ.hash, happ.inserted, happ.next⟩
  · exact .inr hsame

/-- Only `RecordCheckpoint` touches the log. -/
theorem Step.checkpoints (h : Step env db db') : db'.checkpoints = db.checkpoints ∨
    ∃ input row, recordCheckpoint input db = .ok (row, db') := by
  cases h with
  | tick _ d => exact .inl rfl
  | commit amb op a hop =>
      have hframe := (Op.run_commit hop).frame
      cases op with
      | recordCheckpoint input => exact .inr ⟨input, a, hop⟩
      | _ => exact .inl (by rw [hframe]; rfl)

theorem Step.stored_policy (h : Step env db db') {policy : RetryPolicy}
    (hpolicy : db.retryPolicies.get k = some policy) : ∃ policy', db'.retryPolicies.get k = some policy' := by
  cases h with
  | tick _ d => exact ⟨policy, hpolicy⟩
  | commit amb op a hop =>
      obtain ⟨policy', hpolicy', -⟩ := (Op.run_commit hop).policies.stored hpolicy
      exact ⟨policy', hpolicy'⟩

theorem Step.attempt_persists (h : Step env db db') {key : AttemptKey} {a : Attempt}
    (ha : db.attempts.get key = some a) : ∃ a', db'.attempts.get key = some a' := by
  obtain ⟨a', ha', -⟩ := sameIdentity_kept (.single h) ha
  exact ⟨a', ha'⟩

-- ============================================================================
-- The log of a node
-- ============================================================================

/-- The log of a node has no gap, its rows name attempts of the node in their order, and the node
    has a retry policy once it has a checkpoint. -/
structure CheckpointChain (db : DB) (k : NodeKey) : Prop where
  sequences : ∃ n : Nat, ∀ s, (∃ c, db.checkpoints.get ⟨k, s⟩ = some c) ↔ 0 ≤ s ∧ s < n
  source : ∀ s c, db.checkpoints.get ⟨k, s⟩ = some c →
    ∃ a, db.attempts.get ⟨k, c.sourceAttempt⟩ = some a
  ordered : ∀ s s' c c', db.checkpoints.get ⟨k, s⟩ = some c → db.checkpoints.get ⟨k, s'⟩ = some c' →
    s ≤ s' → c.sourceAttempt ≤ c'.sourceAttempt
  policy : ∀ s c, db.checkpoints.get ⟨k, s⟩ = some c → ∃ p, db.retryPolicies.get k = some p

theorem CheckpointChain.init (now : Int) (k : NodeKey) : CheckpointChain (DB.init now) k where
  sequences := ⟨0, fun s => ⟨fun ⟨_, hc⟩ => (nomatch hc), fun ⟨hle, hlt⟩ => by
    exfalso
    omega⟩⟩
  source _ _ hc := nomatch hc
  ordered _ _ _ _ hc := nomatch hc
  policy _ _ hc := nomatch hc

/-- A step that leaves the log alone. -/
theorem CheckpointChain.same (h : CheckpointChain db k) (hs : Step env db db')
    (heq : ∀ s, db'.checkpoints.get ⟨k, s⟩ = db.checkpoints.get ⟨k, s⟩) : CheckpointChain db' k where
  sequences := by
    obtain ⟨n, hn⟩ := h.sequences
    exact ⟨n, fun s => by rw [heq]; exact hn s⟩
  source s c hc := by
    rw [heq] at hc
    obtain ⟨a, ha⟩ := h.source s c hc
    exact hs.attempt_persists ha
  ordered s s' c c' hc hc' := by
    rw [heq] at hc hc'
    exact h.ordered s s' c c' hc hc'
  policy s c hc := by
    rw [heq] at hc
    obtain ⟨p, hp⟩ := h.policy s c hc
    exact hs.stored_policy hp

/-- The row that is appended comes next. -/
theorem CheckpointChain.append (h : CheckpointChain db k) (hreach : Reachable env db)
    (hs : Step env db db') {input : CheckpointInput} {row : Checkpoint} (hk : input.key.node = k)
    (hholds : HoldsClaim db input.key input.claimToken) (happ : Appends db input row db')
    (hpolicy : db'.retryPolicies.get k = some (db.retryPolicyOf k)) : CheckpointChain db' k := by
  have hkey : row.key = ⟨k, input.sequence⟩ := by rw [happ.key, hk]
  have hget : ∀ s, db'.checkpoints.get ⟨k, s⟩ =
      if s = input.sequence then some row else db.checkpoints.get ⟨k, s⟩ := by
    intro s
    rw [Table.get_insert happ.inserted, hkey]
    simp only [CheckpointKey.mk.injEq, true_and]
  obtain ⟨n, hn⟩ := h.sequences
  have hnext : input.sequence = n := by
    obtain ⟨hnone, hseq⟩ | ⟨c, hc, hseq⟩ := happ.next
    · rw [hk] at hnone
      have hzero := hn 0
      rw [latestCheckpoint_eq_none hnone] at hzero
      by_contra hne
      obtain ⟨c, hc⟩ := hzero.mpr ⟨Int.le_refl _, by omega⟩
      cases hc
    · rw [hk] at hc
      obtain ⟨hself, hmax⟩ := latestCheckpoint_eq_some hc
      have hlt := (hn c.key.sequence).mp ⟨c, hself⟩
      obtain ⟨b, hb⟩ := (hn (n - 1)).mpr ⟨by omega, by omega⟩
      have hle := hmax _ b hb
      omega
  -- no attempt of the node is numbered higher than the one that saves
  obtain ⟨N, hN⟩ := hreach.generation k
  obtain ⟨node, a, token, hnode, hcurrent, ha, -⟩ := hholds
  have hptr := pointer_of_get hnode
  rw [hk, hcurrent] at hptr
  have hlast : input.attemptNumber = N := (hN.pointer _ hptr).1
  have hsource : ∀ s c, db.checkpoints.get ⟨k, s⟩ = some c → c.sourceAttempt ≤ row.sourceAttempt := by
    intro s c hc
    have hle := ((hN.numbers c.sourceAttempt).mp (h.source s c hc)).2
    rw [happ.sourceAttempt]
    omega
  refine ⟨⟨n + 1, fun s => ?_⟩, fun s c hc => ?_, fun s s' c c' hc hc' hle => ?_,
    fun s c hc => ⟨_, hpolicy⟩⟩
  · rw [hget, hnext]
    split
    · exact ⟨fun _ => by omega, fun _ => ⟨row, rfl⟩⟩
    · rw [hn s]
      omega
  · rw [hget] at hc
    split at hc
    · cases hc
      rw [happ.sourceAttempt, ← hk]
      exact hs.attempt_persists ha
    · obtain ⟨b, hb⟩ := h.source s c hc
      exact hs.attempt_persists hb
  · rw [hget] at hc hc'
    split at hc'
    · cases hc'
      split at hc
      · cases hc
        exact Int.le_refl _
      · exact hsource s c hc
    · split at hc
      · have hlt := ((hn s').mp ⟨c', hc'⟩).2
        omega
      · exact h.ordered s s' c c' hc hc' hle

theorem CheckpointChain.step (h : CheckpointChain db k) (hreach : Reachable env db)
    (hs : Step env db db') : CheckpointChain db' k := by
  obtain hsame | ⟨input, row, hrun⟩ := hs.checkpoints
  · exact h.same hs (fun s => by rw [hsame])
  · have hsaved := recordCheckpoint_eq_ok hrun
    obtain happ | ⟨hsame, -⟩ := hsaved.cases
    · by_cases hk : input.key.node = k
      · exact h.append hreach hs hk hsaved.holder happ (hk ▸ hsaved.policy)
      · refine h.same hs (fun s => Table.get_insert_ne happ.inserted (fun heq => hk ?_))
        rw [happ.key] at heq
        exact (CheckpointKey.mk.inj heq).1.symm
    · exact h.same hs (fun s => by rw [hsame])

theorem Reachable.checkpointChain (h : Reachable env db) (k : NodeKey) : CheckpointChain db k :=
  h.invariant (I := fun db => CheckpointChain db k) (fun now => .init now k)
    (fun _ _ hreach hi hs => hi.step hreach hs)

/-- A committed row never changes. -/
theorem checkpoint_kept (h : Relation.ReflTransGen (Step env) db db') {key : CheckpointKey}
    {c : Checkpoint} (hc : db.checkpoints.get key = some c) :
    db'.checkpoints.get key = some c := by
  induction h with
  | refl => exact hc
  | tail _ hlast ih =>
      obtain hsame | ⟨input, row, hrun⟩ := hlast.checkpoints
      · rw [hsame]
        exact ih
      · obtain happ | ⟨hsame, -⟩ := (recordCheckpoint_eq_ok hrun).cases
        · exact Table.get_insert_of_get happ.inserted ih
        · rw [hsame]
          exact ih

-- ============================================================================
-- Who saved a row
-- ============================================================================

/-- The row was saved in the run, by the worker that then held the node's current attempt. -/
def SavedByHolder (env : Env) (start db : DB) (row : Checkpoint) : Prop :=
  ∃ input db₁ db₂, Relation.ReflTransGen (Step env) start db₁ ∧
    HoldsClaim db₁ input.key input.claimToken ∧ recordCheckpoint input db₁ = .ok (row, db₂) ∧
    db₁.checkpoints.get row.key = none ∧ row.key = ⟨input.key.node, input.sequence⟩ ∧
    row.sourceAttempt = input.attemptNumber ∧ canonicalPayloadHash input.payload = .ok row.payloadHash ∧
    Relation.ReflTransGen (Step env) db₂ db

theorem savedByHolder {start : DB} (hfresh : ∀ key, start.checkpoints.get key = none)
    (h : Relation.ReflTransGen (Step env) start db) {key : CheckpointKey} {row : Checkpoint}
    (hrow : db.checkpoints.get key = some row) : SavedByHolder env start db row := by
  induction h with
  | refl =>
      rw [hfresh key] at hrow
      cases hrow
  | @tail db db' hrun hlast ih =>
      have hlater : db.checkpoints.get key = some row → SavedByHolder env start db' row := by
        intro hold
        obtain ⟨input, db₁, db₂, hfirst, hholds, hsave, hnone, hkey, hsource, hhash, hrest⟩ := ih hold
        exact ⟨input, db₁, db₂, hfirst, hholds, hsave, hnone, hkey, hsource, hhash, hrest.tail hlast⟩
      obtain hsame | ⟨input, row', hsave⟩ := hlast.checkpoints
      · exact hlater (hsame ▸ hrow)
      · have hsaved := recordCheckpoint_eq_ok hsave
        obtain happ | ⟨hsame, -⟩ := hsaved.cases
        · rw [Table.get_insert happ.inserted] at hrow
          split at hrow
          · cases hrow
            exact ⟨input, db, db', hrun, hsaved.holder, hsave,
              (Table.insert?_eq_some_iff.mp happ.inserted).1, happ.key, happ.sourceAttempt, happ.hash,
              .refl⟩
          · exact hlater hrow
        · exact hlater (hsame ▸ hrow)

-- ============================================================================
-- Repeating the latest checkpoint
-- ============================================================================

/-- The call names the progress of the latest checkpoint again. -/
structure Repeats (db : DB) (input : CheckpointInput) (c : Checkpoint) : Prop where
  latest : db.latestCheckpoint input.key.node = some c
  sequence : input.sequence = c.key.sequence
  hash : canonicalPayloadHash input.payload = .ok c.payloadHash

/-- The call is complete, and its worker holds the current attempt of a live workflow. -/
structure Permitted (db : DB) (input : CheckpointInput) : Prop where
  complete : input.workflowID ≠ "" ∧ input.nodeID ≠ "" ∧ input.claimToken ≠ "" ∧
    0 < input.attemptNumber ∧ 0 ≤ input.sequence ∧ 0 < input.schemaVersion
  live : ∃ w, db.workflows.get input.workflowID = some w ∧ w.state.isTerminal = false
  holder : HoldsClaim db input.key input.claimToken

/-- A call that commits is permitted. -/
theorem permitted_of_recordCheckpoint {input : CheckpointInput} {row : Checkpoint}
    (h : recordCheckpoint input db = .ok (row, db')) : Permitted db input := by
  have hholds := recordCheckpoint_holds h
  simp only [recordCheckpoint, bind_eq_ok, getOr_eq_ok, rejectIf_eq_ok, exists_const] at h
  obtain ⟨hcomplete, -, -, -, w, hw, hlive, -⟩ := h
  simp only [not_or, Int.not_le, Int.not_lt] at hcomplete
  exact ⟨hcomplete, ⟨w, hw, by simpa using hlive⟩, hholds⟩

/-- A stored policy is read and nothing is written. -/
theorem retryPolicyTx_of_get {policy : RetryPolicy} (h : db.retryPolicies.get k = some policy) :
    retryPolicyTx db k = .ok (policy, db) := by
  have hensure : ensureRetryPolicyTx db k = db := by
    unfold ensureRetryPolicyTx
    split
    · rename_i policies hins
      rw [(Table.insert?_eq_some_iff.mp hins).1] at h
      cases h
    · rfl
  simp only [retryPolicyTx, hensure, h]
  rfl

/-- A permitted repetition under the schema version of the row returns the row and writes nothing,
    as long as the node's policy has that version. -/
theorem recordCheckpoint_repeats {input : CheckpointInput} {c : Checkpoint} {policy : RetryPolicy}
    (h : Repeats db input c) (hpermitted : Permitted db input)
    (hversion : input.schemaVersion = c.schemaVersion)
    (hpolicy : db.retryPolicies.get input.key.node = some policy)
    (hschema : policy.checkpointSchemaVersion = c.schemaVersion) :
    recordCheckpoint input db = .ok (c, db) := by
  obtain ⟨hworkflowID, hnodeID, htoken, hnumber, hsequence, hpositive⟩ := hpermitted.complete
  obtain ⟨w, hw, hlive⟩ := hpermitted.live
  obtain ⟨n, a, token, hn, hcurrent, ha, hisCurrent, hstate, huuid, hheld⟩ := hpermitted.holder
  have hvalid : input.payload.valid = true := by
    obtain ⟨v, hp, hshallow, -⟩ := canonicalPayloadHash_eq_ok.mp h.hash
    rw [hp]
    exact hshallow
  have happend : appendCheckpoint input c.payloadHash db = .ok (c, db) := by
    unfold appendCheckpoint
    rw [h.latest, h.sequence, hversion]
    dsimp only
    rw [rejectIf_of_not _ (by omega), ok_bind, if_pos rfl, rejectIf_of_not _ (by simp), ok_bind]
    rfl
  simp only [recordCheckpoint, bind_eq_ok, getOr_eq_ok, rejectIf_eq_ok, exists_const]
  refine ⟨by simp [hworkflowID, hnodeID, htoken, hnumber, hsequence, hpositive], by simp [hvalid],
    c.payloadHash, h.hash, w, hw, by simp [hlive], n, hn, not_not.mpr hcurrent, token, huuid, a, ha,
    by simp [hisCurrent, hheld, hstate], (policy, db), retryPolicyTx_of_get hpolicy,
    not_not.mpr (hversion.trans hschema.symm), happend⟩

/-- An accepted repetition names the schema version of the row, returns the row and writes
    nothing. -/
theorem recordCheckpoint_repeated (h : CheckpointChain db k) {input : CheckpointInput} {c : Checkpoint}
    (hk : input.key.node = k) (hrep : Repeats db input c) {r : Checkpoint × DB}
    (hrun : recordCheckpoint input db = .ok r) : input.schemaVersion = c.schemaVersion ∧ r = (c, db) := by
  obtain ⟨row, db'⟩ := r
  have hsaved := recordCheckpoint_eq_ok hrun
  have hself := (latestCheckpoint_eq_some hrep.latest).1
  obtain happ | ⟨-, hlatest, -, hversion⟩ := hsaved.cases
  · -- the row is there already
    have hnone := (Table.insert?_eq_some_iff.mp happ.inserted).1
    rw [happ.key, hrep.sequence, hself] at hnone
    cases hnone
  · rw [hrep.latest, Option.some.injEq] at hlatest
    subst hlatest
    obtain ⟨policy, hpolicy⟩ := h.policy _ c (hk ▸ hself)
    have hschema := hsaved.version
    rw [hk, retryPolicyOf_of_get hpolicy] at hschema
    have hagain := recordCheckpoint_repeats hrep (permitted_of_recordCheckpoint hrun) hversion.symm
      (hk ▸ hpolicy) (hschema.symm.trans hversion.symm)
    exact ⟨hversion.symm, Except.ok.inj (hrun.symm.trans hagain)⟩

-- ============================================================================
-- Schema versions
-- ============================================================================

/-- A call of `SetRetryPolicy` leaves the schema version of a node with checkpoints alone. -/
def KeepsVersion (α : Type) (op : Op α) (db : DB) : Prop :=
  match op with
  | .setRetryPolicy input => db.latestCheckpoint input.key = none ∨
      (input.policy 0).checkpointSchemaVersion = (db.retryPolicyOf input.key).checkpointSchemaVersion
  | _ => True

/-- The rows of a node have the schema version of its policy. -/
def PolicyVersion (db : DB) (k : NodeKey) : Prop :=
  ∀ s c, db.checkpoints.get ⟨k, s⟩ = some c →
    c.schemaVersion = (db.retryPolicyOf k).checkpointSchemaVersion

/-- Such an operation keeps the version of a policy whose node has checkpoints. -/
theorem PolicyChange.version {α : Type} {op : Op α} (h : PolicyChange db op db')
    (hkeeps : KeepsVersion α op db) (k : NodeKey) : db.latestCheckpoint k = none ∨
      (db'.retryPolicyOf k).checkpointSchemaVersion = (db.retryPolicyOf k).checkpointSchemaVersion := by
  cases h with
  | kept policies => exact .inr (by rw [policies.read k])
  | set input enough write =>
      by_cases hk : k = input.key
      · subst hk
        rw [retryPolicyOf_of_get write.after]
        exact hkeeps
      · exact .inr (by rw [write.others k hk])
  | spent input left write =>
      by_cases hk : k = input.key
      · subst hk
        rw [retryPolicyOf_of_get write.after]
        exact .inr rfl
      · exact .inr (by rw [write.others k hk])

theorem PolicyVersion.step (h : PolicyVersion db k) (hs : StepIf env KeepsVersion db db') :
    PolicyVersion db' k := by
  cases hs with
  | tick _ d => exact h
  | commit amb op a hop hkeeps =>
      -- a row that was there before
      have hold : ∀ s c, db.checkpoints.get ⟨k, s⟩ = some c →
          c.schemaVersion = (db'.retryPolicyOf k).checkpointSchemaVersion := by
        intro s c hc
        obtain hnone | hversion := (Op.run_commit hop).policies.version hkeeps k
        · rw [latestCheckpoint_eq_none hnone s] at hc
          cases hc
        · exact (h s c hc).trans hversion.symm
      intro s c hc
      obtain hsame | ⟨input, row, hsave⟩ := (Step.commit amb op a hop).checkpoints
      · exact hold s c (hsame ▸ hc)
      · have hsaved := recordCheckpoint_eq_ok hsave
        obtain happ | ⟨hsame, -⟩ := hsaved.cases
        · rw [Table.get_insert happ.inserted, happ.key] at hc
          split at hc
          · rename_i hkey
            cases hc
            rw [happ.schemaVersion, hsaved.version, hsaved.policies.read,
              (CheckpointKey.mk.inj hkey).1]
          · exact hold s c hc
        · exact hold s c (hsame ▸ hc)

theorem policyVersion (h : ReachableIf env KeepsVersion db) (k : NodeKey) : PolicyVersion db k :=
  h.induction (I := fun db => PolicyVersion db k) (fun _ _ _ hc => (nomatch hc))
    (fun _ _ _ hi hs => hi.step hs)

-- ============================================================================
-- The checkpoint log
-- ============================================================================

/-- The checkpoint log of the node `k` in a state that a run from `start` reaches. -/
structure CheckpointLog (env : Env) (start db : DB) (k : NodeKey) : Prop where
  sequences : ∃ n : Nat, ∀ s, (∃ c, db.checkpoints.get ⟨k, s⟩ = some c) ↔ 0 ≤ s ∧ s < n
  kept : ∀ db', Relation.ReflTransGen (Step env) db db' → ∀ s c,
    db.checkpoints.get ⟨k, s⟩ = some c → db'.checkpoints.get ⟨k, s⟩ = some c
  ordered : ∀ s s' c c', db.checkpoints.get ⟨k, s⟩ = some c → db.checkpoints.get ⟨k, s'⟩ = some c' →
    s ≤ s' → c.sourceAttempt ≤ c'.sourceAttempt
  holder : ∀ s c, db.checkpoints.get ⟨k, s⟩ = some c → SavedByHolder env start db c
  silent : ∀ input c r, input.key.node = k → Repeats db input c →
    recordCheckpoint input db = .ok r → r = (c, db)
  repeated : Relation.ReflTransGen (StepIf env KeepsVersion) start db →
    ∀ input c, input.key.node = k → Repeats db input c →
      (recordCheckpoint input db = .ok (c, db) ↔
        Permitted db input ∧ input.schemaVersion = c.schemaVersion)

/-- The checkpoints of a node form a log in every run: without gaps, never rewritten, in the order
    of the attempts, each saved by the worker that then held the current attempt. A repetition of
    the latest one writes nothing, and as long as no call of `SetRetryPolicy` moves the schema
    version under it, the worker that holds the attempt always gets it back. -/
theorem checkpoint_log {now : Int} (h : Relation.ReflTransGen (Step env) (DB.init now) db)
    (k : NodeKey) : CheckpointLog env (DB.init now) db k := by
  have hreach : Reachable env db := ⟨now, h⟩
  have hchain := hreach.checkpointChain k
  refine ⟨hchain.sequences, fun db' hrun s c => checkpoint_kept hrun, hchain.ordered,
    fun s c hc => savedByHolder (fun _ => rfl) h hc,
    fun input c r hk hrep hrun => (recordCheckpoint_repeated hchain hk hrep hrun).2,
    fun hkept input c hk hrep => ⟨fun hrun => ⟨permitted_of_recordCheckpoint hrun,
      (recordCheckpoint_repeated hchain hk hrep hrun).1⟩, fun ⟨hpermitted, hversion⟩ => ?_⟩⟩
  have hself := (latestCheckpoint_eq_some hrep.latest).1
  obtain ⟨policy, hpolicy⟩ := hchain.policy _ c (hk ▸ hself)
  have hschema := policyVersion ⟨now, hkept⟩ k _ c (hk ▸ hself)
  rw [retryPolicyOf_of_get hpolicy] at hschema
  exact recordCheckpoint_repeats hrep hpermitted hversion (hk ▸ hpolicy) hschema.symm

/-- The worker saves its first two checkpoints. -/
def savedScript : List Action := soloScript.take 6 ++ ([
  .call (.recordCheckpoint ⟨"w", "a", 0, 1, uuidOf 3 5, 0, 1, .json (.str "half")⟩),
  .call (.recordCheckpoint ⟨"w", "a", 0, 1, uuidOf 3 5, 1, 1, .json (.str "most")⟩)] : List Action)

/-- The log of its node holds both. -/
theorem checkpoint_log_saved : ∃ db c, Relation.ReflTransGen (Step .plain) (DB.init 0) db ∧
    db.latestCheckpoint ⟨"w", "a", 0⟩ = some c ∧ c.key.sequence = 1 ∧
    CheckpointLog .plain (DB.init 0) db ⟨"w", "a", 0⟩ := by
  have hrun : (runScript? .plain 0 savedScript (DB.init 0)).any (fun db =>
      (db.latestCheckpoint ⟨"w", "a", 0⟩).any (fun c => c.key.sequence = 1)) = true := by
    decide +kernel
  obtain ⟨db, hdb, hcheck⟩ := (Option.any_eq_true _ _).mp hrun
  obtain ⟨c, hc, hseq⟩ := (Option.any_eq_true _ _).mp hcheck
  have hsteps := run_of_runScript? hdb
  exact ⟨db, c, hsteps, hc, of_decide_eq_true hseq, checkpoint_log hsteps _⟩

end DurableEngine.State
