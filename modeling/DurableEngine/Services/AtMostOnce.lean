/-
  DurableEngine.Services.AtMostOnce

  Effects are applied at most once: the record of an effect is inserted with
  its mutation, so a second mutation of its key fails on the primary key,
  whichever of the checks before it was stale.

  A step of the world makes one move on the ledger (`World.Step.ledger`), and
  the ledger accounts for the mutations of a run (`Accounts`).
-/

import DurableEngine.Services.Dedupe

namespace DurableEngine.Services

open Lib State

/-- The call that mutated the sandbox. -/
def EffectEvent.mutation? : EffectEvent → Option EffectApplyInput
  | .answered input (.applied _) => some input
  | _ => none

/-- The mutations of a run, in the order in which they committed. -/
def mutations (trace : List Event) : List EffectApplyInput :=
  (effectTrace trace).filterMap EffectEvent.mutation?

@[simp] theorem mutations_nil : mutations [] = [] := rfl

@[simp] theorem mutations_append (a b : List Event) :
    mutations (a ++ b) = mutations a ++ mutations b := by
  simp [mutations]

theorem mem_mutations {trace : List Event} {input : EffectApplyInput} :
    input ∈ mutations trace ↔ ∃ revision, .answered input (.applied revision) ∈ effectTrace trace := by
  simp only [mutations, List.mem_filterMap]
  constructor
  · rintro ⟨event, hmem, hmutation⟩
    cases event with
    | authorised input' => cases hmutation
    | answered input' reply =>
        cases reply with
        | applied revision =>
            cases hmutation
            exact ⟨revision, hmem⟩
        | duplicate | refused => cases hmutation
  · rintro ⟨revision, hmem⟩
    exact ⟨_, hmem, rfl⟩

-- ============================================================================
-- Steps
-- ============================================================================

theorem effects_of_commit {env : Env} {amb : Ambient} {α : Type} {op : Op α} {db db' : DB} {a : α}
    (h : op.run env amb db = .ok (a, db')) : db'.effects = db.effects := by
  rw [(Op.run_commit h).frame]
  rfl

/-- Only the effect service writes the ledger. -/
theorem World.Step.ledger {env : Env} {w w' : World} {events : List Event}
    (h : World.Step env w events w') :
    LedgerMove w.db.effects w'.db.effects (effectTrace events) := by
  have hother : ∀ {e : EffectTables}, e = w.db.effects → LedgerMove w.db.effects e [] :=
    fun heq => .same [] (fun _ _ hmem => nomatch hmem) heq
  cases h with
  | tick _ d => exact hother rfl
  | commit _ amb op a db' h _ => exact hother (effects_of_commit h)
  | relay _ events s' h =>
      rw [effectTrace_relay]
      exact hother (by rw [h.frame]; rfl)
  | consumer _ events db' h =>
      rw [effectTrace_consumer]
      exact hother (by rw [h.frame]; rfl)
  | effect _ events s' h =>
      rw [effectTrace_effect]
      exact h.ledger

theorem LedgerMove.fencesKept {e e' : EffectTables} {events : List EffectEvent}
    (h : LedgerMove e e' events) : FencesKept e e' := by
  cases h with
  | same _ _ heq =>
      rw [heq]
      exact .of_eq rfl
  | refused _ _ _ h => exact h.fences
  | mutated _ _ h => exact h.fences
  | evidenced h => exact .of_eq h.fences

theorem LedgerMove.recordsKept {e e' : EffectTables} {events : List EffectEvent}
    (h : LedgerMove e e' events) : RecordsKept e e' := by
  cases h with
  | same _ _ heq =>
      rw [heq]
      exact .of_eq rfl
  | refused _ _ _ h => exact .of_eq h.records
  | mutated _ _ h =>
      obtain ⟨record, hins, -⟩ := h.record
      exact .of_inserted hins
  | evidenced h => exact h.records

/-- A move mutates the resource of its one call, or no resource at all. -/
theorem LedgerMove.mutation_cases {e e' : EffectTables} {events : List EffectEvent}
    (h : LedgerMove e e' events) :
    events.filterMap EffectEvent.mutation? = [] ∧ e'.sandbox = e.sandbox ∨
      ∃ input revision, events.filterMap EffectEvent.mutation? = [input] ∧
        Mutated e e' input revision := by
  cases h with
  | same _ hquiet heq =>
      refine .inl ⟨List.filterMap_eq_nil_iff.mpr (fun event hmem => ?_), by rw [heq]⟩
      cases event with
      | authorised input => rfl
      | answered input reply =>
          cases reply with
          | applied revision => exact absurd hmem (hquiet input revision)
          | duplicate | refused => rfl
  | refused input reply hquiet h =>
      refine .inl ⟨?_, h.sandbox⟩
      cases reply with
      | applied revision => exact absurd rfl (hquiet revision)
      | duplicate | refused => rfl
  | mutated input revision h => exact .inr ⟨input, revision, rfl, h⟩
  | evidenced h => exact .inl ⟨rfl, h.sandbox⟩

-- ============================================================================
-- Accounts
-- ============================================================================

/-- The ledger accounts for the mutations: each has its record, of its own key; the revision of a
    resource counts the mutations of the resource; and the fence of the resource has seen them all,
    in the order of their tokens. -/
structure Accounts (mutated : List EffectApplyInput) (e : EffectTables) : Prop where
  once : (mutated.map EffectApplyInput.key).Nodup
  recorded : ∀ input ∈ mutated, ∃ record, e.records.get input.key = some record ∧
    record.IsApplied input
  revisions : ∀ r, e.revision r = (mutated.filter (fun input => input.resourceID = r)).length
  fenced : ∀ input ∈ mutated, ∃ f, e.fences.get input.resourceID = some f ∧
    input.fenceToken ≤ f.observedToken
  ordered : mutated.Pairwise (fun a b => a.resourceID = b.resourceID → a.fenceToken ≤ b.fenceToken)

/-- A move that mutates nothing keeps them. -/
theorem Accounts.of_kept {mutated : List EffectApplyInput} {e e' : EffectTables}
    (h : Accounts mutated e) (hrecords : RecordsKept e e') (hfences : FencesKept e e')
    (hsandbox : e'.sandbox = e.sandbox) : Accounts mutated e' where
  once := h.once
  recorded := by
    intro input hin
    obtain ⟨record, hrecord, happlied⟩ := h.recorded input hin
    obtain ⟨record', hrecord', -, -, hsame⟩ := hrecords _ record hrecord
    rw [hsame happlied.outcome] at hrecord'
    exact ⟨record, hrecord', happlied⟩
  revisions := by
    intro r
    rw [EffectTables.revision, hsandbox]
    exact h.revisions r
  fenced := by
    intro input hin
    obtain ⟨f, hf, hle⟩ := h.fenced input hin
    obtain ⟨f', hf', hle'⟩ := hfences _ f hf
    exact ⟨f', hf', Int.le_trans hle hle'⟩
  ordered := h.ordered

theorem Accounts.mutation {mutated : List EffectApplyInput} {e e' : EffectTables}
    {input : EffectApplyInput} {revision : Int} (h : Accounts mutated e)
    (hm : Mutated e e' input revision) : Accounts (mutated ++ [input]) e' := by
  have hnew : ∀ input' ∈ mutated, input'.key ≠ input.key := by
    intro input' hin heq
    obtain ⟨record, hrecord, -⟩ := h.recorded input' hin
    rw [heq, hm.fresh] at hrecord
    cases hrecord
  refine ⟨?_, fun input' hin => ?_, fun r => ?_, fun input' hin => ?_, ?_⟩
  · rw [List.map_append, List.map_singleton]
    refine h.once.append (List.nodup_singleton _) (fun k hk hlast => ?_)
    obtain ⟨input', hin, rfl⟩ := List.mem_map.mp hk
    exact hnew input' hin (List.mem_singleton.mp hlast)
  · obtain ⟨record, hins, happlied⟩ := hm.record
    rcases List.mem_append.mp hin with hold | hlast
    · obtain ⟨record', hrecord', happlied'⟩ := h.recorded input' hold
      exact ⟨record', Table.get_insert_of_get hins hrecord', happlied'⟩
    · rw [List.mem_singleton.mp hlast, ← happlied.key]
      exact ⟨record, Table.get_insert_self hins, happlied⟩
  · rw [hm.revision_eq r, h.revisions r, List.filter_append, List.length_append, Int.natCast_add]
    congr 1
    by_cases hr : input.resourceID = r <;> simp [hr]
  · rcases List.mem_append.mp hin with hold | hlast
    · obtain ⟨f, hf, hle⟩ := h.fenced input' hold
      obtain ⟨f', hf', hle'⟩ := hm.fences _ f hf
      exact ⟨f', hf', Int.le_trans hle hle'⟩
    · obtain ⟨f, hf, htoken⟩ := hm.fence
      rw [List.mem_singleton.mp hlast]
      exact ⟨f, hf, Int.le_of_eq htoken.symm⟩
  · refine List.pairwise_append.mpr ⟨h.ordered, List.pairwise_singleton _ _, ?_⟩
    intro a ha b hb hresource
    rw [List.mem_singleton.mp hb] at hresource ⊢
    -- the fence of the resource had seen the earlier mutation
    obtain ⟨f, hf, hle⟩ := h.fenced a ha
    rw [hresource] at hf
    exact Int.le_trans hle (hm.observed f hf)

theorem Accounts.step {env : Env} {trace events : List Event} {w w' : World}
    (h : Accounts (mutations trace) w.db.effects) (hs : World.Step env w events w') :
    Accounts (mutations (trace ++ events)) w'.db.effects := by
  rw [mutations_append]
  obtain ⟨hquiet, hsandbox⟩ | ⟨input, revision, hshown, hmutated⟩ := hs.ledger.mutation_cases
  · rw [show mutations events = [] from hquiet, List.append_nil]
    exact h.of_kept hs.ledger.recordsKept hs.ledger.fencesKept hsandbox
  · rw [show mutations events = [input] from hshown]
    exact h.mutation hmutated

-- ============================================================================
-- Runs
-- ============================================================================

/-- Along a run records stay, with their hashes. -/
theorem World.Run.recordsKept {env : Env} {w w' : World} {trace : List Event}
    (h : World.Run env w trace w') {k : EffectKey} {record : EffectRecord}
    (hrecord : w.db.effects.records.get k = some record) :
    ∃ record', w'.db.effects.records.get k = some record' ∧
      record'.argumentHash = record.argumentHash ∧ record'.grantScopeHash = record.grantScopeHash := by
  refine h.keeps (I := fun w' => ∃ record', w'.db.effects.records.get k = some record' ∧
    record'.argumentHash = record.argumentHash ∧ record'.grantScopeHash = record.grantScopeHash)
    ⟨record, hrecord, rfl, rfl⟩ ?_
  rintro events w₁ w₂ ⟨record₁, hrecord₁, hargument, hscope⟩ hs
  obtain ⟨record₂, hrecord₂, hargument₂, hscope₂, -⟩ := hs.ledger.recordsKept k record₁ hrecord₁
  exact ⟨record₂, hrecord₂, hargument₂.trans hargument, hscope₂.trans hscope⟩

theorem World.Run.fencesKept {env : Env} {w w' : World} {trace : List Event}
    (h : World.Run env w trace w') : FencesKept w.db.effects w'.db.effects := by
  intro r f hf
  refine h.keeps (I := fun w' => ∃ f', w'.db.effects.fences.get r = some f' ∧
    f.observedToken ≤ f'.observedToken) ⟨f, hf, Int.le_refl _⟩ ?_
  rintro events w₁ w₂ ⟨f₁, hf₁, hle₁⟩ hs
  obtain ⟨f₂, hf₂, hle₂⟩ := hs.ledger.fencesKept r f₁ hf₁
  exact ⟨f₂, hf₂, Int.le_trans hle₁ hle₂⟩

/-- A key that has a record is not mutated again. -/
theorem World.Run.closed {env : Env} {w w' : World} {trace : List Event}
    (h : World.Run env w trace w') {k : EffectKey} {record : EffectRecord}
    (hrecord : w.db.effects.records.get k = some record) :
    ∀ input ∈ mutations trace, input.key ≠ k := by
  refine (h.invariant (I := fun trace w' => (∃ record', w'.db.effects.records.get k = some record') ∧
    ∀ input ∈ mutations trace, input.key ≠ k) ⟨⟨record, hrecord⟩, fun _ hin => nomatch hin⟩ ?_).2
  rintro trace₁ events w₁ w₂ ⟨⟨record₁, hrecord₁⟩, hold⟩ hs
  obtain ⟨record₂, hrecord₂, -⟩ := hs.ledger.recordsKept k record₁ hrecord₁
  refine ⟨⟨record₂, hrecord₂⟩, fun input hin => ?_⟩
  rw [mutations_append, List.mem_append] at hin
  rcases hin with hin | hlast
  · exact hold input hin
  · obtain ⟨hquiet, -⟩ | ⟨input', revision, hshown, hmutated⟩ := hs.ledger.mutation_cases
    · rw [show mutations events = [] from hquiet] at hlast
      cases hlast
    · rw [show mutations events = [input'] from hshown] at hlast
      obtain rfl := List.mem_singleton.mp hlast
      rintro rfl
      rw [hmutated.fresh] at hrecord₁
      cases hrecord₁

/-- The records that `ApplyEffect` created for the resource. -/
def createdRecords (trace : List Event) (resourceID : String) (db : DB) : List EffectRecord :=
  db.effects.records.select (fun record =>
    decide (record.key ∈ (mutations trace).map EffectApplyInput.key) &&
      decide (record.resourceID = some resourceID))

/-- There is one of them for each mutation of the resource. -/
theorem Accounts.length_createdRecords {trace : List Event} {db : DB}
    (h : Accounts (mutations trace) db.effects) (r : String) :
    (createdRecords trace r db).length =
      ((mutations trace).filter (fun input => input.resourceID = r)).length := by
  have hperm : ((createdRecords trace r db).map EffectRecord.key).Perm
      (((mutations trace).filter (fun input => input.resourceID = r)).map EffectApplyInput.key) := by
    refine (List.perm_ext_iff_of_nodup ?_ ?_).mpr (fun k => ?_)
    · exact db.effects.records.nodup.sublist (List.filter_sublist.map _)
    · exact h.once.sublist (List.filter_sublist.map _)
    · simp only [createdRecords, List.mem_map, Table.mem_select, List.mem_filter, Bool.and_eq_true,
        decide_eq_true_eq]
      constructor
      · rintro ⟨record, ⟨hmem, ⟨input, hin, hkey⟩, hresource⟩, rfl⟩
        refine ⟨input, ⟨hin, ?_⟩, hkey⟩
        -- the record is the one that the mutation of its key wrote
        obtain ⟨record', hrecord', happlied⟩ := h.recorded input hin
        rw [hkey, Table.get_of_mem hmem] at hrecord'
        cases hrecord'
        rw [happlied.resourceID] at hresource
        exact Option.some.inj hresource
      · rintro ⟨input, ⟨hin, rfl⟩, rfl⟩
        obtain ⟨record, hrecord, happlied⟩ := h.recorded input hin
        exact ⟨record, ⟨Table.mem_of_get hrecord, ⟨input, hin, happlied.key.symm⟩,
          happlied.resourceID⟩, happlied.key⟩
  simpa using hperm.length_eq

/-- Effects are applied at most once in a state of a run.  A step mutates nothing, or the resource
    of the one call it answers; the calls so answered have different keys; a key with a record, of
    an unknown outcome or any other, is not mutated from here on; and hashes, revisions and fence
    tokens agree with the mutations. -/
structure EffectsOnce (env : Env) (trace : List Event) (w : World) : Prop where
  mutates : ∀ events w', World.Step env w events w' →
    mutations events = [] ∧ w'.db.effects.sandbox = w.db.effects.sandbox ∨
    ∃ input, mutations events = [input] ∧
      w'.db.effects.revision input.resourceID = w.db.effects.revision input.resourceID + 1 ∧
      ∀ r, r ≠ input.resourceID → w'.db.effects.sandbox.get r = w.db.effects.sandbox.get r
  once : ((mutations trace).map EffectApplyInput.key).Nodup
  hashes : ∀ trace' w', World.Run env w trace' w' → ∀ k record,
    w.db.effects.records.get k = some record → ∃ record',
      w'.db.effects.records.get k = some record' ∧ record'.argumentHash = record.argumentHash ∧
      record'.grantScopeHash = record.grantScopeHash
  revisions : ∀ r, w.db.effects.revision r = (createdRecords trace r w.db).length
  observed : ∀ trace' w', World.Run env w trace' w' → FencesKept w.db.effects w'.db.effects
  tokens : (mutations trace).Pairwise (fun a b => a.resourceID = b.resourceID →
    a.fenceToken ≤ b.fenceToken)
  closed : ∀ trace' w', World.Run env w trace' w' → ∀ k record,
    w.db.effects.records.get k = some record → ∀ input ∈ mutations trace', input.key ≠ k

/-- In every state that any interleaving of effect calls with everything else reaches, effects
    are applied at most once. -/
theorem effects_once {env : Env} {now : Int} {trace : List Event} {w : World}
    (h : World.Run env (World.start now) trace w) : EffectsOnce env trace w := by
  have haccounts : Accounts (mutations trace) w.db.effects := by
    refine h.invariant (I := fun trace w => Accounts (mutations trace) w.db.effects) ?_
      (fun trace events w w' hw hs => hw.step hs)
    exact ⟨List.nodup_nil, fun _ hin => (nomatch hin), fun _ => rfl, fun _ hin => (nomatch hin), .nil⟩
  refine ⟨fun events w' hs => ?_, haccounts.once, fun _ _ hrun _ _ hrecord => hrun.recordsKept hrecord,
    fun r => ?_, fun _ _ hrun => hrun.fencesKept, haccounts.ordered,
    fun _ _ hrun _ _ hrecord => hrun.closed hrecord⟩
  · obtain hquiet | ⟨input, revision, hshown, hmutated⟩ := hs.ledger.mutation_cases
    · exact .inl hquiet
    · refine .inr ⟨input, hshown, ?_, hmutated.other⟩
      rw [hmutated.revision_eq, if_pos rfl]
  · rw [haccounts.length_createdRecords]
    exact haccounts.revisions r

/-- The hash of the proposal to write the empty document to the resource `r`. -/
def soloProposal : String :=
  Sha256.hexSum ("r" ++ "\x00" ++ Sha256.hexSum "{}" ++ "\x00" ++ "0")

/-- The proposal is approved for the effect `key`. -/
def approvedScript : List Move := [
  .call (.createDefinition soloDefinition), .call (.createWorkflow soloWorkflow),
  .call (.acquireLease 0 (uuidOf 8 0) 1000),
  .call (.createApprovalIntent ⟨soloLease, "w", "a", 0, 1, "r", .json (.obj []), "0", 10,
    "scheduler"⟩),
  .call (.recordApprovalDecision ⟨uuidOf 4 3, "approver", soloProposal, .approved, ""⟩),
  .call (.applyApproval ⟨soloLease, "w", "a", 0, uuidOf 4 3, "key", 2, "scheduler"⟩)]

/-- The scope of the grant for the effect `key`. -/
def soloScope : String := "9544ee20ea319cc895899e137c00259426813bf3f67762facf185e2c953f03c8"

theorem empty_jsonbOK : Json.jsonbOK (.obj []) = true := rfl

theorem empty_jsonb : Json.jsonb (.obj []) = .obj [] := rfl

def approvedIntent : ApprovalIntent where
  intentID := "00000000-0000-4000-0004-000000000003"
  node := ⟨"w", "a", 0⟩
  proposalHash := "ea8bfa3c0440cc3b158afb8523ea9e115741267f6fdb4ead0604a79a03fe092c"
  proposalSignature := "abeb74f624fb559785d61b16bac87d3018a8ee7d5eba410478b3fa10162810e8"
  target := "r"
  canonicalArguments := ⟨.obj [], empty_jsonbOK, empty_jsonb⟩
  expectedResourceRevision := "0"
  decision := .approved
  approverID := "approver"
  validUntil := 10
  dispatchStatus := .granted
  grantScopeHash := soloScope
  grantToken := "00000000-0000-4000-0005-000000000005"
  grantExpiresAt := some 10
  decisionReason := ""
  createdAt := 0

/-- An event of `approvedScript`, which no relay has claimed. -/
def pendingEvent (eventID : String) (revision : Int) (eventType : String) (payload : Jsonb) : OutboxEvent where
  eventID := eventID
  workflowID := "w"
  aggregateRevision := revision
  eventType := eventType
  topic := "durable-agent.events.v1"
  payload := payload
  publishState := .pending
  schemaVersion := 1
  relayAttempts := 0
  claimOwner := none
  claimExpiresAt := none
  nextAttemptAt := 0
  lastError := none
  createdAt := 0
  publishedAt := none

/-- What `approvedScript` leaves in the database. -/
def approvedDB : DB :=
  { DB.init 0 with
    definitions := ⟨[{
      definitionID := "solo"
      version := 1
      definitionHash := "hash"
      graph := ⟨.obj [("entry", .str "a"), ("nodes", .arr [.str "a"])], by decide +kernel, by decide +kernel⟩
      activityVersions := ⟨.obj [("a", .str "1")], by decide +kernel, by decide +kernel⟩
      effectClasses := ⟨.obj [("a", .str "PURE_ACTIVITY")], by decide +kernel, by decide +kernel⟩ }],
      List.nodup_singleton _⟩
    workflows := ⟨[⟨"w", "ns", "key", "payload", "solo", 1, 0, .runnable, 3⟩], List.nodup_singleton _⟩
    nodes := ⟨[⟨⟨"w", "a", 0⟩, .runnable, [], ⟨.obj [], empty_jsonbOK, empty_jsonb⟩, none, none, 0, none, false, 2⟩],
      List.nodup_singleton _⟩
    leases := (DB.init 0).leases.modify 0
      (fun l => { l with ownerID := some "00000000-0000-4000-0008-000000000000", epoch := 1, leaseExpiresAt := some 1000 })
      (fun _ => rfl)
    history := ⟨[
      ⟨⟨"w", 1⟩, "client", "client", none, some "a", none, none, none, .runnable, "WORKFLOW_CREATED"⟩,
      ⟨⟨"w", 2⟩, "scheduler", "scheduler", some 1, some "a", some 0, none, some .runnable, .waitingApproval,
        "APPROVAL_REQUESTED"⟩,
      ⟨⟨"w", 3⟩, "scheduler", "scheduler", some 1, some "a", some 0, none, some .waitingApproval, .runnable,
        "APPROVAL_GRANTED"⟩], by decide +kernel⟩
    outbox := ⟨[
      pendingEvent "00000000-0000-4000-0001-000000000001" 1 "workflow.created"
        ⟨.obj [("workflow_id", .str "w")], by decide +kernel, by decide +kernel⟩,
      pendingEvent "00000000-0000-4000-0001-000000000003" 2 "approval.requested"
        ⟨.obj [("intent_id", .str "00000000-0000-4000-0004-000000000003"), ("workflow_id", .str "w")],
          by decide +kernel, by decide +kernel⟩,
      pendingEvent "00000000-0000-4000-0001-000000000005" 3 "approval.granted"
        ⟨.obj [("intent_id", .str "00000000-0000-4000-0004-000000000003"), ("grant_scope_hash", .str soloScope)],
          by decide +kernel, by decide +kernel⟩], by decide +kernel⟩
    retryPolicies := ⟨[⟨⟨"w", "a", 0⟩, 3, 0, none, 1⟩], List.nodup_singleton _⟩
    intents := ⟨[approvedIntent], List.nodup_singleton _⟩ }

/-- The world behind `approvedScript`, from which the scripts below start. -/
def approvedWorld : World := ⟨approvedDB, [], []⟩

theorem hexSum_empty :
    Sha256.hexSum "{}" = "44136fa355b3678a1146ad16f7e8649e94fb4fc21fe77e8310c060f61caaff8a" := by
  decide +kernel

theorem soloProposal_eq :
    soloProposal = "ea8bfa3c0440cc3b158afb8523ea9e115741267f6fdb4ead0604a79a03fe092c" := by
  rw [soloProposal, hexSum_empty]
  decide +kernel

theorem approved_moves : World.moves? .plain 0 approvedScript (World.start 0) = some ([], approvedWorld) := by
  have hrun : (World.moves? .plain 0 approvedScript (World.start 0)).any (fun r =>
      r.1.isEmpty && decide (r.2.db = approvedDB) && r.2.passes.isEmpty && r.2.calls.isEmpty) = true := by
    rw [approvedScript, soloProposal_eq]
    decide +kernel
  obtain ⟨⟨trace, db, passes, calls⟩, hmoves, hshown⟩ := (Option.any_eq_true _ _).mp hrun
  simp only [Bool.and_eq_true, decide_eq_true_eq, List.isEmpty_iff] at hshown
  obtain ⟨⟨⟨rfl, rfl⟩, rfl⟩, rfl⟩ := hshown
  exact hmoves

theorem moves?_approved (script : List Move) :
    World.moves? .plain 0 (approvedScript ++ script) (World.start 0) = World.moves? .plain 6 script approvedWorld :=
  World.moves?_append approved_moves script

/-- A call under the grant of `approvedScript`. -/
def soloEffect (requestID : String) (fenceToken : Int) : EffectApplyInput where
  workflowID := "w"
  nodeID := "a"
  iteration := 0
  logicalEffectKey := "key"
  argumentHash := Sha256.hexSum "{}"
  attemptNumber := 1
  grantScopeHash := grantScopeHash soloProposal "0" "key" "r"
  expectedResourceRevision := "0"
  requestID := requestID
  resourceID := "r"
  fenceToken := fenceToken
  state := .json (.obj [])
  intentID := uuidOf 4 3
  grantToken := uuidOf 5 5

theorem soloScope_eq : grantScopeHash soloProposal "0" "key" "r" = soloScope := by
  rw [soloProposal_eq]
  decide +kernel

/-- The same call with its hashes and ids spelled out. -/
def grantedEffect (requestID : String) (fenceToken : Int) : EffectApplyInput where
  workflowID := "w"
  nodeID := "a"
  iteration := 0
  logicalEffectKey := "key"
  argumentHash := "44136fa355b3678a1146ad16f7e8649e94fb4fc21fe77e8310c060f61caaff8a"
  attemptNumber := 1
  grantScopeHash := soloScope
  expectedResourceRevision := "0"
  requestID := requestID
  resourceID := "r"
  fenceToken := fenceToken
  state := .json (.obj [])
  intentID := "00000000-0000-4000-0004-000000000003"
  grantToken := "00000000-0000-4000-0005-000000000005"

theorem soloEffect_eq : soloEffect = grantedEffect := by
  have hids : uuidOf 4 3 = "00000000-0000-4000-0004-000000000003" ∧
      uuidOf 5 5 = "00000000-0000-4000-0005-000000000005" := by decide +kernel
  funext requestID fenceToken
  simp only [soloEffect, grantedEffect, soloScope_eq, hexSum_empty, hids]

/-- Two calls for the effect miss its record before either of them writes it. -/
def onceScript : List Move := approvedScript ++ ([
  .check 0 (soloEffect "first" 1), .check 0 (soloEffect "second" 2), .next 0, .next 1, .next 1,
  .next 0] : List Move)

theorem effects_once_raced :
    ∃ trace w, World.Run .plain (World.start 0) trace w ∧
      (mutations trace).map EffectApplyInput.requestID = ["first"] ∧
      (effectTrace trace).length = 4 ∧ w.db.effects.revision "r" = 1 ∧
      EffectsOnce .plain trace w := by
  have hrun : (World.moves? .plain 0 onceScript (World.start 0)).any (fun r =>
      (mutations r.1).map EffectApplyInput.requestID = ["first"] && (effectTrace r.1).length = 4 &&
      r.2.db.effects.revision "r" = 1) = true := by
    rw [onceScript, moves?_approved, soloEffect_eq]
    decide +kernel
  obtain ⟨⟨trace, w⟩, hmoves, hshown⟩ := (Option.any_eq_true _ _).mp hrun
  simp only [Bool.and_eq_true, decide_eq_true_eq] at hshown
  have hrun := World.run_of_moves? hmoves
  exact ⟨trace, w, hrun, hshown.1.1, hshown.1.2, hshown.2, effects_once hrun⟩

end DurableEngine.Services
