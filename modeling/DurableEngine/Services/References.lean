/-
  DurableEngine.Services.References

  The references of obligations.

  `(kind, reference)` is unique, so two obligations with one reference are
  one row.  References join ids and numbers with slashes.  The numbers can be
  read back from the end, the ids cannot when they hold slashes themselves
  (`references_identify_iff`).
-/

import DurableEngine.Lib.Path
import DurableEngine.Services.Due

namespace DurableEngine.Services

open Lib State Reconciler Deployment

-- ============================================================================
-- The property
-- ============================================================================

def dueKey (due : DueAttempt) : AttemptKey :=
  ⟨⟨due.workflowID, due.nodeID, due.iteration⟩, due.attemptNumber⟩

/-- The references of `EXPIRED_ATTEMPT` obligations of an attempt: a reconciler's, and that of the
    timeout of a non-cooperating effect. -/
inductive ExpiredReference (k : AttemptKey) : String → Prop where
  | listed (due : DueAttempt) (h : dueKey due = k) : ExpiredReference k (dueReference due)
  | timedOut (input : TimeoutInput) (h : input.key = k) : ExpiredReference k (attemptReference input.key)

/-- The obligations of an attempt are kept apart from those of another. -/
structure AttemptsApart (k k' : AttemptKey) : Prop where
  references : ∀ r, ExpiredReference k r → ¬ ExpiredReference k' r
  upserts : ∀ due detail db db' item, dueKey due = k →
    upsertReconciliationItem (attemptItem due detail) db = .ok (item, db') →
    ∀ r, ExpiredReference k' r →
      db'.reconciliation.get ⟨.expiredAttempt, r⟩ = db.reconciliation.get ⟨.expiredAttempt, r⟩
  timeouts : ∀ env amb input db db' result, input.key = k →
    timeoutAttempt env amb input db = .ok (result, db') →
    ∀ r, ExpiredReference k' r →
      db'.reconciliation.get ⟨.expiredAttempt, r⟩ = db.reconciliation.get ⟨.expiredAttempt, r⟩

/-- The obligation of a delivery is kept apart from that of another. -/
structure DeliveriesApart (m m' : InboxMessage) : Prop where
  references : deliveryReference m ≠ deliveryReference m'
  quarantines : ∀ env reason db db' r, quarantineMessage env m reason db = .ok (r, db') →
    db'.reconciliation.get ⟨.poisonRecord, deliveryReference m'⟩ =
      db.reconciliation.get ⟨.poisonRecord, deliveryReference m'⟩

/-- The numbers of a stored attempt. -/
def AdmittedAttempt (k : AttemptKey) : Prop := 0 ≤ k.node.iteration ∧ 0 < k.number

/-- The numbers of a delivery that is stored. -/
def AdmittedDelivery (m : InboxMessage) : Prop := 0 ≤ m.partition ∧ 0 ≤ m.offset

-- ============================================================================
-- The exceptions
-- ============================================================================

def attemptIDs (k : AttemptKey) : String × String := (k.node.workflowID, k.node.nodeID)

def deliveryIDs (m : InboxMessage) : String × String := (m.consumerID, m.topic)

/-- The ids `p` start with the word the other format starts with, and go on as `q`. -/
def Prefixed (p q : String × String) : Prop :=
  p = ("attempt", joinPath q.1 q.2) ∨ ∃ t, p.1 = joinPath "attempt" t ∧ SamePath (t, p.2) q

/-- The attempts have the same numbers, and ids that one path or the two formats confuse. -/
def ConfusedAttempts (k k' : AttemptKey) : Prop :=
  k.node.iteration = k'.node.iteration ∧ k.number = k'.number ∧
    (SamePath (attemptIDs k) (attemptIDs k') ∨ Prefixed (attemptIDs k) (attemptIDs k') ∨
      Prefixed (attemptIDs k') (attemptIDs k))

/-- The deliveries have the same numbers, and ids with one path. -/
def ConfusedDeliveries (m m' : InboxMessage) : Prop :=
  m.partition = m'.partition ∧ m.offset = m'.offset ∧ SamePath (deliveryIDs m) (deliveryIDs m')

-- ============================================================================
-- References as paths
-- ============================================================================

/-- The path of the ids, followed by the numbers. -/
def numbered (ids : String) (i n : Int) : String := joinPath (joinPath ids (toString i)) (toString n)

theorem numbered_inj_iff {a b : String} {i j n m : Int} (hi : 0 ≤ i) (hj : 0 ≤ j) (hn : 0 ≤ n) (hm : 0 ≤ m) :
    numbered a i n = numbered b j m ↔ a = b ∧ i = j ∧ n = m := by
  constructor
  · intro h
    obtain ⟨hrest, hnumber⟩ := joinPath_count_inj hn hm h
    obtain ⟨hids, hiteration⟩ := joinPath_count_inj hi hj hrest
    exact ⟨hids, hiteration, hnumber⟩
  · rintro ⟨rfl, rfl, rfl⟩
    rfl

theorem dueReference_eq (due : DueAttempt) : dueReference due =
    numbered (joinPath (attemptIDs (dueKey due)).1 (attemptIDs (dueKey due)).2) (dueKey due).node.iteration
      (dueKey due).number := rfl

theorem attemptReference_eq (k : AttemptKey) : attemptReference k =
    numbered (joinPath "attempt" (joinPath (attemptIDs k).1 (attemptIDs k).2)) k.node.iteration
      k.number := by
  simp only [attemptReference, numbered, joinPath, attemptIDs, String.append_assoc]
  rfl

theorem deliveryReference_eq (m : InboxMessage) : deliveryReference m =
    numbered (joinPath "transport" (joinPath (deliveryIDs m).1 (deliveryIDs m).2)) m.partition
      m.offset := by
  simp only [deliveryReference, numbered, joinPath, deliveryIDs, String.append_assoc]
  rfl

theorem joinPath_inj_left {a x y : String} (h : joinPath a x = joinPath a y) : x = y := by
  have hchars := congrArg String.toList h
  rw [toList_joinPath, toList_joinPath] at hchars
  exact String.toList_inj.mp (List.cons.inj (List.append_cancel_left hchars)).2

/-- The ids of one attempt under a reconciler's format against those of another under the store's. -/
theorem prefixed_iff {p q : String × String} :
    joinPath p.1 p.2 = joinPath "attempt" (joinPath q.1 q.2) ↔ Prefixed p q := by
  rw [show joinPath "attempt" (joinPath q.1 q.2) =
    joinPath ("attempt", joinPath q.1 q.2).1 ("attempt", joinPath q.1 q.2).2 from rfl, joinPath_eq_iff]
  constructor
  · rintro (h | ⟨t, h, -⟩ | ⟨t, h, hrest⟩)
    · exact .inl h
    · have hslash : '/' ∈ "attempt".toList := by
        rw [show "attempt" = joinPath p.1 t from h]
        exact slash_mem_joinPath _ _
      exact absurd hslash (by decide)
    · exact .inr ⟨t, h, joinPath_eq_iff.mp hrest.symm⟩
  · rintro (h | ⟨t, h, hrest⟩)
    · exact .inl h
    · exact .inr (.inr ⟨t, h, (joinPath_eq_iff.mpr hrest).symm⟩)

theorem dueReference_of_key {due : DueAttempt} {k : AttemptKey} (h : dueKey due = k) :
    dueReference due = numbered (joinPath (attemptIDs k).1 (attemptIDs k).2) k.node.iteration k.number := by
  rw [dueReference_eq, h]

/-- An attempt has two references. -/
theorem expiredReference_iff {k : AttemptKey} {r : String} : ExpiredReference k r ↔
    r = numbered (joinPath (attemptIDs k).1 (attemptIDs k).2) k.node.iteration k.number ∨
      r = numbered (joinPath "attempt" (joinPath (attemptIDs k).1 (attemptIDs k).2)) k.node.iteration
        k.number := by
  constructor
  · rintro (⟨due, h⟩ | ⟨input, rfl⟩)
    · exact .inl (dueReference_of_key h)
    · exact .inr (attemptReference_eq input.key)
  · rintro (rfl | rfl)
    · have hlisted := ExpiredReference.listed (k := k)
        ⟨k.node.workflowID, k.node.nodeID, k.node.iteration, k.number, 0, .runnable, 0, 0⟩ rfl
      rwa [dueReference_of_key (k := k) rfl] at hlisted
    · have htimed := ExpiredReference.timedOut (k := k)
        ⟨⟨0, "", 0⟩, k.node.workflowID, k.node.nodeID, k.node.iteration, k.number, 0, "", 0⟩ rfl
      rwa [attemptReference_eq] at htimed

-- ============================================================================
-- Upserts
-- ============================================================================

/-- An upsert writes the row of its reference and no other. -/
theorem upsertReconciliationItem_other {input : UpsertInput} {db db' : DB} {item : ReconciliationItem}
    (h : upsertReconciliationItem input db = .ok (item, db')) {k : ReconciliationKey}
    (hne : k ≠ input.key) : db'.reconciliation.get k = db.reconciliation.get k := by
  obtain ⟨row, detail, -, rfl⟩ | ⟨detail, items, -, hins, rfl⟩ := upsertReconciliationItem_eq_ok h
  · rw [Table.get_modify_ne _ _ _ hne]
  · exact Table.get_insert_ne hins hne

theorem openExpiredAttempt_other {db : DB} {w : Workflow} {input : TimeoutInput} {detail : Jsonb}
    {k : ReconciliationKey} (hne : k ≠ ⟨.expiredAttempt, attemptReference input.key⟩) :
    (openExpiredAttempt db w input detail).reconciliation.get k = db.reconciliation.get k := by
  unfold openExpiredAttempt
  dsimp only
  split
  · rename_i hins
    exact Table.get_insert_ne hins hne
  · rw [Table.get_modify_ne _ _ _ hne]

/-- A timeout writes the row of its reference at most. -/
theorem timeoutAttempt_other {env : Env} {amb : Ambient} {input : TimeoutInput} {db db' : DB}
    {result : TimeoutResult} (h : timeoutAttempt env amb input db = .ok (result, db'))
    {k : ReconciliationKey} (hne : k ≠ ⟨.expiredAttempt, attemptReference input.key⟩) :
    db'.reconciliation.get k = db.reconciliation.get k := by
  obtain ⟨hstep, -⟩ := timeoutAttempt_step h
  cases hstep with
  | redispatched _ _ _ h => rw [h.obligations]
  | replaced _ _ _ _ h => rw [h.obligations]
  | expired _ _ h =>
      obtain ⟨detail, hitems⟩ := h.obligations
      rw [hitems]
      exact openExpiredAttempt_other hne

theorem openPoisonRecord_other {db : DB} {reference : String} {workflowID : Option String}
    {partitionID : Option Int} {detail : Jsonb} {k : ReconciliationKey}
    (hne : k ≠ ⟨.poisonRecord, reference⟩) :
    (db.openPoisonRecord reference workflowID partitionID detail).reconciliation.get k =
      db.reconciliation.get k := by
  unfold DB.openPoisonRecord
  dsimp only
  split
  · rename_i hins
    exact Table.get_insert_ne hins hne
  · rw [Table.get_modify_ne _ _ _ hne]

/-- A quarantine writes the row of its delivery and no other. -/
theorem quarantineMessage_other {env : Env} {m : InboxMessage} {reason : String} {db db' : DB}
    {r : InboxResult} (h : quarantineMessage env m reason db = .ok (r, db')) {k : ReconciliationKey}
    (hne : k ≠ ⟨.poisonRecord, deliveryReference m⟩) :
    db'.reconciliation.get k = db.reconciliation.get k := by
  simp only [quarantineMessage, bind_eq_ok, rejectIf_eq_ok, getOr_eq_ok, exists_const, pure_eq_ok] at h
  obtain ⟨-, -, detail, -, ⟨reply, advanced⟩, hadvance, heq⟩ := h
  generalize hopened : DB.openPoisonRecord _ _ _ _ _ = opened at hadvance
  cases heq
  rw [(advanceConsumerOffset_eq hadvance).1]
  show opened.reconciliation.get k = _
  rw [← hopened, openPoisonRecord_other hne]

-- ============================================================================
-- Which obligations are kept apart
-- ============================================================================

/-- The references of two attempts differ unless the attempts are confused. -/
theorem references_differ_iff {k k' : AttemptKey} (hk : AdmittedAttempt k) (hk' : AdmittedAttempt k') :
    (∀ r, ExpiredReference k r → ¬ ExpiredReference k' r) ↔ ¬ ConfusedAttempts k k' := by
  have hnumbered : ∀ {a b : String},
      numbered a k.node.iteration k.number = numbered b k'.node.iteration k'.number ↔
        a = b ∧ k.node.iteration = k'.node.iteration ∧ k.number = k'.number :=
    numbered_inj_iff hk.1 hk'.1 hk.2.le hk'.2.le
  have hattempt : ∀ p q : String × String,
      joinPath "attempt" (joinPath p.1 p.2) = joinPath "attempt" (joinPath q.1 q.2) ↔ SamePath p q := by
    intro p q
    rw [← joinPath_eq_iff]
    exact ⟨joinPath_inj_left, fun h => by rw [h]⟩
  constructor
  · rintro happart ⟨hiteration, hnumber, hids⟩
    rcases hids with hsame | hprefixed | hprefixed
    · exact happart _ (expiredReference_iff.mpr (.inl rfl)) (expiredReference_iff.mpr
        (.inl (hnumbered.mpr ⟨joinPath_eq_iff.mpr hsame, hiteration, hnumber⟩)))
    · exact happart _ (expiredReference_iff.mpr (.inl rfl)) (expiredReference_iff.mpr
        (.inr (hnumbered.mpr ⟨prefixed_iff.mpr hprefixed, hiteration, hnumber⟩)))
    · exact happart _ (expiredReference_iff.mpr (.inr rfl)) (expiredReference_iff.mpr
        (.inl (hnumbered.mpr ⟨(prefixed_iff.mpr hprefixed).symm, hiteration, hnumber⟩)))
  · intro hdistinct r hr hr'
    rw [expiredReference_iff] at hr hr'
    rcases hr with rfl | rfl <;> rcases hr' with h | h <;> obtain ⟨hids, hnumbers⟩ := hnumbered.mp h
    · exact hdistinct ⟨hnumbers.1, hnumbers.2, .inl (joinPath_eq_iff.mp hids)⟩
    · exact hdistinct ⟨hnumbers.1, hnumbers.2, .inr (.inl (prefixed_iff.mp hids))⟩
    · exact hdistinct ⟨hnumbers.1, hnumbers.2, .inr (.inr (prefixed_iff.mp hids.symm))⟩
    · exact hdistinct ⟨hnumbers.1, hnumbers.2, .inl ((hattempt _ _).mp hids)⟩

/-- Obligations with other references have other rows. -/
theorem attemptsApart_iff {k k' : AttemptKey} :
    AttemptsApart k k' ↔ ∀ r, ExpiredReference k r → ¬ ExpiredReference k' r := by
  refine ⟨fun h => h.references, fun h => ⟨h, ?_, ?_⟩⟩
  · intro due detail db db' item hdue hupsert r hr
    refine upsertReconciliationItem_other hupsert (fun heq => ?_)
    obtain ⟨-, rfl⟩ := ReconciliationKey.mk.inj heq
    exact h _ (.listed due hdue) hr
  · intro env amb input db db' result hinput htimeout r hr
    refine timeoutAttempt_other htimeout (fun heq => ?_)
    obtain ⟨-, rfl⟩ := ReconciliationKey.mk.inj heq
    exact h _ (.timedOut input hinput) hr

theorem deliveryReference_eq_iff {m m' : InboxMessage} (hm : AdmittedDelivery m)
    (hm' : AdmittedDelivery m') :
    deliveryReference m = deliveryReference m' ↔ ConfusedDeliveries m m' := by
  rw [deliveryReference_eq, deliveryReference_eq, numbered_inj_iff hm.1 hm'.1 hm.2 hm'.2,
    ConfusedDeliveries, ← joinPath_eq_iff]
  constructor
  · rintro ⟨hids, hpartition, hoffset⟩
    exact ⟨hpartition, hoffset, joinPath_inj_left hids⟩
  · rintro ⟨hpartition, hoffset, hids⟩
    exact ⟨by rw [hids], hpartition, hoffset⟩

theorem deliveriesApart_iff {m m' : InboxMessage} :
    DeliveriesApart m m' ↔ deliveryReference m ≠ deliveryReference m' := by
  refine ⟨fun h => h.references, fun h => ⟨h, ?_⟩⟩
  intro env reason db db' r hquarantine
  refine quarantineMessage_other hquarantine (fun heq => h ?_)
  exact (ReconciliationKey.mk.inj heq).2.symm

/-- Attempts whose ids hold no slash are confused with no other. -/
theorem not_confused_of_plain {k k' : AttemptKey} (hne : k ≠ k') (hk : '/' ∉ k.node.nodeID.toList)
    (hk' : '/' ∉ k'.node.nodeID.toList) (hw : '/' ∉ k.node.workflowID.toList)
    (hw' : '/' ∉ k'.node.workflowID.toList) : ¬ ConfusedAttempts k k' := by
  have hprefixed : ∀ {p q : String × String}, Prefixed p q → '/' ∉ p.1.toList → '/' ∉ p.2.toList →
      False := by
    rintro p q (rfl | ⟨t, h, -⟩) hp₁ hp₂
    · exact hp₂ (slash_mem_joinPath _ _)
    · rw [h] at hp₁
      exact hp₁ (slash_mem_joinPath _ _)
  rintro ⟨hiteration, hnumber, hsame | hids | hids⟩
  · obtain ⟨hworkflow, hnode⟩ := Prod.mk.inj (hsame.eq_of_plain hk hk')
    obtain ⟨⟨w, n, i⟩, a⟩ := k
    obtain ⟨⟨w', n', i'⟩, a'⟩ := k'
    cases hworkflow
    cases hnode
    cases hiteration
    cases hnumber
    exact hne rfl
  · exact hprefixed hids hw hk
  · exact hprefixed hids hw' hk'

/-- Two distinct attempts have references of their own, and their obligations rows of their own,
    exactly when their ids are not confused; and so do two distinct deliveries. -/
theorem references_identify_iff (k k' : AttemptKey) (m m' : InboxMessage) :
    (AdmittedAttempt k → AdmittedAttempt k' → k ≠ k' → (AttemptsApart k k' ↔ ¬ ConfusedAttempts k k')) ∧
    (AdmittedDelivery m → AdmittedDelivery m' → (m.stream, m.offset) ≠ (m'.stream, m'.offset) →
      (DeliveriesApart m m' ↔ ¬ ConfusedDeliveries m m')) := by
  constructor
  · intro hk hk' _
    rw [attemptsApart_iff, references_differ_iff hk hk']
  · intro hm hm' _
    rw [deliveriesApart_iff, ne_eq, deliveryReference_eq_iff hm hm']

theorem references_identify_plain :
    AttemptsApart ⟨⟨"w", "a", 0⟩, 1⟩ ⟨⟨"w", "b", 0⟩, 1⟩ ∧
    DeliveriesApart ⟨"scheduler", "", "events", 0, 4, "", 1, .empty⟩
      ⟨"scheduler", "", "events", 0, 5, "", 1, .empty⟩ := by
  have hidentify := references_identify_iff ⟨⟨"w", "a", 0⟩, 1⟩ ⟨⟨"w", "b", 0⟩, 1⟩
    ⟨"scheduler", "", "events", 0, 4, "", 1, .empty⟩ ⟨"scheduler", "", "events", 0, 5, "", 1, .empty⟩
  constructor
  · exact (hidentify.1 ⟨by decide, by decide⟩ ⟨by decide, by decide⟩ (by decide)).mpr
      (not_confused_of_plain (by decide) (by decide) (by decide) (by decide) (by decide))
  · exact (hidentify.2 ⟨by decide, by decide⟩ ⟨by decide, by decide⟩ (by decide)).mpr
      (fun h => by cases h.2.1)

/-- The definition of a workflow with one activity, of the given name. -/
def namedDefinition (definitionID nodeID : String) : DefinitionInput := { soloDefinition with
  definitionID := definitionID
  graph := .json (.obj [("entry", .str nodeID), ("nodes", .arr [.str nodeID])])
  activityVersions := .json (.obj [(nodeID, .str "1")])
  effectClasses := .json (.obj [(nodeID, .str "PURE_ACTIVITY")]) }

def namedWorkflow (definitionID workflowID nodeID : String) : CreateWorkflowInput := { soloWorkflow with
  workflowID := workflowID
  submissionKey := workflowID
  definitionID := definitionID
  initialNodeID := nodeID }

/-- The activity of the workflow is dispatched and claimed. -/
def claimedCalls (definitionID workflowID nodeID : String) : List DeploymentMove := [
  .world (.call (.createDefinition (namedDefinition definitionID nodeID))),
  .world (.call (.createWorkflow (namedWorkflow definitionID workflowID nodeID))),
  .world (.call (.applyOwnerTransition ⟨soloLease, workflowID, 1, .waitingActivity, "scheduler",
    "ACTIVITY_SCHEDULED", nodeID, 0, some .waitingActivity, none⟩)),
  .world (.call (.createAttempt ⟨soloLease, workflowID, nodeID, 0, 2, .pure, "", "", 0, "scheduler"⟩)),
  .world (.call (.claimAttempt ⟨1, workflowID, nodeID, 0, "worker", workflowID, 1⟩))]

/-- Two attempts with one path are claimed, and a pass times both out. -/
def mergedScript : List DeploymentMove :=
  ([.world (.call (.acquireLease 0 (uuidOf 8 0) (1000 * minute)))] : List DeploymentMove) ++
    claimedCalls "first" "w/q" "a" ++ claimedCalls "second" "w" "q/a" ++
    ([.world (.tick 2), .begin ⟨.plain, 10, 1000, ⟨0, 0, 0, 0⟩⟩ soloLease "reconciler"] :
      List DeploymentMove) ++
    List.replicate 9 (DeploymentMove.next 0)

/-- The activity `a` of the workflow `w/q` and the activity `q/a` of the workflow `w`: one reference
    is that of both, and a pass that times both attempts out leaves one obligation. -/
theorem references_not_identifying :
    ¬ (∀ k k', AdmittedAttempt k → AdmittedAttempt k' → k ≠ k' → AttemptsApart k k') ∧
    ∃ s, Deployment.Reachable .plain s ∧
      (s.db.attempts.get ⟨⟨"w/q", "a", 0⟩, 1⟩).map (·.state) = some .timedOut ∧
      (s.db.attempts.get ⟨⟨"w", "q/a", 0⟩, 1⟩).map (·.state) = some .timedOut ∧
      s.db.reconciliation.rows.map (fun item => (item.workflowID, item.nodeID)) =
        [(some "w/q", some "a")] := by
  constructor
  · intro h
    exact (h ⟨⟨"w/q", "a", 0⟩, 1⟩ ⟨⟨"w", "q/a", 0⟩, 1⟩ ⟨by decide, by decide⟩ ⟨by decide, by decide⟩
      (by decide)).references "w/q/a/0/1"
      (.listed ⟨"w/q", "a", 0, 1, 0, .runnable, 0, 0⟩ rfl)
      (.listed ⟨"w", "q/a", 0, 1, 0, .runnable, 0, 0⟩ rfl)
  · have hrun : (moves? .plain 0 mergedScript (start 0)).any (fun r =>
        decide ((r.2.db.attempts.get ⟨⟨"w/q", "a", 0⟩, 1⟩).map (·.state) = some .timedOut) &&
        decide ((r.2.db.attempts.get ⟨⟨"w", "q/a", 0⟩, 1⟩).map (·.state) = some .timedOut) &&
        decide (r.2.db.reconciliation.rows.map (fun item => (item.workflowID, item.nodeID)) =
          [(some "w/q", some "a")])) = true := by
      decide +kernel
    obtain ⟨⟨calls, s⟩, hmoves, hshown⟩ := (Option.any_eq_true _ _).mp hrun
    simp only [Bool.and_eq_true, decide_eq_true_eq] at hshown
    exact ⟨s, ⟨0, calls, run_of_moves? hmoves⟩, hshown.1.1, hshown.1.2, hshown.2⟩

end DurableEngine.Services
