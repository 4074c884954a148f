/-
  DurableEngine.Invariants.Attempts

  Every stored attempt is well formed, so the attempts of an exported trace
  pass the checker's rules.

  The rules for one attempt follow from its shape.  Those for the attempts of
  a node follow from its generation: the checker groups by a text that
  determines the node, because no stored name holds the separator, and the
  numbers of a group are those from 1 to the last.
-/

import DurableEngine.Invariants.Checker
import DurableEngine.Lib.Numbered
import DurableEngine.Lib.Text
import DurableEngine.State.Generations
import Mathlib

namespace DurableEngine.Invariants

open Lib State

-- ============================================================================
-- Well-formed attempts
-- ============================================================================

/-- What the columns of an attempt row say together. -/
structure AttemptWellFormed (db : DB) (a : Attempt) : Prop where
  current : a.isCurrent = true → (a.state = .dispatchable ∨ a.state = .claimed) ∧
    ∃ n, db.nodes.get a.key.node = some n ∧ n.currentAttempt = some a.key.number
  held : a.state = .claimed ∨ a.state = .timedOut ∨ a.state = .succeeded ∨
    a.state = .failedRetryable ∨ a.state = .failedFinal → a.held
  result : a.result.isSome = true ↔
    a.state = .succeeded ∨ a.state = .failedRetryable ∨ a.state = .failedFinal
  unknown : a.outcomeDisposition = .outcomeUnknown ↔ a.held ∧ a.effectClass ≠ .pure ∧
    (a.state = .timedOut ∧ a.effectClass = .nonCooperating ∨ a.state = .canceled)
  deadline : a.heartbeatDeadline.isSome = true

theorem isTerminal_iff {s : AttemptState} :
    s.isTerminal = true ↔ s = .succeeded ∨ s = .failedRetryable ∨ s = .failedFinal := by
  cases s <;> simp [AttemptState.isTerminal]

theorem wellFormed_of_shape {db : DB} {a : Attempt} {N : Int} (h : AttemptShape a)
    (hget : db.attempts.get a.key = some a) (hgen : Generation db a.key.node N) :
    AttemptWellFormed db a where
  current hcur := ⟨h.current.mp hcur, pointer_eq_some.mp (hgen.current _ a hget hcur)⟩
  held hs := h.held (by rw [isTerminal_iff]; exact hs)
  result := by rw [h.result, isTerminal_iff]
  unknown := by
    rw [h.unknown, Attempt.abandoned]
    constructor
    · rintro (⟨hs, hclass⟩ | ⟨hs, hheld, hclass⟩)
      · exact ⟨h.held (.inr (.inl hs)), by rw [hclass]; decide, .inl ⟨hs, hclass⟩⟩
      · exact ⟨hheld, hclass, .inr hs⟩
    · rintro ⟨hheld, hclass, hs | hs⟩
      · exact .inl hs
      · exact .inr ⟨hs, hheld, hclass⟩
  deadline := h.deadline

-- ============================================================================
-- The exported attempts
-- ============================================================================

theorem mem_loadAttempts {env : Env} {ids : List String} {db : DB} {r : AttemptRecord} :
    r ∈ loadAttempts env ids db ↔
      ∃ a, db.attempts.get a.key = some a ∧ a.key.node.workflowID ∈ ids ∧ attemptRecord a = r := by
  simp [loadAttempts, List.mem_insertionSort, Table.mem_select, Table.mem_rows_iff, and_assoc]

/-- Two records of a trace differ in their node or their number. -/
def AttemptRecord.differ (r s : AttemptRecord) : Prop :=
  ¬ (r.workflowID = s.workflowID ∧ r.nodeID = s.nodeID ∧ r.iteration = s.iteration ∧
    r.attemptNumber = s.attemptNumber)

theorem pairwise_loadAttempts (env : Env) (ids : List String) (db : DB) :
    (loadAttempts env ids db).Pairwise AttemptRecord.differ := by
  have hkeys : (db.attempts.select (fun a => decide (a.key.node.workflowID ∈ ids))).Pairwise
      (fun a b => a.key ≠ b.key) :=
    (List.pairwise_map.mp db.attempts.nodup).sublist List.filter_sublist
  have hsorted := ((List.perm_insertionSort (attemptBefore env) _).pairwise_iff
    (fun h => Ne.symm h)).mpr hkeys
  refine List.pairwise_map.mpr (hsorted.imp (fun {a b} hne hsame => hne ?_))
  obtain ⟨⟨⟨w, n, i⟩, m⟩, _⟩ := a
  obtain ⟨⟨⟨w', n', i'⟩, m'⟩, _⟩ := b
  simpa [attemptRecord, and_assoc] using hsame

-- ============================================================================
-- Rules for one attempt
-- ============================================================================

theorem complete_attemptRecord {env : Env} {db : DB} {a : Attempt} (h : Reachable env db)
    (ha : db.attempts.get a.key = some a) : (attemptRecord a).complete = true := by
  obtain ⟨n, hn⟩ := h.linked.attempt a.key a ha
  obtain ⟨w, hw⟩ := h.linked.node a.key.node n hn
  obtain ⟨N, hgen⟩ := h.generation a.key.node
  have hnumber := ((hgen.numbers a.key.number).mp ⟨a, ha⟩).1
  have hworkflow := (h.provided.workflow _ w hw).1
  obtain ⟨hnode, hiter⟩ := h.provided.node _ n hn
  have hiteration : ¬ a.key.node.iteration < 0 := by omega
  have hpositive : ¬ a.key.number ≤ 0 := by omega
  simp [AttemptRecord.complete, attemptRecord, hworkflow, hnode, hiteration, hpositive]

theorem violations_attemptRecord {env : Env} {db : DB} {a : Attempt} (h : Reachable env db)
    (ha : db.attempts.get a.key = some a) : (attemptRecord a).violations = [] := by
  have hshape := h.attemptShape ha
  have hstate : (attemptRecord a).state = a.state.text := rfl
  have hcurrent : ¬ ((attemptRecord a).isCurrent && isTerminalAttempt (attemptRecord a).state)
      = true := by
    rw [Bool.and_eq_true, hstate]
    rintro ⟨hcur, hterm⟩
    rcases hshape.current.mp hcur with hs | hs <;> rw [hs] at hterm <;> cases hterm
  have hclaimed : ¬ ((attemptRecord a).state = "CLAIMED" ∧ ((attemptRecord a).claimToken = "" ∨
      (attemptRecord a).workerID = "" ∨ (attemptRecord a).workerRequestID = "")) := by
    rw [hstate]
    rintro ⟨hs, hmissing⟩
    have hclaim : a.state = .claimed := by
      cases hc : a.state <;> rw [hc] at hs <;> first | rfl | exact absurd hs (by decide)
    obtain ⟨token, worker, request, htoken, hworker, hrequest, hnamed⟩ := hshape.held (.inl hclaim)
    simp [attemptRecord, htoken, hworker, hrequest, hnamed] at hmissing
  have hresult : ¬ ((attemptRecord a).resultRecorded = true ∧
      (attemptRecord a).state ∈ ["TIMED_OUT", "REPLACED", "CANCELED", "OUTCOME_UNKNOWN"]) := by
    rw [hstate]
    rintro ⟨hresult, hs⟩
    have hterm : a.state.isTerminal = true := hshape.result.symm.trans hresult
    rcases isTerminal_iff.mp hterm with hc | hc | hc <;> rw [hc] at hs <;>
      exact absurd hs (by decide)
  rw [AttemptRecord.violations, if_pos (complete_attemptRecord h ha), if_neg hcurrent,
    if_neg hclaimed, if_neg hresult]
  rfl

-- ============================================================================
-- Rules for the attempts of a node
-- ============================================================================

/-- No name that was written into a payload holds the separator. -/
theorem nul_not_mem_of_quotable {env : Env} {s : String} (h : quotable env s = true) :
    '\x00' ∉ s.toList := by
  intro hmem
  have hvalid := List.all_eq_true.mp h _ hmem
  simp [quoteValid] at hvalid

/-- The names of a node that a payload can hold. -/
structure Separable (k : NodeKey) : Prop where
  workflowID : '\x00' ∉ k.workflowID.toList
  nodeID : '\x00' ∉ k.nodeID.toList
  iteration : 0 ≤ k.iteration

theorem separable {env : Env} {db : DB} {k : AttemptKey} {a : Attempt} (h : Reachable env db)
    (ha : db.attempts.get k = some a) : Separable k.node := by
  obtain ⟨n, hn⟩ := h.linked.attempt k a ha
  obtain ⟨w, hw⟩ := h.linked.node k.node n hn
  exact ⟨nul_not_mem_of_quotable (h.provided.workflow _ w hw).2,
    nul_not_mem_of_quotable (h.provided.attempt _ a ha), (h.provided.node _ n hn).2⟩

/-- `"%s\x00%s\x00%d"` determines the node. -/
theorem Separable.inj {k k' : NodeKey} (h : Separable k) (h' : Separable k')
    (hkey : k.workflowID ++ "\x00" ++ k.nodeID ++ "\x00" ++ toString k.iteration =
      k'.workflowID ++ "\x00" ++ k'.nodeID ++ "\x00" ++ toString k'.iteration) : k = k' := by
  simp only [String.append_assoc] at hkey
  rw [← String.append_assoc, ← @String.append_assoc k'.workflowID] at hkey
  obtain ⟨hworkflow, hrest⟩ := separated_inj h.workflowID h'.workflowID hkey
  rw [← String.append_assoc, ← @String.append_assoc k'.nodeID] at hrest
  obtain ⟨hnode, hiter⟩ := separated_inj h.nodeID h'.nodeID hrest
  have hiteration := toString_inj_of_nonneg h.iteration h'.iteration hiter
  exact NodeKey.mk.injEq .. |>.mpr ⟨hworkflow, hnode, hiteration⟩

/-- The scan passes records that are numbered without a gap. -/
theorem scanGeneration_eq {key : String} {records : List AttemptRecord} {want : Int} {current : Nat}
    (h : Numbered AttemptRecord.attemptNumber want records) :
    scanGeneration key want current records = ([], current + records.countP (·.isCurrent)) := by
  induction h generalizing current with
  | nil want => rfl
  | @cons want r records head tail ih =>
      rw [scanGeneration, if_neg (not_not.mpr head), ih, List.countP_cons]
      cases r.isCurrent <;> simp [Nat.add_assoc, Nat.add_comm]

/-- The attempts of a stored node pass the rules for a group. -/
theorem generationViolations_eq_nil {env : Env} {ids : List String} {db : DB} {a : Attempt}
    (h : Reachable env db) (ha : db.attempts.get a.key = some a)
    (hids : a.key.node.workflowID ∈ ids) :
    generationViolations (attemptRecord a).nodeKey (((loadAttempts env ids db).filter
      AttemptRecord.complete).filter (fun r => decide (r.nodeKey = (attemptRecord a).nodeKey))) = [] := by
  set group := ((loadAttempts env ids db).filter AttemptRecord.complete).filter
    (fun r => decide (r.nodeKey = (attemptRecord a).nodeKey)) with hgroup
  obtain ⟨N, hgen⟩ := h.generation a.key.node
  have hmem : ∀ r, r ∈ group ↔
      ∃ b, db.attempts.get b.key = some b ∧ b.key.node = a.key.node ∧ attemptRecord b = r := by
    intro r
    simp only [hgroup, List.mem_filter, mem_loadAttempts, decide_eq_true_eq]
    constructor
    · rintro ⟨⟨⟨b, hb, -, rfl⟩, -⟩, hkey⟩
      exact ⟨b, hb, (separable h hb).inj (separable h ha) hkey, rfl⟩
    · rintro ⟨b, hb, hnode, rfl⟩
      refine ⟨⟨⟨b, hb, by rw [hnode]; exact hids, rfl⟩, complete_attemptRecord h hb⟩, ?_⟩
      simp only [AttemptRecord.nodeKey, attemptRecord, hnode]
  have hnumber : ∀ r ∈ group, ∃ b, db.attempts.get ⟨a.key.node, r.attemptNumber⟩ = some b ∧
      attemptRecord b = r := by
    intro r hr
    obtain ⟨b, hb, hnode, rfl⟩ := (hmem r).mp hr
    exact ⟨b, by rw [← hnode]; exact hb, rfl⟩
  set sorted := group.insertionSort (fun a b => a.attemptNumber ≤ b.attemptNumber) with hsort
  have hnumbered : Numbered AttemptRecord.attemptNumber 1 sorted := by
    refine Numbered.insertionSort (N := N) ?_ (fun m => ?_)
    · refine ((pairwise_loadAttempts env ids db).sublist
        (List.filter_sublist.trans List.filter_sublist)).imp_of_mem (fun {r s} hr hs hne heq => ?_)
      obtain ⟨b, -, hb, rfl⟩ := (hmem r).mp hr
      obtain ⟨c, -, hc, rfl⟩ := (hmem s).mp hs
      exact hne ⟨by simp [attemptRecord, hb, hc], by simp [attemptRecord, hb, hc],
        by simp [attemptRecord, hb, hc], heq⟩
    · rw [← hgen.numbers m]
      constructor
      · rintro ⟨r, hr, rfl⟩
        obtain ⟨b, hb, -⟩ := hnumber r hr
        exact ⟨b, hb⟩
      · rintro ⟨b, hb⟩
        have hkey := Table.key_of_get hb
        refine ⟨attemptRecord b, (hmem _).mpr ⟨b, by rw [hkey]; exact hb, ?_, rfl⟩, ?_⟩
        · rw [hkey]
        · rw [attemptRecord, hkey]
  have hscan : scanGeneration (attemptRecord a).nodeKey 1 0 sorted =
      ([], 0 + sorted.countP (·.isCurrent)) := scanGeneration_eq hnumbered
  have hcount : sorted.countP (·.isCurrent) ≤ 1 := by
    refine hnumbered.countP_le_one (m := N) (fun r hr hcur => ?_)
    obtain ⟨b, hb, rfl⟩ := hnumber r ((List.mem_insertionSort _).mp hr)
    exact (hgen.pointer _ (hgen.current _ b hb hcur)).1
  rw [generationViolations, ← hsort, hscan]
  simp only [List.nil_append, ite_eq_right_iff]
  intro hmany
  omega

theorem checkAttempts_loadAttempts {env : Env} {db : DB} (h : Reachable env db)
    (ids : List String) : checkAttempts (loadAttempts env ids db) = [] := by
  rw [checkAttempts, List.append_eq_nil_iff]
  constructor
  · refine List.flatMap_eq_nil_iff.mpr (fun r hr => ?_)
    obtain ⟨a, ha, -, rfl⟩ := mem_loadAttempts.mp hr
    exact violations_attemptRecord h ha
  · refine List.flatMap_eq_nil_iff.mpr (fun group hgroup => ?_)
    obtain ⟨k, hk, rfl⟩ := List.mem_map.mp hgroup
    obtain ⟨r, hr, rfl⟩ := List.mem_map.mp (List.mem_dedup.mp hk)
    obtain ⟨a, ha, hids, rfl⟩ := mem_loadAttempts.mp (List.mem_filter.mp hr).1
    exact generationViolations_eq_nil h ha hids

/-- In every reachable state each attempt is well formed, and the attempts of an exported trace
    add nothing to the checker's findings. -/
theorem attempts_wellFormed {env : Env} {db : DB} (h : Reachable env db) :
    (∀ a, db.attempts.get a.key = some a → AttemptWellFormed db a) ∧
    ∀ history ids, checkOwnershipAndAttempts history (loadAttempts env ids db) =
      checkOwnership history := by
  refine ⟨fun a ha => ?_, fun history ids => ?_⟩
  · obtain ⟨N, hgen⟩ := h.generation a.key.node
    exact wellFormed_of_shape (h.attemptShape ha) ha hgen
  · rw [checkOwnershipAndAttempts, checkAttempts_loadAttempts h ids, List.append_nil]

/-- A claimed attempt timed out and was replaced; the trace holds both. -/
theorem attempts_wellFormed_replaced :
    ∃ db, Reachable .plain db ∧ (loadAttempts .plain ["w"] db).length = 2 ∧
      (∀ a, db.attempts.get a.key = some a → AttemptWellFormed db a) ∧
      ∀ history, checkOwnershipAndAttempts history (loadAttempts .plain ["w"] db) =
        checkOwnership history := by
  have hrun : (runScript? .plain 0 (soloScript.take 5 ++ ([
      .call (.claimAttempt ⟨1, "w", "a", 0, "worker", "request", 10⟩), .tick 20,
      .call (.timeoutAttempt ⟨soloLease, "w", "a", 0, 1, 3, "scheduler", 0⟩)] : List Action)) (DB.init 0)).any
      (fun db => (loadAttempts .plain ["w"] db).length = 2) = true := by decide +kernel
  obtain ⟨db, hdb, hlength⟩ := (Option.any_eq_true _ _).mp hrun
  have hreach : Reachable .plain db := reachable_of_runScript? hdb
  obtain ⟨hwell, hcheck⟩ := attempts_wellFormed hreach
  exact ⟨db, hreach, by simpa using hlength, hwell, fun history => hcheck history ["w"]⟩

end DurableEngine.Invariants
