/-
  DurableEngine.Invariants.Exports

  What the checker says of a snapshot of a reachable state: `Load` hands out
  every workflow it is asked for with its whole history, and of all rules for
  histories, owners, attempts, results and submissions only the table of
  transitions can be broken, by the rows that leave it.
-/

import DurableEngine.Invariants.Histories
import DurableEngine.Invariants.Transitions
import DurableEngine.State.Idempotency
import DurableEngine.State.Signatures

namespace DurableEngine.Invariants

open Lib State

-- ============================================================================
-- Sorted selections
-- ============================================================================

/-- Sorting keeps the order of rows that are in order already. -/
theorem filter_insertionSort {α : Type} {r : α → α → Prop} [DecidableRel r] {p : α → Bool} {l : List α}
    (h : (l.filter p).Pairwise r) : (l.insertionSort r).filter p = l.filter p := by
  have hsub := (List.sublist_insertionSort h List.filter_sublist).filter p
  simp only [List.filter_filter, Bool.and_self] at hsub
  exact (hsub.eq_of_length (((List.perm_insertionSort r l).filter p).length_eq.symm)).symm

theorem mem_grouped {ρ : Type} {key : ρ → String} {records : List ρ} {group : String × List ρ}
    (h : group ∈ grouped key records) :
    (∃ r ∈ records, key r = group.1) ∧ group.2 = records.filter (fun r => decide (key r = group.1)) := by
  obtain ⟨k, hk, rfl⟩ := List.mem_map.mp h
  obtain ⟨r, hr, hkey⟩ := List.mem_map.mp (List.mem_dedup.mp hk)
  exact ⟨⟨r, hr, hkey⟩, rfl⟩

theorem grouped_of_mem {ρ : Type} {key : ρ → String} {records : List ρ} {r : ρ} (h : r ∈ records) :
    (key r, records.filter (fun s => decide (key s = key r))) ∈ grouped key records :=
  List.mem_map.mpr ⟨key r, List.mem_dedup.mpr (List.mem_map_of_mem h), rfl⟩

/-- Rows whose numbers are `n`, `n + 1` and so on, as a list of numbers. -/
theorem numbered_of_map {ρ : Type} {number : ρ → Int} {rows : List ρ} {n : Int}
    (h : rows.map number = (List.range rows.length).map (fun i : Nat => (i : Int) + n)) :
    Numbered number n rows := by
  induction rows generalizing n with
  | nil => exact .nil n
  | cons r rows ih =>
      rw [List.length_cons, List.range_succ_eq_map, List.map_cons, List.map_cons, List.map_map] at h
      obtain ⟨hhead, htail⟩ := List.cons.inj h
      refine .cons (by simpa using hhead) (ih (htail.trans (List.map_congr_left (fun i _ => ?_))))
      simp only [Function.comp_apply]
      push_cast
      omega

-- ============================================================================
-- The rows of a workflow
-- ============================================================================

section Rows

variable {env : Env} {ids : List String} {db : DB} {id : String}

theorem mem_historyOf {row : TransitionRecord} :
    row ∈ db.historyOf id ↔ db.history.get row.key = some row ∧ row.key.workflowID = id := by
  rw [DB.historyOf, Table.mem_select, decide_eq_true_eq, Table.mem_rows_iff]

/-- The rows of a workflow carry the revisions 1, 2, and so on. -/
theorem numbered_historyOf (h : HistoryComplete db) (id : String) :
    Numbered (fun row : TransitionRecord => row.key.revision) 1 (db.historyOf id) := by
  cases hw : db.workflows.get id with
  | none =>
      rw [h.orphan id hw]
      exact .nil 1
  | some w => exact numbered_of_map (h.chain id w hw).revisions

theorem sorted_historyOf (h : HistoryComplete db) (id : String) :
    (db.historyOf id).Pairwise (fun a b => a.key.revision ≤ b.key.revision) :=
  (numbered_historyOf h id).pairwise.imp Int.le_of_lt

/-- The loaded rows of a workflow are those of the store, oldest first. -/
theorem filter_loadHistory (h : HistoryComplete db) (hid : id ∈ ids) :
    (loadHistory env ids db).filter (fun r => decide (r.workflowID = id)) =
      (db.historyOf id).map historyRecord := by
  have hselect : (db.history.select (fun row => decide (row.key.workflowID ∈ ids))).filter
      (fun row => decide (row.key.workflowID = id)) = db.historyOf id := by
    rw [DB.historyOf, Table.select, Table.select, List.filter_filter]
    refine List.filter_congr (fun row _ => ?_)
    by_cases hrow : row.key.workflowID = id <;> simp [hrow, hid]
  have hsorted : ((db.history.select (fun row => decide (row.key.workflowID ∈ ids))).insertionSort
      (fun a b => a.key.revision ≤ b.key.revision)).filter (fun row => decide (row.key.workflowID = id)) =
      db.historyOf id := by
    rw [filter_insertionSort (by rw [hselect]; exact sorted_historyOf h id), hselect]
  rw [loadHistory, List.filter_map]
  refine congrArg (List.map historyRecord) ?_
  change List.filter (fun row : TransitionRecord => decide (row.key.workflowID = id)) _ = _
  rw [filter_insertionSort, hsorted]
  refine List.pairwise_of_forall_mem_list (fun a ha b hb => .inl ?_)
  change a.key.workflowID = b.key.workflowID
  rw [of_decide_eq_true (List.mem_filter.mp ha).2, of_decide_eq_true (List.mem_filter.mp hb).2]

theorem mem_loadHistory {r : HistoryRecord} : r ∈ loadHistory env ids db ↔
    ∃ row, db.history.get row.key = some row ∧ row.key.workflowID ∈ ids ∧ historyRecord row = r := by
  simp [loadHistory, List.mem_insertionSort, Table.mem_select, Table.mem_rows_iff, and_assoc]

theorem sort_historyRecords (h : HistoryComplete db) (id : String) :
    ((db.historyOf id).map historyRecord).insertionSort (fun r s => r.revision ≤ s.revision) =
      (db.historyOf id).map historyRecord :=
  List.Pairwise.insertionSort_eq (List.pairwise_map.mpr (sorted_historyOf h id))

/-- Every group of the loaded history is the history of a stored workflow. -/
theorem group_of_loadHistory (h : HistoryComplete db) {group : String × List HistoryRecord}
    (hgroup : group ∈ grouped HistoryRecord.workflowID (loadHistory env ids db)) :
    ∃ w, db.workflows.get group.1 = some w ∧ group.1 ∈ ids ∧
      group.2 = (db.historyOf group.1).map historyRecord := by
  obtain ⟨⟨r, hr, hkey⟩, hrows⟩ := mem_grouped hgroup
  obtain ⟨row, hrow, hid, rfl⟩ := mem_loadHistory.mp hr
  have hgid : row.key.workflowID = group.1 := hkey
  obtain ⟨w, hw, -⟩ := h.revision_le hrow
  rw [hgid] at hw hid
  exact ⟨w, hw, hid, by rw [hrows, filter_loadHistory h hid]⟩

end Rows

-- ============================================================================
-- Histories
-- ============================================================================

theorem isTerminal_text (s : WorkflowState) : isTerminal s.text = s.isTerminal := by
  cases s <;> decide

/-- A stored row that leaves the checker's table. -/
def IllegalRow (db : DB) (row : TransitionRecord) : Prop :=
  db.history.get row.key = some row ∧
    ∃ s, row.oldState = some s ∧ allowedTransition s.text row.newState.text = false

section Scans

variable {env : Env} {id : String}

/-- The scan of a chain reports the rows that leave the table. -/
theorem mem_scanHistory_chain {previous : TransitionRecord} {rows : List TransitionRecord} {v : String}
    (hchain : (previous :: rows).IsChain TransitionRecord.follows)
    (hnumbers : Numbered (fun row : TransitionRecord => row.key.revision) (previous.key.revision + 1) rows)
    (hpositive : 0 < previous.key.revision) :
    v ∈ scanHistory env id (some (previous.key.revision, previous.newState.text))
        previous.newState.isTerminal (rows.map historyRecord) ↔
      ∃ row ∈ rows, ∃ s, row.oldState = some s ∧ allowedTransition s.text row.newState.text = false ∧
        v = illegalTransition id (historyRecord row) := by
  induction rows generalizing previous with
  | nil => simp [scanHistory]
  | cons row rows ih =>
      obtain ⟨⟨hold, hlive⟩, hrest⟩ := List.isChain_cons_cons.mp hchain
      cases hnumbers with
      | cons hhead htail =>
        have hrevision : row.key.revision = previous.key.revision + 1 := hhead
        have hih := ih hrest (by rw [hrevision]; exact htail) (by omega)
        rw [List.map_cons, scanHistory, hlive]
        have hcontiguous : ¬ ((historyRecord row).revision ≤ 0 ∨
            (some (previous.key.revision, previous.newState.text)).any
              (fun p => decide ((historyRecord row).revision ≠ p.1 + 1)) = true) := by
          simp [historyRecord, hrevision, hpositive.le]
        have hfollows : ¬ (some (previous.key.revision, previous.newState.text)).any
            (fun p => decide ((historyRecord row).oldState ≠ p.2)) = true := by
          simp [historyRecord, hold]
        rw [if_neg hcontiguous, if_neg hfollows, if_neg Bool.false_ne_true]
        simp only [List.nil_append, List.append_nil, List.mem_append, Bool.false_or, List.exists_mem_cons_iff,
          Option.isSome_some, Bool.true_and, Bool.not_eq_true']
        refine or_congr ?_ ((iff_of_eq ?_).trans hih)
        · have htext : (historyRecord row).oldState = previous.newState.text := by simp [historyRecord, hold]
          have hnew : (historyRecord row).newState = row.newState.text := rfl
          rw [htext, hnew, hold]
          simp only [Option.some.injEq, exists_eq_left']
          split
          next hillegal => simp [hillegal]
          next hlegal => simp [hlegal]
        · change (v ∈ scanHistory env id (some (row.key.revision, row.newState.text))
            (isTerminal row.newState.text) _) = _
          rw [isTerminal_text]

/-- The checker holds nothing against a complete history but the rows that leave its table. -/
theorem mem_historyViolations {db : DB} {w : Workflow} {v : String} (h : HistoryComplete db)
    (hw : db.workflows.get id = some w) :
    v ∈ historyViolations env id ((db.historyOf id).map historyRecord) ↔
      ∃ row, IllegalRow db row ∧ row.key.workflowID = id ∧ v = illegalTransition id (historyRecord row) := by
  have hchain := h.chain id w hw
  have hnumbers := numbered_historyOf h id
  have hrows : ∀ row, row ∈ db.historyOf id ↔ db.history.get row.key = some row ∧ row.key.workflowID = id :=
    fun _ => mem_historyOf
  obtain ⟨first, rest, hfirst, hold, hnew⟩ := hchain.first
  have hlinked := hchain.linked
  rw [historyViolations, sort_historyRecords h]
  rw [hfirst] at hnumbers hlinked hrows ⊢
  cases hnumbers with
  | cons hhead htail =>
    have hone : first.key.revision = 1 := hhead
    have hstarts : startsCreated ((first :: rest).map historyRecord) = true := by
      simp [startsCreated, historyRecord, hone, hold, hnew, WorkflowState.text]
    have hlive : first.newState.isTerminal = false := by rw [hnew]; rfl
    rw [if_pos hstarts, List.nil_append, List.map_cons, scanHistory]
    have hscan : scanHistory env id (some ((historyRecord first).revision, (historyRecord first).newState))
        (false || isTerminal (historyRecord first).newState) (rest.map historyRecord) =
        scanHistory env id (some (first.key.revision, first.newState.text)) first.newState.isTerminal
          (rest.map historyRecord) := by
      rw [Bool.false_or, ← isTerminal_text]
      rfl
    rw [hscan, if_neg (by simp [historyRecord, hone]), if_neg (by simp), if_neg (by simp), if_neg (by simp)]
    simp only [List.nil_append]
    rw [mem_scanHistory_chain hlinked (by rw [hone]; exact htail) (by omega)]
    constructor
    · rintro ⟨row, hrow, s, hs, hillegal, rfl⟩
      obtain ⟨hstored, hid⟩ := (hrows row).mp (List.mem_cons_of_mem _ hrow)
      exact ⟨row, ⟨hstored, s, hs, hillegal⟩, hid, rfl⟩
    · rintro ⟨row, ⟨hstored, s, hs, hillegal⟩, hid, rfl⟩
      obtain rfl | hrow := List.mem_cons.mp ((hrows row).mpr ⟨hstored, hid⟩)
      · rw [hold] at hs
        cases hs
      · exact ⟨row, hrow, s, hs, hillegal, rfl⟩

end Scans

theorem mem_checkHistory {env : Env} {ids : List String} {db : DB} {v : String} (h : Reachable env db) :
    v ∈ checkHistory env (loadHistory env ids db) ↔ ∃ row, IllegalRow db row ∧ row.key.workflowID ∈ ids ∧
      v = illegalTransition row.key.workflowID (historyRecord row) := by
  have hnamed : ∀ r ∈ loadHistory env ids db, r.workflowID ≠ "" := by
    intro r hr
    obtain ⟨row, hrow, -, rfl⟩ := mem_loadHistory.mp hr
    obtain ⟨w, hw, -⟩ := h.historyComplete.revision_le hrow
    exact (h.provided.workflow _ w hw).1
  have hall : (loadHistory env ids db).filter (fun r => decide (r.workflowID ≠ "")) = loadHistory env ids db :=
    List.filter_eq_self.mpr (fun r hr => decide_eq_true (hnamed r hr))
  have hnone : (loadHistory env ids db).filter (fun r => decide (r.workflowID = "")) = [] :=
    List.filter_eq_nil_iff.mpr (fun r hr hempty => hnamed r hr (of_decide_eq_true hempty))
  rw [checkHistory, hall, hnone, List.map_nil, List.nil_append, List.mem_flatMap]
  constructor
  · rintro ⟨group, hgroup, hv⟩
    obtain ⟨w, hw, hid, hrows⟩ := group_of_loadHistory h.historyComplete hgroup
    rw [hrows] at hv
    obtain ⟨row, hrow, hkey, rfl⟩ := (mem_historyViolations h.historyComplete hw).mp hv
    exact ⟨row, hrow, hkey ▸ hid, by rw [hkey]⟩
  · rintro ⟨row, hrow, hid, rfl⟩
    have hmem : historyRecord row ∈ loadHistory env ids db := mem_loadHistory.mpr ⟨row, hrow.1, hid, rfl⟩
    obtain ⟨w, hw, -⟩ := h.historyComplete.revision_le hrow.1
    refine ⟨_, grouped_of_mem hmem, ?_⟩
    rw [filter_loadHistory h.historyComplete (show (historyRecord row).workflowID ∈ ids from hid)]
    exact (mem_historyViolations h.historyComplete hw).mpr ⟨row, hrow, rfl, rfl⟩

-- ============================================================================
-- Owners
-- ============================================================================

/-- Rows that are signed with epochs that do not fall pass the scan. -/
theorem scanEpochs_eq_nil {id : String} {previous : Int} {rows : List TransitionRecord}
    (hsigned : ∀ row ∈ rows, row.Signed ∧ ∀ e, row.schedulerEpoch = some e → 0 < e ∧ previous ≤ e)
    (hordered : rows.Pairwise (fun a b => ∀ e e', a.schedulerEpoch = some e → b.schedulerEpoch = some e' → e ≤ e')) :
    scanEpochs id previous (rows.map historyRecord) = [] := by
  induction rows generalizing previous with
  | nil => rfl
  | cons row rows ih =>
      obtain ⟨hfirst, hrest⟩ := List.pairwise_cons.mp hordered
      obtain ⟨hkind, hepoch⟩ := hsigned row List.mem_cons_self
      have htail : ∀ r ∈ rows, r.Signed ∧ ∀ e, r.schedulerEpoch = some e → 0 < e ∧ previous ≤ e :=
        fun r hr => hsigned r (List.mem_cons_of_mem _ hr)
      have hactor : (historyRecord row).actorKind = row.actorKind := rfl
      have hcarried : (historyRecord row).schedulerEpoch = row.schedulerEpoch := rfl
      rw [List.map_cons, scanEpochs, hactor, hcarried]
      cases he : row.schedulerEpoch with
      | none =>
          have hother : ¬ row.actorKind = "scheduler" := fun hs => by
            have hsome := hkind.mp hs
            rw [he] at hsome
            cases hsome
          rw [if_neg hother, if_neg (by simp)]
          exact ih htail hrest
      | some e =>
          obtain ⟨hpositive, hle⟩ := hepoch e he
          have hscheduler : row.actorKind = "scheduler" := hkind.mpr (by rw [he]; rfl)
          rw [if_pos hscheduler]
          simp only [if_neg (Int.not_le.mpr hpositive), if_neg (fun hboth : previous ≠ 0 ∧ e < previous =>
            Int.not_lt.mpr hle hboth.2)]
          refine ih (fun r hr => ⟨(htail r hr).1, fun e' he' => ⟨((htail r hr).2 e' he').1, ?_⟩⟩) hrest
          exact hfirst r hr e e' he he'

theorem checkOwnership_loadHistory {env : Env} {ids : List String} {db : DB} (h : Reachable env db) :
    checkOwnership (loadHistory env ids db) = [] := by
  refine List.flatMap_eq_nil_iff.mpr (fun group hgroup => ?_)
  obtain ⟨w, -, -, hrows⟩ := group_of_loadHistory h.historyComplete hgroup
  rw [hrows, sort_historyRecords h.historyComplete]
  refine scanEpochs_eq_nil (fun row hrow => ?_) ?_
  · obtain ⟨hstored, -⟩ := mem_historyOf.mp hrow
    obtain ⟨hsigned, hpositive⟩ := h.historySigned row.key row hstored
    exact ⟨hsigned, fun e he => ⟨hpositive e he, (hpositive e he).le⟩⟩
  · refine (sorted_historyOf h.historyComplete group.1).imp_of_mem (fun {a b} ha hb hle e e' he he' => ?_)
    obtain ⟨hstored, hid⟩ := mem_historyOf.mp ha
    obtain ⟨hstored', hid'⟩ := mem_historyOf.mp hb
    exact h.epochsOrdered.ordered a b hstored hstored' (hid.trans hid'.symm) hle e e' he he'

-- ============================================================================
-- Results
-- ============================================================================

/-- Different nodes have different keys. -/
theorem nodeKey_inj {a b : AcceptedResult} (ha : '\x00' ∉ a.workflowID.toList) (hb : '\x00' ∉ b.workflowID.toList)
    (hi : 0 ≤ a.iteration) (hj : 0 ≤ b.iteration) (h : a.nodeKey = b.nodeKey) :
    a.workflowID = b.workflowID ∧ a.nodeID = b.nodeID ∧ a.iteration = b.iteration := by
  have hdigits : ∀ i : Int, 0 ≤ i → '\x00' ∉ (toString i).toList :=
    fun i hi => not_mem_toString_of_nonneg hi (by decide)
  unfold AcceptedResult.nodeKey at h
  obtain ⟨hnames, hiteration⟩ := separated_inj_last (hdigits _ hi) (hdigits _ hj) h
  obtain ⟨hworkflow, hnode⟩ := separated_inj ha hb hnames
  exact ⟨hworkflow, hnode, toString_inj_of_nonneg hi hj hiteration⟩

theorem scanResults_eq_nil {seen : List String} {results : List AcceptedResult}
    (hnamed : ∀ r ∈ results, ¬ (r.workflowID = "" ∨ r.nodeID = "" ∨ r.iteration < 0))
    (hnew : ∀ r ∈ results, r.nodeKey ∉ seen)
    (hdistinct : results.Pairwise (fun a b => a.nodeKey ≠ b.nodeKey)) : scanResults seen results = [] := by
  induction results generalizing seen with
  | nil => rfl
  | cons r results ih =>
      obtain ⟨hfirst, hrest⟩ := List.pairwise_cons.mp hdistinct
      have hnamed' := fun r' hr' => hnamed r' (List.mem_cons_of_mem _ hr')
      have hnew' := fun r' hr' => hnew r' (List.mem_cons_of_mem _ hr')
      rw [scanResults, if_neg (hnamed r List.mem_cons_self), if_neg (hnew r List.mem_cons_self)]
      split
      · refine ih hnamed' (fun r' hr' hmem => ?_) hrest
        obtain heq | hseen := List.mem_cons.mp hmem
        · exact hfirst r' hr' heq.symm
        · exact hnew' r' hr' hseen
      · exact ih hnamed' hnew' hrest

/-- The loaded results are the selected nodes, in some order. -/
theorem loadResults_eq (env : Env) (ids : List String) (db : DB) : ∃ rows : List NodeInstance,
    rows.Perm (db.nodes.select (fun n => decide (n.key.workflowID ∈ ids) && n.acceptedResult.isSome)) ∧
      loadResults env ids db = rows.map (fun n => ⟨n.key.workflowID, n.key.nodeID, n.key.iteration, true⟩) :=
  ⟨_, (List.perm_insertionSort _ _).trans ((List.perm_insertionSort _ _).trans (List.perm_insertionSort _ _)), rfl⟩

theorem checkResults_loadResults {env : Env} {ids : List String} {db : DB} (h : Reachable env db) :
    checkResults (loadResults env ids db) = [] := by
  obtain ⟨rows, hperm, hrows⟩ := loadResults_eq env ids db
  have hstored : ∀ n ∈ rows, db.nodes.get n.key = some n := fun n hn =>
    Table.mem_rows_iff.mp (Table.mem_select.mp (hperm.mem_iff.mp hn)).1
  have hnamed : ∀ n ∈ rows, n.key.workflowID ≠ "" ∧ '\x00' ∉ n.key.workflowID.toList ∧
      n.key.nodeID ≠ "" ∧ 0 ≤ n.key.iteration := by
    intro n hn
    obtain ⟨w, hw⟩ := h.linked.node _ n (hstored n hn)
    obtain ⟨hworkflow, hquotable⟩ := h.provided.workflow _ w hw
    exact ⟨hworkflow, nul_not_mem_of_quotable hquotable, h.provided.node _ n (hstored n hn)⟩
  have hkeys : rows.Pairwise (fun a b => a.key ≠ b.key) :=
    (hperm.pairwise_iff (fun hne => Ne.symm hne)).mpr
      ((List.pairwise_map.mp db.nodes.nodup).sublist List.filter_sublist)
  rw [hrows]
  refine scanResults_eq_nil (fun r hr => ?_) (fun r _ => List.not_mem_nil) (List.pairwise_map.mpr
    (hkeys.imp_of_mem (fun {a b} ha hb hne hsame => hne ?_)))
  · obtain ⟨n, hn, rfl⟩ := List.mem_map.mp hr
    obtain ⟨hworkflow, -, hnode, hiteration⟩ := hnamed n hn
    exact fun hmissing => hmissing.elim hworkflow (·.elim hnode (Int.not_lt.mpr hiteration))
  · obtain ⟨-, hnul, -, hiteration⟩ := hnamed a ha
    obtain ⟨-, hnul', -, hiteration'⟩ := hnamed b hb
    obtain ⟨hworkflow, hnode, hiter⟩ := nodeKey_inj hnul hnul' hiteration hiteration' hsame
    exact NodeKey.mk.injEq .. |>.mpr ⟨hworkflow, hnode, hiter⟩

-- ============================================================================
-- Submissions
-- ============================================================================

/-- A stored workflow has a complete submission, and no other workflow has its key. -/
structure SubmissionsStored (db : DB) : Prop where
  named : ∀ id w, db.workflows.get id = some w → w.namespace_ ≠ "" ∧ w.submissionKey ≠ "" ∧ w.payloadHash ≠ ""
  unique : KeysUnique db

theorem submissionsStored_of_reachable {env : Env} {db : DB} (h : Reachable env db) : SubmissionsStored db := by
  refine h.induction (fun _ => ⟨fun _ _ hw => (nomatch hw), fun _ _ _ _ hw => (nomatch hw)⟩) (fun db db' hi hs => ?_)
  cases hs with
  | tick d => exact ⟨hi.named, hi.unique⟩
  | commit amb op a hrun =>
      have hcommit := Op.run_commit hrun
      refine ⟨fun id w' hw' => ?_, ?_⟩
      · cases hw : db.workflows.get id with
        | some w =>
            obtain ⟨w'', hw'', hns, hkey, hhash⟩ := hcommit.change.submission_kept hw
            rw [hw', Option.some.injEq] at hw''
            rw [hw'', hns, hkey, hhash]
            exact hi.named id w hw
        | none =>
            obtain ⟨w, hold, -⟩ | ⟨input, hop, rfl, -⟩ := hcommit.change.workflow_origin hw'
            · rw [hw] at hold
              cases hold
            · cases hop
              have hcomplete : createWorkflow env amb input db = .ok (a, db') := hrun
              simp only [createWorkflow, bind_eq_ok, rejectIf_eq_ok, exists_const, not_or] at hcomplete
              obtain ⟨-, rfl, -⟩ | ⟨-, -, -, -, -, n, event, hsubmits⟩ := createWorkflow_eq_ok hrun
              · rw [hw] at hw'
                cases hw'
              · have hself : db'.workflows.get input.workflowID = some input.workflow :=
                  Table.get_insert_self hsubmits.workflows
                rw [hself, Option.some.injEq] at hw'
                rw [← hw']
                exact ⟨hcomplete.1.2.1, hcomplete.1.2.2.1, hcomplete.1.2.2.2.1⟩
      · by_cases hsubmission : op.isSubmission = true
        · cases op with
          | createWorkflow input =>
              obtain ⟨-, rfl, -⟩ | ⟨-, -, -, hfree, hroom, n, event, hsubmits⟩ := createWorkflow_eq_ok hrun
              · exact hi.unique
              · exact hi.unique.evolves (.created input n event hfree hroom hsubmits)
          | _ => cases hsubmission
        · exact hi.unique.evolves (.commit op hcommit (noNew_of_commit hrun (by simpa using hsubmission)))

theorem scanSubmissions_eq_nil {seen submissions : List SubmissionRecord}
    (hcomplete : ∀ s ∈ submissions, s.complete = true)
    (hnew : ∀ s ∈ submissions, ∀ t ∈ seen, t.mapKey ≠ s.mapKey ∧ t.workflowID ≠ s.workflowID)
    (hdistinct : submissions.Pairwise (fun a b => a.mapKey ≠ b.mapKey ∧ a.workflowID ≠ b.workflowID)) :
    scanSubmissions seen submissions = [] := by
  induction submissions generalizing seen with
  | nil => rfl
  | cons s submissions ih =>
      obtain ⟨hfirst, hrest⟩ := List.pairwise_cons.mp hdistinct
      have hkey : seen.find? (fun t => decide (t.mapKey = s.mapKey)) = none :=
        List.find?_eq_none.mpr (fun t ht heq => (hnew s List.mem_cons_self t ht).1 (of_decide_eq_true heq))
      have hid : seen.find? (fun t => decide (t.workflowID = s.workflowID)) = none :=
        List.find?_eq_none.mpr (fun t ht heq => (hnew s List.mem_cons_self t ht).2 (of_decide_eq_true heq))
      rw [scanSubmissions, if_pos (hcomplete s List.mem_cons_self), hkey, hid]
      refine ih (fun t ht => hcomplete t (List.mem_cons_of_mem _ ht)) (fun t ht u hu => ?_) hrest
      obtain rfl | hu := List.mem_cons.mp hu
      · exact hfirst t ht
      · exact hnew t (List.mem_cons_of_mem _ ht) u hu

theorem checkSubmissions_loadSubmissions {env : Env} {ids : List String} {db : DB} (h : Reachable env db)
    (htexts : ∀ id w, db.workflows.get id = some w → '\x00' ∉ w.namespace_.toList) :
    checkSubmissions (loadSubmissions env ids db) = [] := by
  have hstored := submissionsStored_of_reachable h
  have hrows : ∀ w ∈ (db.workflows.select (fun w => decide (w.workflowID ∈ ids))).insertionSort
      (byText env Workflow.workflowID), db.workflows.get w.workflowID = some w := fun w hw =>
    Table.mem_rows_iff.mp (Table.mem_select.mp ((List.mem_insertionSort _).mp hw)).1
  have hkeys : ((db.workflows.select (fun w => decide (w.workflowID ∈ ids))).insertionSort
      (byText env Workflow.workflowID)).Pairwise (fun a b => a.workflowID ≠ b.workflowID) :=
    ((List.perm_insertionSort _ _).pairwise_iff (fun hne => Ne.symm hne)).mpr
      ((List.pairwise_map.mp db.workflows.nodup).sublist List.filter_sublist)
  refine scanSubmissions_eq_nil (fun s hs => ?_) (fun s _ t ht => (nomatch ht)) (List.pairwise_map.mpr
    (hkeys.imp_of_mem (fun {a b} ha hb hne => ⟨fun hsame => hne ?_, hne⟩)))
  · obtain ⟨w, hw, rfl⟩ := List.mem_map.mp hs
    obtain ⟨hns, hkey, hhash⟩ := hstored.named _ w (hrows w hw)
    have hid := (h.provided.workflow _ w (hrows w hw)).1
    simp [SubmissionRecord.complete, hns, hkey, hhash, hid]
  · obtain ⟨hns, hkey⟩ := separated_inj (htexts _ a (hrows a ha)) (htexts _ b (hrows b hb)) hsame
    exact hstored.unique _ _ a b (hrows a ha) (hrows b hb) hns hkey

-- ============================================================================
-- Workflows against their histories
-- ============================================================================

/-- The newest of the rows of a complete history is the last one. -/
theorem latest_of_numbered {best : Option HistoryRecord} {rows : List TransitionRecord} {n : Int}
    (hbest : (best.map HistoryRecord.revision).getD 0 < n)
    (hnumbers : Numbered (fun row : TransitionRecord => row.key.revision) n rows) :
    (rows.map historyRecord).foldl (fun best h =>
      if h.revision > (best.map HistoryRecord.revision).getD 0 then some h else best) best =
        (rows.getLast?.map historyRecord).or best := by
  induction hnumbers generalizing best with
  | nil n => rfl
  | @cons n row rows hhead htail ih =>
      have hgreater : (historyRecord row).revision > (best.map HistoryRecord.revision).getD 0 := by
        change row.key.revision > _
        omega
      rw [List.map_cons, List.foldl_cons, if_pos hgreater, ih (by
        change row.key.revision < n + 1
        omega)]
      cases rows with
      | nil => rfl
      | cons r rows => rw [List.getLast?_cons_cons, List.getLast?_eq_some_getLast (List.cons_ne_nil r rows)]; rfl

theorem latest_loadHistory {env : Env} {ids : List String} {db : DB} {id : String} (h : HistoryComplete db)
    (hid : id ∈ ids) : latest (loadHistory env ids db) id = (db.historyOf id).getLast?.map historyRecord := by
  rw [latest, filter_loadHistory h hid, latest_of_numbered (by decide) (numbered_historyOf h id), Option.or_none]

theorem historyEnd_loadHistory {env : Env} {ids : List String} {db : DB} {id : String} {w : Workflow}
    (h : HistoryComplete db) (hw : db.workflows.get id = some w) (hid : id ∈ ids) :
    historyEnd (loadHistory env ids db) id = (w.revision, w.state.text) := by
  have hfold : ∀ (rows : List TransitionRecord) (r : Int × String),
      (rows.map historyRecord).foldl (fun r h => (r.1 + 1, h.newState)) r =
        (r.1 + rows.length, (rows.getLast?.map (fun row => row.newState.text)).getD r.2) := by
    intro rows
    induction rows with
    | nil => intro r; simp
    | cons row rows ih =>
        intro r
        rw [List.map_cons, List.foldl_cons, ih]
        cases rows with
        | nil => simp [historyRecord]
        | cons r' rows =>
            rw [List.getLast?_cons_cons, List.getLast?_eq_some_getLast (List.cons_ne_nil r' rows)]
            simp only [List.length_cons, Option.map_some, Option.getD_some, Prod.mk.injEq, and_true]
            push_cast
            omega
  have hchain := h.chain id w hw
  have hlast := hchain.last
  rw [historyEnd, filter_loadHistory h hid, hfold, hchain.revision]
  obtain ⟨row, hrow, hstate⟩ := Option.map_eq_some_iff.mp hlast
  rw [hrow, Option.map_some, Option.getD_some, hstate]
  simp

theorem last_of_numbered {rows : List TransitionRecord} {row : TransitionRecord} {n : Int}
    (h : Numbered (fun row : TransitionRecord => row.key.revision) n rows) (hrow : rows.getLast? = some row) :
    row.key.revision + 1 = n + rows.length := by
  induction h with
  | nil n => cases hrow
  | @cons n r rows hhead htail ih =>
      cases rows with
      | nil =>
          cases hrow
          simpa using hhead
      | cons r' rows =>
          rw [List.getLast?_cons_cons] at hrow
          have hlast := ih hrow
          simp only [List.length_cons, Nat.cast_add, Nat.cast_one] at hlast ⊢
          omega

/-- The newest loaded row of a workflow is at the workflow's revision and state. -/
theorem latest_of_workflow (env : Env) {ids : List String} {db : DB} {id : String} {w : Workflow}
    (h : HistoryComplete db) (hw : db.workflows.get id = some w) (hid : id ∈ ids) :
    ∃ r, latest (loadHistory env ids db) id = some r ∧ r.revision = w.revision ∧ r.newState = w.state.text := by
  have hchain := h.chain id w hw
  obtain ⟨row, hrow, hstate⟩ := Option.map_eq_some_iff.mp hchain.last
  refine ⟨historyRecord row, by rw [latest_loadHistory h hid, hrow, Option.map_some], ?_, by rw [← hstate]; rfl⟩
  have hlast := last_of_numbered (numbered_historyOf h id) hrow
  have hrevision := hchain.revision
  change row.key.revision = w.revision
  omega

theorem submissionLines_eq {env : Env} {ids : List String} {db : DB} {rows : List Workflow} (h : HistoryComplete db)
    (hrows : ∀ w ∈ rows, db.workflows.get w.workflowID = some w ∧ w.workflowID ∈ ids) :
    submissionLines (loadHistory env ids db)
        (rows.map (fun w => ⟨w.namespace_, w.submissionKey, w.payloadHash, w.workflowID⟩)) =
      ([], (rows.filter (fun w => !w.state.isTerminal)).map Workflow.workflowID) := by
  induction rows with
  | nil => rfl
  | cons w rows ih =>
      obtain ⟨hw, hid⟩ := hrows w List.mem_cons_self
      obtain ⟨r, hlatest, -, hstate⟩ := latest_of_workflow env h hw hid
      rw [List.map_cons, submissionLines, ih (fun w' hw' => hrows w' (List.mem_cons_of_mem _ hw'))]
      simp only [hlatest, hstate, isTerminal_text, List.filter_cons]
      cases w.state.isTerminal <;> rfl

-- ============================================================================
-- Snapshots
-- ============================================================================

/-- `Load` accepts the request: it names workflows of the store, each once. -/
structure Exportable (ids : List String) (db : DB) : Prop where
  nonempty : ids ≠ []
  named : "" ∉ ids
  nodup : ids.Nodup
  stored : ∀ id ∈ ids, ∃ w, db.workflows.get id = some w

/-- What the checker says of the trace `trace` of the workflows `ids`. -/
structure Judged (env : Env) (ids : List String) (db : DB) (trace : Trace) : Prop where
  history : ∀ v, v ∈ checkHistory env trace.history ↔ ∃ row, IllegalRow db row ∧ row.key.workflowID ∈ ids ∧
    v = illegalTransition row.key.workflowID (historyRecord row)
  owners : checkOwnershipAndAttempts trace.history trace.attempts = []
  results : checkResults trace.results = []
  submissions : checkSubmissions trace.submissions = []
  complete : (reconcileSubmissions trace).1 = []
  pending : (reconcileSubmissions trace).2 = (ids.filter (fun id =>
    (db.workflows.get id).any (fun w => !w.state.isTerminal))).insertionSort (fun a b => a ≤ b)

/-- The selected workflows, in any order, are those of the request that are stored. -/
theorem selected_perm {ids : List String} {db : DB} {rows : List Workflow} (hids : ids.Nodup) (p : Workflow → Bool)
    (hrows : rows.Perm (db.workflows.select (fun w => decide (w.workflowID ∈ ids)))) :
    ((rows.filter p).map Workflow.workflowID).Perm (ids.filter (fun id => (db.workflows.get id).any p)) := by
  have hnodup : (rows.map Workflow.workflowID).Nodup :=
    ((hrows.map _).nodup_iff).mpr (db.workflows.nodup.sublist (List.filter_sublist.map _))
  refine (List.perm_ext_iff_of_nodup (hnodup.sublist (List.filter_sublist.map _)) (hids.filter _)).mpr (fun id => ?_)
  simp only [List.mem_map, List.mem_filter, hrows.mem_iff, Table.mem_select, Table.mem_rows_iff, decide_eq_true_eq,
    Option.any_eq_true]
  constructor
  · rintro ⟨w, ⟨⟨hw, hid⟩, hp⟩, rfl⟩
    exact ⟨hid, w, hw, hp⟩
  · rintro ⟨hid, w, hw, hp⟩
    have hkey : w.workflowID = id := Table.key_of_get hw
    exact ⟨w, ⟨⟨by rw [hkey]; exact hw, by rw [hkey]; exact hid⟩, hp⟩, hkey⟩

section Snapshots

variable {env : Env} {ids : List String} {db : DB}

theorem length_loadWorkflows (hids : ids.Nodup) :
    (loadWorkflows env ids db).length = ids.length ↔ ∀ id ∈ ids, ∃ w, db.workflows.get id = some w := by
  have hperm := selected_perm hids (fun _ => true) (List.perm_insertionSort (byText env Workflow.workflowID)
    (db.workflows.select (fun w => decide (w.workflowID ∈ ids))))
  have hlength : (loadWorkflows env ids db).length =
      (ids.filter (fun id => (db.workflows.get id).any (fun _ => true))).length := by
    rw [← hperm.length_eq, List.filter_eq_self.mpr (fun _ _ => rfl), List.length_map, loadWorkflows, List.length_map]
  rw [hlength, List.length_filter_eq_length_iff]
  refine forall₂_congr (fun id _ => ?_)
  rw [Option.any_eq_true]
  exact ⟨fun ⟨w, hw, _⟩ => ⟨w, hw⟩, fun ⟨w, hw⟩ => ⟨w, hw, rfl⟩⟩

theorem mem_loadWorkflows {wf : WorkflowRecord} : wf ∈ loadWorkflows env ids db ↔
    ∃ w, db.workflows.get w.workflowID = some w ∧ w.workflowID ∈ ids ∧
      (⟨w.workflowID, w.state.text, w.revision⟩ : WorkflowRecord) = wf := by
  simp [loadWorkflows, List.mem_insertionSort, Table.mem_select, Table.mem_rows_iff, and_assoc]

/-- `Load` succeeds on every request it can serve, and its trace has the whole history. -/
theorem loadSnapshot_of_exportable (env : Env) (h : HistoryComplete db) (hids : Exportable ids db) :
    loadSnapshot env ids db = .ok (queryTrace env ids db) := by
  have hnone : (queryTrace env ids db).workflows.find? (fun wf =>
      decide (historyEnd (queryTrace env ids db).history wf.workflowID ≠ (wf.revision, wf.state))) = none := by
    refine List.find?_eq_none.mpr (fun wf hwf => ?_)
    obtain ⟨w, hw, hid, rfl⟩ := mem_loadWorkflows.mp hwf
    simp [queryTrace, historyEnd_loadHistory h hw hid]
  have hlength : (queryTrace env ids db).workflows.length = ids.length :=
    (length_loadWorkflows hids.nodup).mpr hids.stored
  have hinvalid : ¬ ("" ∈ ids ∨ ¬ ids.Nodup) := fun hbad => hbad.elim hids.named (· hids.nodup)
  simp only [loadSnapshot, rejectIf_of_not _ hids.nonempty, rejectIf_of_not _ hinvalid, ok_bind,
    rejectIf_of_not _ (not_not.mpr hlength), hnone]

theorem loadSnapshot_of_not_exportable (env : Env) (hids : ¬ Exportable ids db) :
    ∃ e, loadSnapshot env ids db = .error e := by
  cases hload : loadSnapshot env ids db with
  | error e => exact ⟨e, rfl⟩
  | ok trace =>
      simp only [loadSnapshot, bind_eq_ok, rejectIf_eq_ok, exists_const, not_or, not_not] at hload
      obtain ⟨hsome, ⟨hnamed, hnodup⟩, hlength, -⟩ := hload
      exact (hids ⟨hsome, hnamed, hnodup, (length_loadWorkflows hnodup).mp hlength⟩).elim

/-- A namespace with a workflow is a request `Load` can serve. -/
theorem loadNamespace_succeeds_iff (h : Reachable env db) (ns : String) :
    (∃ trace, loadNamespace env ns db = .ok trace) ↔
      ∃ w, db.workflows.get w.workflowID = some w ∧ w.namespace_ = ns := by
  set selected := (db.workflows.select (fun w => decide (w.namespace_ = ns))).insertionSort
    (byText env Workflow.workflowID) with hselected
  have hperm : selected.Perm (db.workflows.select (fun w => decide (w.namespace_ = ns))) :=
    List.perm_insertionSort _ _
  have hmem : ∀ w ∈ selected, db.workflows.get w.workflowID = some w ∧ w.namespace_ = ns := by
    intro w hw
    obtain ⟨hstored, hns⟩ := Table.mem_select.mp (hperm.mem_iff.mp hw)
    exact ⟨Table.mem_rows_iff.mp hstored, of_decide_eq_true hns⟩
  constructor
  · rintro ⟨trace, hload⟩
    simp only [loadNamespace, bind_eq_ok, rejectIf_eq_ok, exists_const, ← hselected] at hload
    obtain ⟨-, hload⟩ := hload
    simp only [loadSnapshot, bind_eq_ok, rejectIf_eq_ok, exists_const, List.map_eq_nil_iff] at hload
    obtain ⟨w, hw⟩ := List.exists_mem_of_ne_nil selected hload.1
    exact ⟨w, hmem w hw⟩
  · rintro ⟨w, hw, rfl⟩
    have hnamed := (submissionsStored_of_reachable h).named _ w hw
    have hids : Exportable (selected.map Workflow.workflowID) db := by
      refine ⟨fun hnil => ?_, fun hempty => ?_, ?_, fun id hid => ?_⟩
      · refine List.not_mem_nil (a := w) (List.map_eq_nil_iff.mp hnil ▸ hperm.mem_iff.mpr (Table.mem_select.mpr ?_))
        exact ⟨Table.mem_of_get hw, by simp⟩
      · obtain ⟨v, hv, hid⟩ := List.mem_map.mp hempty
        exact (h.provided.workflow _ v (hmem v hv).1).1 hid
      · exact ((hperm.map _).nodup_iff).mpr (db.workflows.nodup.sublist (List.filter_sublist.map _))
      · obtain ⟨v, hv, rfl⟩ := List.mem_map.mp hid
        exact ⟨v, (hmem v hv).1⟩
    have hload := loadSnapshot_of_exportable env h.historyComplete hids
    refine ⟨_, Eq.trans ?_ hload⟩
    rw [loadNamespace, rejectIf_of_not _ hnamed.1, ok_bind]

theorem reconcileSubmissions_eq (env : Env) (h : HistoryComplete db) (hids : ids.Nodup) :
    reconcileSubmissions (queryTrace env ids db) =
      ([], (ids.filter (fun id => (db.workflows.get id).any (fun w => !w.state.isTerminal))).insertionSort
        (fun a b => a ≤ b)) := by
  have hrows : ∀ w ∈ (db.workflows.select (fun w => decide (w.workflowID ∈ ids))).insertionSort
      (byText env Workflow.workflowID), db.workflows.get w.workflowID = some w ∧ w.workflowID ∈ ids := by
    intro w hw
    obtain ⟨hmem, hid⟩ := Table.mem_select.mp ((List.mem_insertionSort _).mp hw)
    exact ⟨Table.mem_rows_iff.mp hmem, of_decide_eq_true hid⟩
  have hwhole : (queryTrace env ids db).workflows.filter (queryTrace env ids db).incomplete = [] := by
    refine List.filter_eq_nil_iff.mpr (fun wf hwf => ?_)
    obtain ⟨w, hw, hid, rfl⟩ := mem_loadWorkflows.mp hwf
    obtain ⟨r, hlatest, hrevision, hstate⟩ := latest_of_workflow env h hw hid
    have hcount : (((loadHistory env ids db).countP (fun h => decide (h.workflowID = w.workflowID)) : Nat) : Int) =
        w.revision := by
      rw [List.countP_eq_length_filter, filter_loadHistory h hid, List.length_map]
      exact (h.chain _ w hw).revision.symm
    simp [Trace.incomplete, queryTrace, hlatest, hrevision, hstate, hcount]
  have hperm := selected_perm hids (fun w => !w.state.isTerminal) (List.perm_insertionSort
    (byText env Workflow.workflowID) (db.workflows.select (fun w => decide (w.workflowID ∈ ids))))
  have hlines : submissionLines (queryTrace env ids db).history (queryTrace env ids db).submissions = _ :=
    submissionLines_eq h hrows
  simp only [reconcileSubmissions, hlines, hwhole, List.map_nil, List.append_nil, Prod.mk.injEq, true_and]
  exact (((List.perm_insertionSort _ _).trans hperm).trans (List.perm_insertionSort _ _).symm).eq_of_pairwise'
    (List.pairwise_insertionSort _ _) (List.pairwise_insertionSort _ _)

/-- A run without the two operations that leave the table writes no illegal row. -/
theorem not_illegalRow (h : ReachableIf env (fun α op db => ¬ offTable α op db) db) (row : TransitionRecord) :
    ¬ IllegalRow db row := by
  refine h.induction (I := fun db => ∀ row, ¬ IllegalRow db row) (fun _ _ hrow => (nomatch hrow.1)) ?_ row
  rintro db db' - hi hs row ⟨hrow, s, hold, hillegal⟩
  cases hs with
  | tick d => exact hi row ⟨hrow, s, hold, hillegal⟩
  | commit amb op r hrun hon =>
      have hchange := (Op.run_commit hrun).change
      cases hbefore : db.history.get row.key with
      | none =>
          rw [(allowed_iff_of_change hchange hbefore hrow hold).mpr hon] at hillegal
          cases hillegal
      | some row' =>
          rw [hchange.history_persists hbefore, Option.some.injEq] at hrow
          exact hi row ⟨hrow ▸ hbefore, s, hold, hillegal⟩

end Snapshots

end DurableEngine.Invariants
