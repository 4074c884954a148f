/-
  DurableEngine.Api.Pages

  The history of a workflow, page by page, after `Server.getHistory`.

  A request reads the workflow and the page in separate statements while
  others write.  A workflow's history only grows at its end, so what a client
  has gathered by following the cursor is a prefix of it.
-/

import DurableEngine.Services.Awaiting
import DurableEngine.State.Submission

namespace DurableEngine.Api

open Lib State Services

-- ============================================================================
-- One request
-- ============================================================================

/-- What `writeError` and `writeRepositoryError` answer. -/
inductive RequestError where
  | invalidRequest (message : String)
  | staleRevision (current : Int)
  | repository (e : Err)
deriving DecidableEq, Repr

/-- `historyResponse`. -/
structure HistoryResponse where
  workflowID : String
  entries : List TransitionRecord
  nextAfterRevision : Option Int
deriving DecidableEq, Repr

/-- The rows `ListHistory` selects. -/
def historyPage (db : DB) (workflowID : String) (afterRevision limit : Int) : List TransitionRecord :=
  (((db.historyOf workflowID).filter (fun row => afterRevision < row.key.revision)).insertionSort
    (fun row row' => row.key.revision ≤ row'.key.revision)).take limit.toNat

/-- `ListHistory`, whose statements see the states `db` and `db'`. -/
def listHistory (workflowID : String) (afterRevision limit : Int) (db db' : DB) :
    Except Err (List TransitionRecord) := do
  rejectIf (afterRevision < 0) (.text "history revision cursor must not be negative")
  rejectIf (limit ≤ 0 ∨ 1000 < limit) (.text "history limit must be between 1 and 1000")
  let _ ← getWorkflow workflowID db
  pure (historyPage db' workflowID afterRevision limit)

/-- `Server.getHistory` with the query's numbers; its three statements see the states `db₁`, `db₂`
    and `db₃`. -/
def getHistory (workflowID : String) (afterRevision limit : Int) (db₁ db₂ db₃ : DB) :
    Except RequestError HistoryResponse := do
  rejectIf (afterRevision < 0) (.invalidRequest "after_revision must be a non-negative integer")
  rejectIf (limit < 0 ∨ limit = 0 ∨ 1000 < limit) (.invalidRequest "limit must be between 1 and 1000")
  let workflow ← (getWorkflow workflowID db₁).mapError .repository
  rejectIf (workflow.revision < afterRevision) (.staleRevision workflow.revision)
  let entries ← (listHistory workflowID afterRevision limit db₂ db₃).mapError .repository
  pure ⟨workflowID, entries,
    if (entries.length : Int) = limit then entries.getLast?.map (·.key.revision) else none⟩

-- ============================================================================
-- Histories grow
-- ============================================================================

/-- No workflow goes away, and each history is only added to. -/
structure HistoryGrows (db db' : DB) : Prop where
  workflow : ∀ id w, db.workflows.get id = some w → ∃ w', db'.workflows.get id = some w'
  history : ∀ id, db.historyOf id <+: db'.historyOf id

theorem HistoryGrows.refl (db : DB) : HistoryGrows db db :=
  ⟨fun _ w h => ⟨w, h⟩, fun _ => List.prefix_refl _⟩

theorem HistoryGrows.trans {a b c : DB} (hab : HistoryGrows a b) (hbc : HistoryGrows b c) :
    HistoryGrows a c where
  workflow id w h := by
    obtain ⟨w', h'⟩ := hab.workflow id w h
    exact hbc.workflow id w' h'
  history id := (hab.history id).trans (hbc.history id)

theorem HistoryGrows.of_eq {db db' : DB} (hw : db'.workflows = db.workflows) (hh : db'.history = db.history) :
    HistoryGrows db db' where
  workflow id w h := ⟨w, hw ▸ h⟩
  history id := by
    rw [DB.historyOf, DB.historyOf, hh]

theorem historyOf_prefix {db db' : DB} {row : TransitionRecord} (h : Inserted db.history row db'.history)
    (id : String) : db.historyOf id <+: db'.historyOf id := by
  rw [historyOf_insert h]
  split
  · exact List.prefix_append _ _
  · exact List.prefix_refl _

theorem HistoryGrows.of_change {db db' : DB} {α : Type} {op : Op α} (h : Change db op db') :
    HistoryGrows db db' := by
  obtain ⟨hw, hh⟩ | ⟨w, row, hw, hh, -⟩ | ⟨w, newState, row, hm⟩ := h.history_cases
  · exact .of_eq hw hh
  · exact ⟨fun _ w' h' => ⟨w', Table.get_insert_of_get hw h'⟩, historyOf_prefix hh⟩
  · refine ⟨fun id w' h' => ?_, historyOf_prefix hm.history⟩
    rw [hm.get_workflow]
    split
    · exact ⟨_, rfl⟩
    · exact ⟨w', h'⟩

theorem HistoryGrows.of_step {env : Env} {w w' : World} {events : List Event}
    (h : World.Step env w events w') : HistoryGrows w.db w'.db := by
  cases h with
  | tick => exact .of_eq rfl rfl
  | commit _ _ _ _ _ h _ => exact .of_change (Op.run_commit h).change
  | relay _ _ _ h =>
      rw [h.frame]
      exact .of_eq rfl rfl
  | consumer _ _ _ h =>
      rw [h.frame]
      exact .of_eq rfl rfl
  | effect _ _ _ h =>
      rw [h.frame]
      exact .of_eq rfl rfl

theorem HistoryGrows.of_run {env : Env} {w w' : World} {trace : List Event}
    (h : World.Run env w trace w') : HistoryGrows w.db w'.db :=
  h.relates (R := fun w w' => HistoryGrows w.db w'.db) (fun _ => .refl _) (fun _ _ _ => .trans)
    (fun _ _ _ => .of_step)

-- ============================================================================
-- Pages of a complete history
-- ============================================================================

/-- Behind revision `c` a list with the revisions 1, 2, ... is the list without its first `c` rows. -/
theorem filter_behind {rows : List TransitionRecord}
    (h : rows.map (·.key.revision) = (List.range rows.length).map (fun i : Nat => (i : Int) + 1)) (c : Nat) :
    rows.filter (fun row => (c : Int) < row.key.revision) = rows.drop c := by
  induction rows using List.reverseRecOn with
  | nil => simp
  | append_singleton rows row ih =>
      rw [List.map_append, List.length_append, List.length_singleton, List.range_succ, List.map_append] at h
      obtain ⟨hrows, hrow⟩ := List.append_inj' h (by simp)
      have hrev : row.key.revision = (rows.length : Int) + 1 := by simpa using hrow
      rw [List.filter_append, ih hrows]
      by_cases hc : c ≤ rows.length
      · rw [List.drop_append_of_le_length hc, List.filter_cons_of_pos (by rw [hrev]; simp; omega),
          List.filter_nil]
      · rw [List.drop_of_length_le (by omega), List.drop_of_length_le (by simp; omega),
          List.filter_cons_of_neg (by rw [hrev]; simp; omega), List.filter_nil, List.append_nil]

theorem sorted_of_revisions {rows : List TransitionRecord}
    (h : rows.map (·.key.revision) = (List.range rows.length).map (fun i : Nat => (i : Int) + 1)) :
    rows.Pairwise (fun row row' => row.key.revision ≤ row'.key.revision) := by
  have hpairwise : (rows.map (·.key.revision)).Pairwise (· ≤ ·) := by
    rw [h, List.pairwise_map]
    exact List.pairwise_lt_range.imp (fun hlt => by omega)
  exact List.pairwise_map.mp hpairwise

/-- The page behind `c` is cut out of the history. -/
theorem historyPage_eq {db : DB} {id : String} {w : Workflow} (h : HistoryChain (db.historyOf id) w) (c : Nat)
    (limit : Int) : historyPage db id c limit = ((db.historyOf id).drop c).take limit.toNat := by
  have hsorted := (sorted_of_revisions h.revisions).sublist (List.drop_sublist c _)
  rw [historyPage, filter_behind h.revisions, hsorted.insertionSort_eq]

/-- The revision of the last of the first `n` rows. -/
theorem revision_last {rows : List TransitionRecord}
    (h : rows.map (·.key.revision) = (List.range rows.length).map (fun i : Nat => (i : Int) + 1)) {i : Nat}
    (hi : i < rows.length) : rows[i].key.revision = (i : Int) + 1 := by
  have hget := congrArg (fun l : List Int => l[i]?) h
  simpa [hi] using hget

/-- A request behind a prefix of the history goes through and cuts out the next page. -/
theorem getHistory_ok {id : String} {limit : Int} {c : Nat} {db₁ db₂ db₃ : DB} {w₁ w₂ w₃ : Workflow}
    (hlimit : 1 ≤ limit ∧ limit ≤ 1000) (h₁ : db₁.workflows.get id = some w₁)
    (h₂ : db₂.workflows.get id = some w₂) (hcursor : (c : Int) ≤ w₁.revision)
    (h₃ : HistoryChain (db₃.historyOf id) w₃) :
    ∃ next, getHistory id c limit db₁ db₂ db₃ =
        .ok ⟨id, ((db₃.historyOf id).drop c).take limit.toNat, next⟩ ∧
      (c + limit.toNat ≤ (db₃.historyOf id).length → next = some ((c : Int) + limit)) ∧
      ((db₃.historyOf id).length < c + limit.toNat → next = none) := by
  have hpage := historyPage_eq h₃ c limit
  have hlist : listHistory id c limit db₂ db₃ = .ok (((db₃.historyOf id).drop c).take limit.toNat) := by
    rw [listHistory, rejectIf_of_not _ (by omega), rejectIf_of_not _ (by omega), getWorkflow, h₂, hpage]
    rfl
  refine ⟨if ((((db₃.historyOf id).drop c).take limit.toNat).length : Int) = limit then
      (((db₃.historyOf id).drop c).take limit.toNat).getLast?.map (·.key.revision) else none, ?_, ?_, ?_⟩
  · rw [getHistory, rejectIf_of_not _ (by omega), rejectIf_of_not _ (by omega), getWorkflow, h₁, hlist]
    simp only [getOr_some, Except.mapError, ok_bind, rejectIf_of_not _ (Int.not_lt.mpr hcursor)]
    rfl
  · intro hfull
    have hlength : (((db₃.historyOf id).drop c).take limit.toNat).length = limit.toNat := by
      rw [List.length_take, List.length_drop]
      omega
    rw [if_pos (by rw [hlength]; omega), List.getLast?_eq_getElem?, hlength, List.getElem?_take_of_lt (by omega),
      List.getElem?_drop, List.getElem?_eq_getElem (by omega), Option.map_some, revision_last h₃.revisions]
    exact congrArg some (by omega)
  · intro hshort
    have hlength : (((db₃.historyOf id).drop c).take limit.toNat).length < limit.toNat := by
      rw [List.length_take, List.length_drop]
      omega
    rw [if_neg (by omega)]

-- ============================================================================
-- Walks
-- ============================================================================

/-- A request, the workflow it found, and its answer. -/
structure Exchange where
  after : Int
  current : Workflow
  answer : Except RequestError HistoryResponse

/-- A request while the world goes on between its statements. -/
def Asked (env : Env) (id : String) (limit : Int) (w : World) (after : Int) (x : Exchange) (w' : World) : Prop :=
  ∃ t₁ t₂ t₃ w₁ w₂, World.Run env w t₁ w₁ ∧ World.Run env w₁ t₂ w₂ ∧ World.Run env w₂ t₃ w' ∧
    x.after = after ∧ w₁.db.workflows.get id = some x.current ∧
    x.answer = getHistory id after limit w₁.db w₂.db w'.db

/-- A client that follows `next_after_revision` from `after`. -/
inductive Walk (env : Env) (id : String) (limit : Int) : World → Int → List Exchange → World → Prop where
  | start (w : World) (after : Int) : Walk env id limit w after [] w
  | refused {w w' : World} {after : Int} {x : Exchange} {e : RequestError} (h : Asked env id limit w after x w')
      (answer : x.answer = .error e) : Walk env id limit w after [x] w'
  | last {w w' : World} {after : Int} {x : Exchange} {r : HistoryResponse}
      (h : Asked env id limit w after x w') (answer : x.answer = .ok r) (next : r.nextAfterRevision = none) :
      Walk env id limit w after [x] w'
  | more {w w' w'' : World} {after n : Int} {x : Exchange} {xs : List Exchange} {r : HistoryResponse}
      (h : Asked env id limit w after x w') (answer : x.answer = .ok r)
      (next : r.nextAfterRevision = some n) (walk : Walk env id limit w' n xs w'') :
      Walk env id limit w after (x :: xs) w''

/-- The rows of an answer. -/
def Exchange.entries (x : Exchange) : List TransitionRecord :=
  match x.answer with
  | .ok r => r.entries
  | .error _ => []

/-- The last answer has no cursor. -/
def Ended (xs : List Exchange) : Prop :=
  ∃ x ∈ xs.getLast?, ∃ r, x.answer = .ok r ∧ r.nextAfterRevision = none

/-- What a walk that starts behind `c` rows has gathered when the world has reached `w'`. -/
structure Gathers (id : String) (limit : Int) (w : World) (c : Nat) (xs : List Exchange) (w' : World) :
    Prop where
  grown : w.db.historyOf id <+: w'.db.historyOf id
  answered : ∀ x ∈ xs, ∃ r, x.answer = .ok r ∧
    (r.nextAfterRevision = none ↔ (r.entries.length : Int) < limit)
  entries : xs.flatMap Exchange.entries <+: (w'.db.historyOf id).drop c
  cursors : xs.Pairwise (fun x y => x.after < y.after)
  behind : ∀ x ∈ xs, (c : Int) ≤ x.after
  covered : Ended xs → (w.db.historyOf id).length ≤ c + (xs.flatMap Exchange.entries).length ∧
    ∀ x ∈ xs, x.current.revision ≤ (c + (xs.flatMap Exchange.entries).length : Nat)

theorem run_gets {env : Env} {id : String} {w w' : World} {t : List Event} (h : World.Run env w t w')
    {wf : Workflow} (hwf : w.db.workflows.get id = some wf) : ∃ wf', w'.db.workflows.get id = some wf' :=
  (HistoryGrows.of_run h).workflow id wf hwf

/-- A request of a walk is answered with the page behind its cursor. -/
theorem Asked.answered {env : Env} {id : String} {limit : Int} {w w' : World} {c : Nat} {x : Exchange}
    (h : Asked env id limit w c x w') (hlimit : 1 ≤ limit ∧ limit ≤ 1000) (hw : HistoryComplete w.db)
    (hc : c ≤ (w.db.historyOf id).length) :
    x.after = c ∧ x.current.revision ≤ (w'.db.historyOf id).length ∧
    w.db.historyOf id <+: w'.db.historyOf id ∧ HistoryComplete w'.db ∧
    ∃ next, x.answer = .ok ⟨id, ((w'.db.historyOf id).drop c).take limit.toNat, next⟩ ∧
      (c + limit.toNat ≤ (w'.db.historyOf id).length → next = some ((c : Int) + limit)) ∧
      ((w'.db.historyOf id).length < c + limit.toNat → next = none) := by
  obtain ⟨t₁, t₂, t₃, w₁, w₂, run₁, run₂, run₃, hafter, hcurrent, hanswer⟩ := h
  have hw₁ := run₁.historyComplete hw
  have hw₃ := run₃.historyComplete (run₂.historyComplete hw₁)
  obtain ⟨wf₂, hwf₂⟩ := run_gets run₂ hcurrent
  obtain ⟨wf₃, hwf₃⟩ := run_gets run₃ hwf₂
  have hgrow₁ := (HistoryGrows.of_run run₁).history id
  have hgrow₃ := (((HistoryGrows.of_run run₂).trans (.of_run run₃)).history id)
  have hrevision := (hw₁.chain id _ hcurrent).revision
  have hle := hgrow₁.length_le
  refine ⟨hafter, ?_, hgrow₁.trans hgrow₃, hw₃, ?_⟩
  · have hle₃ := hgrow₃.length_le
    omega
  · rw [hanswer]
    exact getHistory_ok hlimit hcurrent hwf₂ (by omega) (hw₃.chain id wf₃ hwf₃)

theorem Walk.historyComplete {env : Env} {id : String} {limit : Int} {w w' : World} {after : Int}
    {xs : List Exchange} (h : Walk env id limit w after xs w') (hw : HistoryComplete w.db) :
    HistoryComplete w'.db := by
  have hasked : ∀ {w w' : World} {after : Int} {x : Exchange}, Asked env id limit w after x w' →
      HistoryComplete w.db → HistoryComplete w'.db := by
    rintro w w' after x ⟨t₁, t₂, t₃, w₁, w₂, run₁, run₂, run₃, -⟩ hw
    exact run₃.historyComplete (run₂.historyComplete (run₁.historyComplete hw))
  induction h with
  | start => exact hw
  | refused h => exact hasked h hw
  | last h => exact hasked h hw
  | more h _ _ _ ih => exact ih (hasked h hw)

/-- A page that is not full ends the walk, and a full one does not. -/
theorem next_eq_none_iff {rows : List TransitionRecord} {c : Nat} {limit : Int} {next : Option Int}
    (hlimit : 1 ≤ limit) (hc : c ≤ rows.length)
    (hfull : c + limit.toNat ≤ rows.length → next = some ((c : Int) + limit))
    (hshort : rows.length < c + limit.toNat → next = none) :
    next = none ↔ (((rows.drop c).take limit.toNat).length : Int) < limit := by
  rw [List.length_take, List.length_drop]
  by_cases h : c + limit.toNat ≤ rows.length
  · rw [hfull h]
    exact ⟨fun h => (nomatch h), fun h => by omega⟩
  · rw [hshort (by omega)]
    exact ⟨fun _ => by omega, fun _ => rfl⟩

theorem Walk.gathers {env : Env} {id : String} {limit : Int} {w w' : World} {after : Int} {xs : List Exchange}
    (h : Walk env id limit w after xs w') (hlimit : 1 ≤ limit ∧ limit ≤ 1000) {c : Nat} (hafter : after = c)
    (hw : HistoryComplete w.db) (hc : c ≤ (w.db.historyOf id).length) : Gathers id limit w c xs w' := by
  induction h generalizing c with
  | start w after =>
      exact ⟨List.prefix_refl _, fun _ hx => (nomatch hx), List.nil_prefix, .nil, fun _ hx => (nomatch hx),
        fun hended => by obtain ⟨x, hx, -⟩ := hended; cases hx⟩
  | refused h answer =>
      subst hafter
      obtain ⟨-, -, -, -, next, hanswer, -⟩ := h.answered hlimit hw hc
      cases answer.symm.trans hanswer
  | @last w w' after x r h answer hnone =>
      subst hafter
      obtain ⟨hx, hcurrent, hgrown, -, next, hanswer, hfull, hshort⟩ := h.answered hlimit hw hc
      cases answer.symm.trans hanswer
      have hle := hgrown.length_le
      have hstopped := next_eq_none_iff hlimit.1 (by omega) hfull hshort
      have hentries : [x].flatMap Exchange.entries = ((w'.db.historyOf id).drop c).take limit.toNat := by
        rw [List.flatMap_singleton, Exchange.entries, answer]
      have hlength : c + ([x].flatMap Exchange.entries).length = (w'.db.historyOf id).length := by
        have hlt := hstopped.mp hnone
        rw [hentries]
        rw [List.length_take, List.length_drop] at hlt ⊢
        omega
      refine ⟨hgrown, fun y hy => ?_, hentries ▸ List.take_prefix _ _, List.pairwise_singleton _ _,
        fun y hy => ?_, fun _ => ⟨hlength ▸ hle, fun y hy => ?_⟩⟩
      all_goals rw [List.mem_singleton.mp hy]
      · exact ⟨_, answer, hstopped⟩
      · exact le_of_eq hx.symm
      · rw [hlength]
        exact hcurrent
  | @more w w' w'' after n x xs r h answer hsome walk ih =>
      subst hafter
      obtain ⟨hx, hcurrent, hgrown, hw', next, hanswer, hfull, hshort⟩ := h.answered hlimit hw hc
      cases answer.symm.trans hanswer
      have hle := hgrown.length_le
      have hstopped := next_eq_none_iff hlimit.1 (by omega) hfull hshort
      -- the page is full, so the next request starts behind it
      have hroom : c + limit.toNat ≤ (w'.db.historyOf id).length := by
        by_contra hlt
        exact nomatch (hshort (by omega)).symm.trans hsome
      have hn : n = ((c + limit.toNat : Nat) : Int) := by
        have heq : (c : Int) + limit = n := Option.some.inj ((hfull hroom).symm.trans hsome)
        omega
      have hrest := ih hn hw' hroom
      have hpage : ((w''.db.historyOf id).drop c).take limit.toNat =
          ((w'.db.historyOf id).drop c).take limit.toNat := by
        obtain ⟨later, hlater⟩ := hrest.grown
        rw [← hlater, List.drop_append_of_le_length (by omega), List.take_append_of_le_length]
        rw [List.length_drop]
        omega
      have hentries : (x :: xs).flatMap Exchange.entries =
          ((w''.db.historyOf id).drop c).take limit.toNat ++ xs.flatMap Exchange.entries := by
        rw [List.flatMap_cons, hpage, Exchange.entries, answer]
      have hle'' := hrest.grown.length_le
      have hlength : ((x :: xs).flatMap Exchange.entries).length =
          limit.toNat + (xs.flatMap Exchange.entries).length := by
        rw [hentries, List.length_append, List.length_take, List.length_drop]
        omega
      refine ⟨hgrown.trans hrest.grown, ?_, ?_, ?_, ?_, fun hended => ?_⟩
      · intro y hy
        obtain rfl | hy := List.mem_cons.mp hy
        · exact ⟨_, answer, hstopped⟩
        · exact hrest.answered y hy
      · rw [hentries]
        have hbehind := hrest.entries
        rw [← List.drop_drop] at hbehind
        have hsplit := List.take_append_drop limit.toNat ((w''.db.historyOf id).drop c)
        rw [← hsplit, List.take_append_of_le_length (by rw [List.length_take, List.length_drop]; omega),
          List.take_take, Nat.min_self]
        exact (List.prefix_append_right_inj _).mpr hbehind
      · refine List.pairwise_cons.mpr ⟨fun y hy => ?_, hrest.cursors⟩
        have hy := hrest.behind y hy
        omega
      · intro y hy
        obtain rfl | hy := List.mem_cons.mp hy
        · omega
        · have hy := hrest.behind y hy
          omega
      · have hended' : Ended xs := by
          obtain ⟨y, hy, r, hr, hnone⟩ := hended
          cases xs with
          | nil =>
              cases Option.mem_def.mp hy
              cases answer.symm.trans hr
              exact nomatch hsome.symm.trans hnone
          | cons z zs => exact ⟨y, by rwa [List.getLast?_cons_cons] at hy, r, hr, hnone⟩
        obtain ⟨hcovered, hall⟩ := hrest.covered hended'
        refine ⟨by omega, fun y hy => ?_⟩
        obtain rfl | hy := List.mem_cons.mp hy
        · omega
        · have hy := hall y hy
          omega

/-- What a client has that follows the cursor from 0. -/
structure PagesComplete (id : String) (limit : Int) (xs : List Exchange) (w' : World) : Prop where
  answered : ∀ x ∈ xs, ∃ r, x.answer = .ok r ∧
    (r.nextAfterRevision = none ↔ (r.entries.length : Int) < limit)
  rows : xs.flatMap Exchange.entries <+: w'.db.historyOf id
  revisions : (xs.flatMap Exchange.entries).map (·.key.revision) =
    (List.range (xs.flatMap Exchange.entries).length).map (fun i : Nat => (i : Int) + 1)
  cursors : xs.Pairwise (fun x y => x.after < y.after)
  covered : Ended xs → ∀ x ∈ xs, x.current.revision ≤ ((xs.flatMap Exchange.entries).length : Nat)

/-- The first rows of a history have its first revisions. -/
theorem revisions_of_prefix {db : DB} (h : HistoryComplete db) {id : String} {rows : List TransitionRecord}
    (hrows : rows <+: db.historyOf id) :
    rows.map (·.key.revision) = (List.range rows.length).map (fun i : Nat => (i : Int) + 1) := by
  have hall : (db.historyOf id).map (·.key.revision) =
      (List.range (db.historyOf id).length).map (fun i : Nat => (i : Int) + 1) := by
    cases hget : db.workflows.get id with
    | none => rw [h.orphan id hget]; rfl
    | some w => exact (h.chain id w hget).revisions
  obtain ⟨later, hlater⟩ := hrows
  have htake := congrArg (List.take rows.length) hall
  rw [← hlater, List.map_append, List.take_left' (List.length_map _), List.length_append,
    ← List.map_take, List.take_range, Nat.min_eq_left (Nat.le_add_right _ _)] at htake
  exact htake

/-- Following the cursor from 0 gives the revisions 1, 2, ... once each and in order, no request is
    refused, and the walk ends at a page that is not full with everything its requests could see. -/
theorem history_pages {env : Env} {now limit : Int} {trace : List Event} {w w' : World} {id : String}
    {xs : List Exchange} (hrun : World.Run env (World.start now) trace w) (hlimit : 1 ≤ limit ∧ limit ≤ 1000)
    (hwalk : Walk env id limit w 0 xs w') : PagesComplete id limit xs w' := by
  have hstart : HistoryComplete (World.start now).db := ⟨fun _ _ hget => (nomatch hget), fun _ _ => rfl⟩
  have hw : HistoryComplete w.db := hrun.historyComplete hstart
  have h := hwalk.gathers hlimit (c := 0) rfl hw (Nat.zero_le _)
  have hrows := h.entries
  rw [List.drop_zero] at hrows
  refine ⟨h.answered, hrows, revisions_of_prefix (hwalk.historyComplete hw) hrows, h.cursors, fun hended x hx => ?_⟩
  have hcovered := (h.covered hended).2 x hx
  rwa [Nat.zero_add] at hcovered

/-- A request that is answered after others have written. -/
theorem Asked.after {env : Env} {id : String} {limit : Int} {w w' : World} {trace : List Event} (after : Int)
    {wf : Workflow} (hrun : World.Run env w trace w') (hwf : w'.db.workflows.get id = some wf) :
    Asked env id limit w after ⟨after, wf, getHistory id after limit w'.db w'.db w'.db⟩ w' :=
  ⟨trace, [], [], w', w', hrun, .refl, .refl, rfl, hwf, rfl⟩

/-- A page of one row leads to the page after it. -/
def showsRow (db : DB) (after : Int) : Bool :=
  (db.workflows.get "w").isSome && (getHistory "w" after 1 db db db).toOption.any (fun r =>
    decide (r.nextAfterRevision = some (after + 1) ∧ r.entries.length = 1))

theorem Walk.showsRow {w w' w'' : World} {trace : List Event} {after : Int} {xs : List Exchange}
    (hrun : World.Run .plain w trace w') (hshown : showsRow w'.db after = true)
    (hwalk : Walk .plain "w" 1 w' (after + 1) xs w'') :
    ∃ x, Walk .plain "w" 1 w after (x :: xs) w'' ∧ x.entries.length = 1 := by
  simp only [Api.showsRow, Bool.and_eq_true, Option.isSome_iff_exists, Option.any_eq_true,
    decide_eq_true_eq] at hshown
  obtain ⟨⟨wf, hwf⟩, r, hr, hnext, hone⟩ := hshown
  refine ⟨_, .more (Asked.after after hrun hwf) (toOption_eq_some hr) hnext hwalk, ?_⟩
  rw [Exchange.entries, toOption_eq_some hr]
  exact hone

/-- Three pages of one row; a second and a third row are written between the requests. -/
theorem history_pages_forked : ∃ (w₀ w : World) (xs : List Exchange), (w₀.db.historyOf "w").length = 1 ∧
    Walk .plain "w" 1 w₀ 0 xs w ∧ Ended xs ∧ (xs.flatMap Exchange.entries).length = 3 ∧ PagesComplete "w" 1 xs w := by
  have hrun : (World.moves? .plain 0 (forkedScript.take 3) (World.start 0)).any (fun r₀ =>
      decide ((r₀.2.db.historyOf "w").length = 1) && showsRow r₀.2.db 0 &&
      (World.moves? .plain 3 [.call (.advanceGraph forkAdvance)] r₀.2).any (fun r₁ => showsRow r₁.2.db 1 &&
      (World.moves? .plain 4 [.call (.cancelWorkflow ⟨soloLease, "w", 2, "scheduler"⟩)] r₁.2).any (fun r₂ =>
        showsRow r₂.2.db 2 && (r₂.2.db.workflows.get "w").isSome &&
        (getHistory "w" 3 1 r₂.2.db r₂.2.db r₂.2.db).toOption.any (fun a =>
          decide (a.nextAfterRevision = none ∧ a.entries.length = 0))))) = true := by
    decide +kernel
  simp only [Option.any_eq_true, Bool.and_eq_true, decide_eq_true_eq, Option.isSome_iff_exists] at hrun
  obtain ⟨⟨_, w₀⟩, hstart, ⟨hone, hfirst⟩, ⟨_, w₁⟩, hadvance, hsecond, ⟨_, w₂⟩, hcancel, ⟨hthird, wf, hwf⟩,
    a, ha, hlast, hnone⟩ := hrun
  have hend : Walk .plain "w" 1 w₂ 3 [_] w₂ := .last (Asked.after 3 .refl hwf) (toOption_eq_some ha) hlast
  obtain ⟨x₂, hwalk₂, hlen₂⟩ := hend.showsRow (World.run_of_moves? hcancel) hthird
  obtain ⟨x₁, hwalk₁, hlen₁⟩ := hwalk₂.showsRow (World.run_of_moves? hadvance) hsecond
  obtain ⟨x₀, hwalk₀, hlen₀⟩ := hwalk₁.showsRow .refl hfirst
  refine ⟨w₀, w₂, _, hone, hwalk₀, ⟨_, rfl, a, toOption_eq_some ha, hlast⟩, ?_,
    history_pages (World.run_of_moves? hstart) (by decide) hwalk₀⟩
  simp only [List.flatMap_cons, List.flatMap_nil, List.length_append, hlen₀, hlen₁, hlen₂, List.length_nil]
  rw [Exchange.entries, toOption_eq_some ha, hnone]

end DurableEngine.Api
