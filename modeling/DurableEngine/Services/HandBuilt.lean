/-
  DurableEngine.Services.HandBuilt

  JSON texts put together with `%q`.

  Payloads, errors and details are formatted with Go's quoting.  They are
  JSON, and read as the strings they were made of, exactly for strings whose
  characters JSON spells as Go does or has the escape for (`hand_built_iff`).
  The result of a failed driver and the dispatch of an attempt are two of
  them: with any other string their transaction does not commit.
-/

import DurableEngine.Engine.Consumption
import DurableEngine.Lib.JsonValue
import DurableEngine.Services.Demand
import DurableEngine.State.Claims
import DurableEngine.State.Quoting

namespace DurableEngine.Services

open Lib State Engine

-- ============================================================================
-- The property
-- ============================================================================

/-- The value fits 64 bits. -/
def FitsInt64 (i : Int) : Prop := -(2 ^ 63) ≤ i ∧ i < 2 ^ 63

/-- The result `executeAttempt` submits when the driver fails with `message`. -/
def errorResult (e : Engine) (definitionNode : Node) (k : AttemptKey) (claimToken message : String) :
    ResultInput :=
  let outcome := e.driverOutcome definitionNode (.error message)
  ⟨k.node.workflowID, k.node.nodeID, k.node.iteration, k.number, claimToken, outcome.1, outcome.2.1,
    "activity.result", ""⟩

/-- The error is recorded as the retryable failure of the attempt. -/
def RecordsError (e : Engine) (definitionNode : Node) (amb : Ambient) (k : AttemptKey)
    (claimToken message : String) (db : DB) : Prop :=
  ∃ r db' a document,
    recordResultReceipt amb (errorResult e definitionNode k claimToken message) db = .ok (r, db') ∧
      db'.attempts.get k = some a ∧ a.state = .failedRetryable ∧ a.result = some document ∧
      document.doc = .obj [("error", .str message)]

/-- Whoever runs the attempt holds it, in a workflow that goes on. -/
structure Running (db : DB) (k : AttemptKey) (claimToken : String) : Prop where
  workflow : ∃ w, db.workflows.get k.node.workflowID = some w ∧ w.state.isTerminal = false
  held : HoldsClaim db k claimToken

/-- The scheduler may create the node's next attempt. -/
structure Schedulable (input : AttemptInput) (db : DB) : Prop where
  actor : input.actorID ≠ ""
  workflow : ∃ w, Owned db input.lease input.workflowID w ∧ w.revision = input.expectedRevision ∧
    w.state = .waitingActivity ∧ definitionClass db w input.nodeID = .ok input.effectClass
  identity : ∃ key scope, effectIdentity db input input.effectClass = .ok (key, scope) ∧
    ¬ (input.effectClass = .cooperating ∧ key = "")
  node : ∃ n, db.nodes.get input.key = some n ∧ n.state = .waitingActivity ∧ n.currentAttempt.getD 0 = 0
  iteration : FitsInt64 input.iteration
  number : FitsInt64 (db.maxAttempt input.key + 1)

/-- The attempt is created, and `RuntimeActivity` reads its dispatch payload. -/
def Dispatches (env : Env) (amb : Ambient) (input : AttemptInput) (db : DB) : Prop :=
  ∃ a db' event task, createAttempt env amb input db = .ok (a, db') ∧
    db'.outbox.get amb.eventID = some event ∧ event.eventType = "attempt.dispatch" ∧
    unmarshalTask (.json event.payload.doc) = some task ∧ task.key = a.key

/-- The text of an object in which `s` is quoted under `name` is JSON, and the member is `s`. -/
def Spells (env : Env) (s : String) (fields : List (String × Field)) (name : String) : Prop :=
  ∃ ms, readDocument (sprintfText env fields) = some (.obj ms) ∧ lastBinding ms name = some (.str s)

/-- Wherever the string is quoted, the text is JSON and says the string. -/
structure HandBuilt (env : Env) (s : String) : Prop where
  objects : ∀ before after name, (∀ f ∈ before ++ after, PlainName f.1 ∧ f.2.quotable env = true) →
    PlainName name → name ∉ after.map Prod.fst → Spells env s (before ++ (name, .quoted s) :: after) name
  errors : ∀ e : Engine, e.env = env → ∀ definitionNode amb k claimToken db, Reachable env db →
    Running db k claimToken → amb.Fresh db → RecordsError e definitionNode amb k claimToken s db
  dispatches : ∀ amb input db, Reachable env db → Schedulable input db → input.nodeID = s → amb.Fresh db →
    Dispatches env amb input db

-- ============================================================================
-- Objects
-- ============================================================================

theorem lastBinding_append {α : Type} {before after : List (String × α)} {name : String} {v : α}
    (h : name ∉ after.map Prod.fst) : lastBinding (before ++ (name, v) :: after) name = some v := by
  induction before with
  | nil =>
      simp only [List.nil_append, lastBinding, lastBinding_eq_none_iff.mpr h, Option.none_or, if_true]
  | cons m before ih =>
      obtain ⟨l, x⟩ := m
      simp only [List.cons_append, lastBinding, ih, Option.some_or]

/-- One string decides whether a text with readable fields around it is JSON. -/
theorem spells_iff {env : Env} {s name : String} {before after : List (String × Field)}
    (hothers : ∀ f ∈ before ++ after, PlainName f.1 ∧ f.2.quotable env = true) (hname : PlainName name)
    (hlast : name ∉ after.map Prod.fst) :
    Spells env s (before ++ (name, .quoted s) :: after) name ↔ quotable env s = true := by
  have hall : (before ++ (name, Field.quoted s) :: after).all (fun f => f.2.quotable env) =
      quotable env s := by
    rw [List.all_append, List.all_cons]
    have hbefore : before.all (fun f => f.2.quotable env) = true :=
      List.all_eq_true.mpr (fun f hf => (hothers f (List.mem_append_left _ hf)).2)
    have hafter : after.all (fun f => f.2.quotable env) = true :=
      List.all_eq_true.mpr (fun f hf => (hothers f (List.mem_append_right _ hf)).2)
    rw [hbefore, hafter, Bool.true_and, Bool.and_true]
    rfl
  have hnames : ∀ f ∈ before ++ (name, Field.quoted s) :: after, PlainName f.1 := by
    intro f hf
    rcases List.mem_append.mp hf with hf | hf
    · exact (hothers f (List.mem_append_left _ hf)).1
    · rcases List.mem_cons.mp hf with rfl | hf
      · exact hname
      · exact (hothers f (List.mem_append_right _ hf)).1
  rw [Spells, readDocument_sprintfText env hnames (by simp), hall]
  cases quotable env s with
  | false => simp
  | true =>
      refine ⟨fun _ => rfl, fun _ => ⟨_, rfl, ?_⟩⟩
      rw [List.map_append, List.map_cons]
      refine lastBinding_append ?_
      rw [List.map_map]
      exact hlast

-- ============================================================================
-- Driver errors
-- ============================================================================

theorem driverOutcome_error (e : Engine) (definitionNode : Node) (message : String) :
    (e.driverOutcome definitionNode (.error message)).1 = .failedRetryable ∧
      (e.driverOutcome definitionNode (.error message)).2.1 = e.errorPayload message := by
  have hpayload : (e.errorPayload message).orEmptyObject = e.errorPayload message := by
    unfold errorPayload
    split <;> rfl
  refine ⟨rfl, ?_⟩
  rw [← hpayload]
  rfl

theorem errorPayload_stored {e : Engine} {message : String} (h : quotable e.env message = true) :
    ∃ document, (e.errorPayload message).toJsonb = some document ∧
      document.doc = .obj [("error", .str message)] := by
  have hok : Json.jsonbOK (.obj [("error", .str message)]) = true := by
    have hname : Json.textOK "error" = true := by decide
    simp only [Json.jsonbOK, JsonTree.all, JsonTree.allMembers, textOK_of_quotable h, hname, Bool.true_and]
  rw [errorPayload, if_pos h]
  exact ⟨_, Jsonb.ofJson?_of_ok hok, rfl⟩

/-- The first result of a running attempt is accepted when its document can be stored. -/
theorem recordResultReceipt_succeeds {env : Env} {amb : Ambient} {db : DB} (hdb : Reachable env db)
    {input : ResultInput} (hrunning : Running db input.key input.claimToken) (hfresh : amb.Fresh db)
    (hterm : input.attemptState.isTerminal = true) (hevent : input.eventType = "activity.result")
    (hvalid : input.payload.orEmptyObject.valid = true) {document : Jsonb}
    (hstored : input.payload.orEmptyObject.toJsonb = some document) :
    Succeeds (fun r => ∃ a, r.2.attempts.get input.key = some a ∧ a.state = input.attemptState ∧
      a.result = some document) (recordResultReceipt amb input db) := by
  obtain ⟨⟨w, hw, hlive⟩, n, a, token, hn, hpointer, ha, hcurrent, hclaimed, htoken, hheld⟩ := hrunning
  have hshape := hdb.attemptShape ha
  obtain ⟨-, worker, -, -, hworker, -, -, hname, -⟩ := hshape.held (.inl hclaimed)
  have hlate : a.isLateEvidence = false := by
    simp [Attempt.isLateEvidence, hclaimed]
  unfold recordResultReceipt
  refine .unless ?_ (.unless (by simp [hterm]) (.unless (by rw [hevent]; decide) (.unless (by simp [hvalid])
    (.found hw (.found hn (.found htoken (.found ha (.unless (by simp [hheld]) ?_))))))))
  · rintro (hempty | hempty | hempty)
    · exact (hdb.provided.workflow _ w hw).1 hempty
    · exact (hdb.provided.node _ n hn).1 hempty
    · rw [hempty] at htoken
      cases htoken
  unfold settleResult
  rw [if_neg (by simp [hcurrent]), if_neg (by simp [hlate])]
  refine .unless (by simp [hlive]) (.unless (by simp [hpointer, hcurrent, hclaimed]; rfl) (.found hstored ?_))
  refine .bind (insertHistory_succeeds ?_ ?_) ?_
  · rw [hworker]
    exact hname
  · exact hdb.history_free hw
  rintro db₂ ⟨history, rfl⟩
  refine .bind (insertOutbox_succeeds (by rw [hevent]; rfl) rfl hfresh.event) ?_
  rintro db₃ ⟨outbox, rfl⟩
  let settle (a : Attempt) : Attempt := { a with
    state := input.attemptState
    outcomeDisposition := if input.attemptState = .succeeded then .knownSuccess else .none
    result := some document
    isCurrent := false }
  have hrow := Table.get_modify_of_get ha settle (fun _ => rfl) input.key
  rw [if_pos rfl] at hrow
  exact .ok ⟨settle a, hrow, rfl, rfl⟩

/-- A driver's error is recorded exactly when its text can be quoted. -/
theorem recordsError_iff {e : Engine} {definitionNode : Node} {amb : Ambient} {k : AttemptKey}
    {claimToken message : String} {db : DB} (hdb : Reachable e.env db) (hrunning : Running db k claimToken)
    (hfresh : amb.Fresh db) :
    RecordsError e definitionNode amb k claimToken message db ↔ quotable e.env message = true := by
  obtain ⟨hstate, hpayload⟩ := driverOutcome_error e definitionNode message
  constructor
  · rintro ⟨r, db', a, document, hrun, -⟩
    simp only [recordResultReceipt, bind_eq_ok, rejectIf_eq_ok, exists_const] at hrun
    have hvalid := hrun.2.2.2.1
    by_contra hnot
    simp [errorResult, hpayload, errorPayload, hnot, RawMessage.orEmptyObject, RawMessage.valid] at hvalid
  · intro hquotable
    obtain ⟨document, hstored, hdoc⟩ := errorPayload_stored hquotable
    have hjson : e.errorPayload message = .json (.obj [("error", .str message)]) := if_pos hquotable
    have hstored' : (errorResult e definitionNode k claimToken message).payload.orEmptyObject.toJsonb = some document := by
      rw [hjson] at hstored
      simp only [errorResult, hpayload, hjson]
      exact hstored
    have hrunning' : Running db (errorResult e definitionNode k claimToken message).key
        (errorResult e definitionNode k claimToken message).claimToken := hrunning
    obtain ⟨⟨r, db'⟩, hrun, a, ha, hsettled, hresult⟩ := recordResultReceipt_succeeds hdb hrunning' hfresh
      (by simp only [errorResult, hstate]; rfl) rfl (by simp only [errorResult, hpayload, hjson]; rfl) hstored'
    exact ⟨r, db', a, document, hrun, ha, hsettled.trans hstate, hresult, hdoc⟩

-- ============================================================================
-- Dispatches
-- ============================================================================

theorem toInt?_toNumeric_ofInt64 {i : Int} (h : FitsInt64 i) :
    (JsonNumber.ofInt64 i).toNumeric.toInt? = some i := by
  obtain ⟨hlow, hhigh⟩ := h
  have hmod : i.natAbs % 2 ^ 64 = i.natAbs := Nat.mod_eq_of_lt (by omega)
  have hnumeric : (JsonNumber.ofInt64 i).toNumeric = ⟨decide (i < 0), i.natAbs, 0, none⟩ := by
    simp only [JsonNumber.toNumeric, JsonNumber.ofInt64, JsonNumber.exp_mk_none, hmod]
    by_cases hneg : i < 0
    · have hne : i.natAbs ≠ 0 := by omega
      simp [hneg, hne]
    · simp [hneg]
  rw [hnumeric]
  have hvalue : (if decide (i < 0) = true then -(i.natAbs : Int) else i.natAbs) = i := by
    by_cases hneg : i < 0
    · rw [if_pos (decide_eq_true hneg)]
      omega
    · rw [if_neg (by simpa using hneg)]
      omega
  unfold JsonNumber.toInt?
  rw [if_pos ⟨rfl, rfl⟩]
  dsimp only
  rw [hvalue, if_pos ⟨hlow, hhigh⟩]

/-- The members of a dispatch payload as the column gives them back. -/
theorem jsonb_dispatch (k : NodeKey) (number : Int) :
    Json.jsonb (.obj [("workflow_id", .str k.workflowID), ("node_id", .str k.nodeID),
      ("iteration", .num (.ofInt64 k.iteration)), ("attempt_number", .num (.ofInt64 number))]) =
    .obj [("node_id", .str k.nodeID), ("iteration", .num (JsonNumber.ofInt64 k.iteration).toNumeric),
      ("workflow_id", .str k.workflowID), ("attempt_number", .num (JsonNumber.ofInt64 number).toNumeric)] := by
  -- the order of the members does not depend on their values
  let value : Fin 4 → Json := fun i =>
    [.str k.workflowID, .str k.nodeID, .num (JsonNumber.ofInt64 k.iteration).toNumeric,
      .num (JsonNumber.ofInt64 number).toNumeric].get i
  have hsorted : normalize [("workflow_id", (0 : Fin 4)), ("node_id", 1), ("iteration", 2), ("attempt_number", 3)] =
      [("node_id", 1), ("iteration", 2), ("workflow_id", 0), ("attempt_number", 3)] := by decide +kernel
  have hnormal := normalize_map value [("workflow_id", 0), ("node_id", 1), ("iteration", 2), ("attempt_number", 3)]
  rw [hsorted] at hnormal
  exact congrArg JsonTree.obj hnormal

/-- `RuntimeActivity` reads the payload of a dispatch. -/
theorem unmarshalTask_dispatch {env : Env} {k : NodeKey} {number : Int} {document : Jsonb}
    (h : dispatchPayload env k number = some document) (hiteration : FitsInt64 k.iteration)
    (hnumber : FitsInt64 number) :
    ∃ task, unmarshalTask (.json document.doc) = some task ∧ task.key = ⟨k, number⟩ := by
  unfold dispatchPayload sprintfJson at h
  split at h
  · have hdoc := (Jsonb.doc_of_ofJson? h).trans (jsonb_dispatch k number)
    rw [hdoc]
    let ms : List (String × Json) := [("node_id", .str k.nodeID),
      ("iteration", .num (JsonNumber.ofInt64 k.iteration).toNumeric), ("workflow_id", .str k.workflowID),
      ("attempt_number", .num (JsonNumber.ofInt64 number).toNumeric)]
    have hworkflow : field storeString "" "workflow_id" ms = some k.workflowID := by
      simp +decide [field, fieldValues, ms, storeString]
    have hnode : field storeString "" "node_id" ms = some k.nodeID := by
      simp +decide [field, fieldValues, ms, storeString]
    have hname : field storeString "" "activity_name" ms = some "" := by simp +decide [field, fieldValues, ms]
    have hversion : field storeString "" "activity_version" ms = some "" := by
      simp +decide [field, fieldValues, ms]
    have hiteration : field storeInt 0 "iteration" ms = some k.iteration := by
      simp +decide [field, fieldValues, ms, storeInt, toInt?_toNumeric_ofInt64 hiteration]
    have hnumber : field storeInt 0 "attempt_number" ms = some number := by
      simp +decide [field, fieldValues, ms, storeInt, toInt?_toNumeric_ofInt64 hnumber]
    refine ⟨⟨k.workflowID, k.nodeID, k.iteration, number, "", "", rawField "input" ms⟩, ?_, rfl⟩
    simp only [unmarshalTask, structMembers, Option.bind_eq_bind, Option.bind_some]
    rw [hworkflow, hnode, hiteration, hnumber, hname, hversion]
    rfl
  · cases h

/-- A node without a current attempt takes its next one. -/
theorem insertAttempt_succeeds {env : Env} {db : DB} (hdb : Reachable env db) {context : String} {a : Attempt}
    {n : NodeInstance} (hn : db.nodes.get a.key.node = some n) (hfree : n.currentAttempt.getD 0 = 0)
    (hnext : a.key.number = db.maxAttempt a.key.node + 1) :
    Succeeds (fun db' => ∃ attempts, db' = { db with attempts := attempts }) (insertAttempt db context a) := by
  obtain ⟨N, hN⟩ := hdb.generation a.key.node
  have hidle : ∀ m b, db.attempts.get ⟨a.key.node, m⟩ = some b → b.isCurrent = false := by
    intro m b hb
    by_contra hcurrent
    have hpointer := hN.current m b hb (by simpa using hcurrent)
    have hpositive := hN.pointer m hpointer
    rw [pointer_of_get hn] at hpointer
    rw [hpointer, Option.getD_some] at hfree
    omega
  have hnew : db.attempts.get a.key = none := by
    by_contra hsome
    obtain ⟨b, hb⟩ := Option.ne_none_iff_exists'.mp hsome
    have hle := ((hN.numbers a.key.number).mp ⟨b, hb⟩).2
    rw [hnext, hN.maxAttempt] at hle
    omega
  obtain ⟨attempts, hins⟩ := Table.insert?_of_get_none hnew
  refine .unless ?_ (.found hins (.ok ⟨attempts, rfl⟩))
  rintro ⟨-, b, hmem, hnode, hcurrent⟩
  have hb := hidle b.key.number b (by rw [← hnode]; exact Table.get_of_mem hmem)
  rw [hb] at hcurrent
  cases hcurrent

/-- The event of a transaction, with its payload. -/
theorem insertOutbox_row {amb : Ambient} {db : DB} {workflowID : String} {revision : Int}
    {eventType topic : String} {document : Jsonb} (htopic : eventTopicFor eventType = some topic)
    (hfree : db.outbox.get amb.eventID = none) :
    Succeeds (fun db' => ∃ event, db'.outbox.get amb.eventID = some event ∧ event.eventType = eventType ∧
      event.payload = document) (insertOutbox amb db workflowID revision eventType (some document)) := by
  obtain ⟨outbox, hins⟩ := Table.insert?_of_get_none (r := (⟨amb.eventID, workflowID, revision, eventType,
    topic, document, .pending, 1, 0, none, none, db.now, none, db.now, none⟩ : OutboxEvent)) hfree
  exact .found htopic (.found rfl (.found hins (.ok ⟨_, Table.get_insert_self hins, rfl, rfl⟩)))

/-- An attempt is dispatched exactly when the name of its node can be quoted. -/
theorem dispatches_iff {env : Env} {amb : Ambient} {input : AttemptInput} {db : DB} (hdb : Reachable env db)
    (h : Schedulable input db) (hfresh : amb.Fresh db) :
    Dispatches env amb input db ↔ quotable env input.nodeID = true := by
  constructor
  · rintro ⟨a, db', event, task, hrun, -⟩
    exact createAttempt_named hrun
  · intro hquotable
    obtain ⟨w, hown, hrevision, hstate, hclass⟩ := h.workflow
    obtain ⟨key, scope, hidentity, hkey⟩ := h.identity
    obtain ⟨n, hn, hwaiting, hfree⟩ := h.node
    have hworkflow := hdb.provided.workflow _ w hown.get
    obtain ⟨document, hdocument⟩ : ∃ document, dispatchPayload env input.key (db.maxAttempt input.key + 1) =
        some document := by
      refine sprintfJson_of_quotable (by simp; decide) ?_
      simp only [List.forall_mem_cons, Field.quotable, List.not_mem_nil]
      exact ⟨hworkflow.2, hquotable, by simp⟩
    obtain ⟨task, htask, htaskKey⟩ := unmarshalTask_dispatch hdocument h.iteration h.number
    have hrun : Succeeds (fun r => r.1.key = ⟨input.key, db.maxAttempt input.key + 1⟩ ∧
        ∃ event, r.2.outbox.get amb.eventID = some event ∧ event.eventType = "attempt.dispatch" ∧
          event.payload = document) (createAttempt env amb input db) := by
      unfold createAttempt
      refine .unless ?_ ?_
      · rintro (hempty | hempty | hempty)
        · exact hworkflow.1 hempty
        · exact (hdb.provided.node _ n hn).1 hempty
        · exact h.actor hempty
      rw [← hrevision, lockOwnedWorkflow_of_owned hown]
      refine .unless (by simp [hstate]) ?_
      rw [hclass]
      refine .unless (by simp) ?_
      rw [hidentity]
      refine .unless hkey (.found hn (.unless (by simp [hwaiting]) (.unless (by simp [hfree]) ?_)))
      refine .bind (insertAttempt_succeeds hdb hn hfree rfl) ?_
      rintro db₁ ⟨attempts, rfl⟩
      refine .bind (insertHistory_succeeds h.actor (hdb.history_free hown.get)) ?_
      rintro db₂ ⟨history, rfl⟩
      rw [hdocument]
      exact .bind (insertOutbox_row rfl hfresh.event) (fun db₃ hevent => .ok ⟨rfl, hevent⟩)
    obtain ⟨⟨a, db'⟩, hok, ha, event, hevent, htype, hpayload⟩ := hrun
    exact ⟨a, db', event, task, hok, hevent, htype, by rw [hpayload]; exact htask, by rw [htaskKey, ha]⟩

-- ============================================================================
-- The claim
-- ============================================================================

/-- Texts quoted with `%q` are JSON, and read as the strings they were made of, exactly for strings
    whose characters JSON spells as Go does or has the escape for. -/
theorem hand_built_iff (env : Env) (s : String) : HandBuilt env s ↔ quotable env s = true := by
  constructor
  · intro h
    have hspells := h.objects [] [] "error" (by simp) (by decide) List.not_mem_nil
    exact (spells_iff (by simp) (by decide) List.not_mem_nil).mp hspells
  · intro h
    refine ⟨fun before after name hothers hname hlast => (spells_iff hothers hname hlast).mpr h, ?_, ?_⟩
    · rintro e rfl definitionNode amb k claimToken db hdb hrunning hfresh
      exact (recordsError_iff hdb hrunning hfresh).mpr h
    · rintro amb input db hdb hinput rfl hfresh
      exact (dispatches_iff hdb hinput hfresh).mpr h

/-- A bell character is quoted as `\a`. -/
theorem hand_built_not_json :
    ¬ (∀ (env : Env) (s : String), HandBuilt env s) ∧
      readDocument (sprintfText .plain [("error", .quoted "\x07")]) = none := by
  have htext : readDocument (sprintfText .plain [("error", .quoted "\x07")]) = none := by decide +kernel
  refine ⟨fun h => ?_, htext⟩
  obtain ⟨ms, hread, -⟩ := (h .plain "\x07").objects [] [] "error" (by simp) (by decide) List.not_mem_nil
  rw [List.nil_append, htext] at hread
  cases hread

end DurableEngine.Services
