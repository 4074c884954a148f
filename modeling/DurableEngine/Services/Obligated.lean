/-
  DurableEngine.Services.Obligated

  What obligations are about.  An obligation is written for a row that is
  stored: it names a stored workflow or is global poison of the transport, and
  that of an event names a stored event and its workflow.  Only the upsert
  takes these from its caller, so the passes of the reconcilers are judged by
  what they pass to it.
-/

import DurableEngine.Invariants.Transport
import DurableEngine.Services.References
import DurableEngine.Services.Wakeups

namespace DurableEngine.Services

open Lib State

-- ============================================================================
-- Grounds
-- ============================================================================

/-- What an obligation under the key, of the workflow or of none, is about is stored. -/
structure Grounded (db : DB) (k : ReconciliationKey) (workflowID : Option String) : Prop where
  reference : k.reference ≠ ""
  workflow : ∀ id, workflowID = some id → ∃ wf, db.workflows.get id = some wf
  global : workflowID = none → k.kind = .poisonRecord ∧ ∃ rest, k.reference = "transport/" ++ rest
  pending : k.kind = .pendingOutbox → ∀ id, k.reference = "outbox/" ++ id →
    ∃ o, db.outbox.get id = some o ∧ workflowID = some o.workflowID
  poison : k.kind = .poisonRecord → ∀ name, k.reference = "outbox/" ++ name →
    ∃ id o, uuidText name = some id ∧ db.outbox.get id = some o ∧ workflowID = some o.workflowID

/-- Workflows and events stay, and events those of their workflows. -/
structure Grows (db db' : DB) : Prop where
  workflows : ∀ id wf, db.workflows.get id = some wf → ∃ wf', db'.workflows.get id = some wf'
  outbox : ∀ id o, db.outbox.get id = some o →
    ∃ o', db'.outbox.get id = some o' ∧ o'.workflowID = o.workflowID

theorem Grows.refl (db : DB) : Grows db db := ⟨fun _ wf hwf => ⟨wf, hwf⟩, fun _ o ho => ⟨o, ho, rfl⟩⟩

theorem Grows.of_eq {db db' : DB} (hworkflows : db'.workflows = db.workflows) (houtbox : db'.outbox = db.outbox) :
    Grows db db' :=
  ⟨fun _ wf hwf => ⟨wf, hworkflows ▸ hwf⟩, fun _ o ho => ⟨o, houtbox ▸ ho, rfl⟩⟩

theorem Grows.trans {a b c : DB} (h : Grows a b) (h' : Grows b c) : Grows a c where
  workflows id wf hwf := by
    obtain ⟨wf', hwf'⟩ := h.workflows id wf hwf
    exact h'.workflows id wf' hwf'
  outbox id o ho := by
    obtain ⟨o', ho', hsame⟩ := h.outbox id o ho
    obtain ⟨o'', ho'', hsame'⟩ := h'.outbox id o' ho'
    exact ⟨o'', ho'', hsame'.trans hsame⟩

theorem Grounded.mono {db db' : DB} {k : ReconciliationKey} {workflowID : Option String}
    (h : Grounded db k workflowID) (hgrows : Grows db db') : Grounded db' k workflowID where
  reference := h.reference
  workflow id hid := by
    obtain ⟨wf, hwf⟩ := h.workflow id hid
    exact hgrows.workflows id wf hwf
  global := h.global
  pending hkind id hid := by
    obtain ⟨o, ho, hworkflow⟩ := h.pending hkind id hid
    obtain ⟨o', ho', hsame⟩ := hgrows.outbox id o ho
    exact ⟨o', ho', by rw [hworkflow, hsame]⟩
  poison hkind name hname := by
    obtain ⟨id, o, hid, ho, hworkflow⟩ := h.poison hkind name hname
    obtain ⟨o', ho', hsame⟩ := hgrows.outbox id o ho
    exact ⟨id, o', hid, ho', by rw [hworkflow, hsame]⟩

/-- Obligations stay those of their workflows, and the new ones have their grounds in `db'`. -/
structure Obliges (db db' : DB) : Prop where
  kept : ∀ k r, db.reconciliation.get k = some r →
    ∃ r', db'.reconciliation.get k = some r' ∧ r'.workflowID = r.workflowID
  origin : ∀ k r', db'.reconciliation.get k = some r' → db.reconciliation.get k = none →
    Grounded db' k r'.workflowID

/-- The event has a poison obligation under some spelling of its id. -/
def Obliged (db : DB) (id : String) : Prop :=
  ∃ name r, uuidText name = some id ∧ db.reconciliation.get ⟨.poisonRecord, "outbox/" ++ name⟩ = some r

/-- A step that leaves the obligations in order: events are quarantined together with one. -/
structure Tracks (db db' : DB) : Prop where
  grows : Grows db db'
  obliges : Obliges db db'
  refused : ∀ id o', db'.outbox.get id = some o' → o'.publishState = .quarantined →
    (∃ o, db.outbox.get id = some o ∧ o.publishState = .quarantined) ∨ Obliged db' id

/-- Every obligation has its grounds, and every quarantined event an obligation. -/
structure Tracked (db : DB) : Prop where
  grounded : ∀ k r, db.reconciliation.get k = some r → Grounded db k r.workflowID
  obliged : ∀ id o, db.outbox.get id = some o → o.publishState = .quarantined → Obliged db id

theorem Tracked.step {db db' : DB} (h : Tracked db) (hs : Tracks db db') : Tracked db' where
  grounded k r' hr' := by
    cases hr : db.reconciliation.get k with
    | none => exact hs.obliges.origin k r' hr' hr
    | some r =>
        obtain ⟨r'', hr'', hworkflow⟩ := hs.obliges.kept k r hr
        rw [hr', Option.some.injEq] at hr''
        subst hr''
        rw [hworkflow]
        exact (h.grounded k r hr).mono hs.grows
  obliged id o' ho' hstate := by
    obtain ⟨o, ho, hbefore⟩ | hobliged := hs.refused id o' ho' hstate
    · obtain ⟨name, r, hname, hr⟩ := h.obliged id o ho hbefore
      obtain ⟨r', hr', -⟩ := hs.obliges.kept _ r hr
      exact ⟨name, r', hname, hr'⟩
    · exact hobliged

-- ============================================================================
-- Writes
-- ============================================================================

section Writes

variable {db db' : DB}

theorem Obliges.of_map {f : ReconciliationItem → ReconciliationItem} (hf : ∀ r, (f r).workflowID = r.workflowID)
    (h : ∀ k, db'.reconciliation.get k = (db.reconciliation.get k).map f) : Obliges db db' where
  kept k r hr := ⟨f r, by rw [h, hr]; rfl, hf r⟩
  origin k r' hr' hnone := by
    rw [h, hnone] at hr'
    cases hr'

theorem Obliges.of_eq (h : db'.reconciliation = db.reconciliation) : Obliges db db' :=
  .of_map (f := id) (fun _ => rfl) (fun k => by rw [h, Option.map_id]; rfl)

/-- An update of rows that keep their workflow. -/
theorem Obliges.of_update {p : ReconciliationItem → Bool} {f : ReconciliationItem → ReconciliationItem}
    (h : ∀ k, db'.reconciliation.get k = (db.reconciliation.get k).map (fun r => if p r then f r else r))
    (hf : ∀ r, (f r).workflowID = r.workflowID) : Obliges db db' := by
  refine .of_map (fun r => ?_) h
  split
  · exact hf r
  · rfl

/-- The obligation is inserted, or its detail refreshed. -/
inductive Refreshes (db db' : DB) (item : ReconciliationItem) : Prop where
  | inserted (h : Inserted db.reconciliation item db'.reconciliation)
  | refreshed (r : ReconciliationItem) (detail : Jsonb) (stored : db.reconciliation.get item.key = some r)
      (h : ∀ k, db'.reconciliation.get k = (db.reconciliation.get k).map
        (fun r => if r.key = item.key then { r with detail := detail } else r))

theorem Refreshes.stored {item : ReconciliationItem} (h : Refreshes db db' item) :
    ∃ r, db'.reconciliation.get item.key = some r := by
  cases h with
  | inserted h => exact ⟨_, Table.get_insert_self h⟩
  | refreshed r detail stored h => exact ⟨_, by rw [h, stored]; rfl⟩

theorem Refreshes.obliges {item : ReconciliationItem} (h : Refreshes db db' item)
    (hgrounded : Grounded db' item.key item.workflowID) : Obliges db db' := by
  cases h with
  | inserted h =>
      refine ⟨fun k r hr => ⟨r, Table.get_insert_of_get h hr, rfl⟩, fun k r' hr' hnone => ?_⟩
      rw [Table.get_insert h] at hr'
      split at hr'
      next hkey =>
        cases hr'
        rw [hkey]
        exact hgrounded
      next =>
        rw [hnone] at hr'
        cases hr'
  | refreshed r detail _ h =>
      refine .of_update (p := fun r => decide (r.key = item.key)) (f := fun r => { r with detail := detail })
        (fun k => ?_) (fun _ => rfl)
      simp only [decide_eq_true_eq]
      exact h k

theorem refreshes_of_match {item : ReconciliationItem} (detail : Jsonb)
    (h : (∃ items, db.reconciliation.insert? item = some items ∧ db'.reconciliation = items) ∨
      db.reconciliation.insert? item = none ∧ db'.reconciliation =
        db.reconciliation.modify item.key (fun r => { r with detail := detail }) (fun _ => rfl)) :
    Refreshes db db' item := by
  obtain ⟨items, hins, heq⟩ | ⟨hnone, heq⟩ := h
  · exact .inserted (heq ▸ hins)
  · obtain ⟨r, hr⟩ := Table.get_of_insert?_none hnone
    refine .refreshed r detail hr (fun k => ?_)
    rw [heq, Table.modify, Table.get_update]
    simp only [decide_eq_true_eq]

theorem openPoisonRecord_refreshes {reference : String} {workflowID : Option String}
    {partitionID : Option Int} {detail : Jsonb}
    (h : db.openPoisonRecord reference workflowID partitionID detail = db') :
    Refreshes db db' ⟨⟨.poisonRecord, reference⟩, workflowID, partitionID, none, none, none, .open, detail⟩ := by
  subst h
  unfold DB.openPoisonRecord
  dsimp only
  split
  next items hins => exact refreshes_of_match detail (.inl ⟨items, hins, rfl⟩)
  next hnone => exact refreshes_of_match detail (.inr ⟨hnone, rfl⟩)

theorem openExpiredAttempt_refreshes (db : DB) (w : Workflow) (input : TimeoutInput) (detail : Jsonb) :
    Refreshes db (openExpiredAttempt db w input detail) ⟨⟨.expiredAttempt, attemptReference input.key⟩,
      some input.workflowID, some w.partitionID, some input.nodeID, some input.iteration,
      some input.attemptNumber, .open, detail⟩ := by
  unfold openExpiredAttempt
  dsimp only
  split
  next items hins => exact refreshes_of_match detail (.inl ⟨items, hins, rfl⟩)
  next hnone => exact refreshes_of_match detail (.inr ⟨hnone, rfl⟩)

theorem Refreshes.congr {db₁ db₁' : DB} {item : ReconciliationItem} (h : Refreshes db db' item)
    (hbefore : db₁.reconciliation = db.reconciliation) (hafter : db₁'.reconciliation = db'.reconciliation) :
    Refreshes db₁ db₁' item := by
  cases h with
  | inserted h => exact .inserted (by rw [hbefore, hafter]; exact h)
  | refreshed r detail stored h =>
      exact .refreshed r detail (by rw [hbefore]; exact stored) (by rw [hbefore, hafter]; exact h)

end Writes

-- ============================================================================
-- Operations of the store
-- ============================================================================

section Operations

variable {env : Env} {amb : Ambient} {α : Type} {op : Op α} {a : α} {db db' : DB}

theorem grows_of_commit (h : op.run env amb db = .ok (a, db')) : Grows db db' where
  workflows id wf hwf := by
    obtain ⟨wf', hwf', -⟩ := (kept_of_commit h).workflows id wf hwf
    exact ⟨wf', hwf'⟩
  outbox id o ho := ⟨o, outbox_get_of_commit h ho, rfl⟩

theorem obliges_of_timeout {input : TimeoutInput} {r : TimeoutResult}
    (h : timeoutAttempt env amb input db = .ok (r, db')) : Obliges db db' := by
  cases (timeoutAttempt_step h).1 with
  | redispatched w a deadline c => exact .of_eq c.obligations
  | replaced w n a deadline c => exact .of_eq c.obligations
  | expired w a c =>
      obtain ⟨detail, hitems⟩ := c.obligations
      obtain ⟨row, hmoves, -⟩ := c.advances.moves
      refine ((openExpiredAttempt_refreshes db w input detail).congr rfl hitems).obliges ?_
      refine ⟨fun hempty => ?_, ?_, fun hnone => (by cases hnone), fun hkind => (by cases hkind),
        fun hkind => (by cases hkind)⟩
      · have hchars := congrArg String.toList hempty
        simp [attemptReference] at hchars
      · rintro id heq
        obtain rfl := Option.some.inj heq
        rw [hmoves.get_workflow, c.workflow, if_pos rfl]
        exact ⟨_, rfl⟩

theorem obliges_of_commit (h : op.run env amb db = .ok (a, db')) : Obliges db db' := by
  have hframe := (Op.run_commit h).frame
  cases op with
  | acknowledgeWorkflowWakeups lease id revision =>
      simp only [Op.run, acknowledgeWorkflowWakeups, bind_eq_ok, pure_eq_ok] at h
      obtain ⟨-, -, heq⟩ := h
      cases heq
      exact .of_update (fun k => Table.get_update _ _ _ (by intro _; rfl) k) (fun _ => rfl)
  | applyOwnerTransition input =>
      obtain ⟨w, row, current, timer, c, -⟩ := applyOwnerTransition_owner h
      cases timer with
      | none => exact .of_eq c.obligations
      | some t =>
          have hupdate := fun k => (congrArg (fun items => items.get k) c.obligations).trans
            (Table.get_update _ _ _ (by intro _; rfl) k)
          exact .of_update hupdate (fun _ => rfl)
  | timeoutAttempt input => exact obliges_of_timeout h
  | _ => exact .of_eq (by rw [hframe]; rfl)

theorem tracks_of_commit (h : op.run env amb db = .ok (a, db')) : Tracks db db' := by
  refine ⟨grows_of_commit h, obliges_of_commit h, fun id o' ho' hstate => ?_⟩
  obtain ho | hnew := outbox_new_of_commit h ho'
  · exact .inl ⟨o', ho, hstate⟩
  · rw [hnew.pending] at hstate
    cases hstate

end Operations

-- ============================================================================
-- Relays and consumers
-- ============================================================================

section Transport

variable {env : Env} {db db' : DB}

theorem Tracks.of_eq (hworkflows : db'.workflows = db.workflows) (houtbox : db'.outbox = db.outbox)
    (hitems : db'.reconciliation = db.reconciliation) : Tracks db db' :=
  ⟨.of_eq hworkflows houtbox, .of_eq hitems, fun _ o' ho' hstate => .inl ⟨o', houtbox ▸ ho', hstate⟩⟩

theorem grows_of_rewrites {id : String} {o o' : OutboxEvent} (h : Rewrites db db' id o o')
    (hsame : o'.workflowID = o.workflowID) : Grows db db' where
  workflows k wf hwf := ⟨wf, by rw [h.frame]; exact hwf⟩
  outbox k x hx := by
    rw [h.outbox]
    split
    next hk =>
      rw [hk, h.row, Option.some.injEq] at hx
      subst hx
      exact ⟨o', rfl, hsame⟩
    next => exact ⟨x, hx, rfl⟩

/-- A row was written that is not quarantined now. -/
theorem tracks_of_rewrites {id : String} {o o' : OutboxEvent} (h : Rewrites db db' id o o')
    (hsame : o'.workflowID = o.workflowID) (hstate : o'.publishState ≠ .quarantined) (hobliges : Obliges db db') :
    Tracks db db' := by
  refine ⟨grows_of_rewrites h hsame, hobliges, fun k x hx hquarantined => ?_⟩
  rw [h.outbox] at hx
  split at hx
  next =>
    cases hx
    exact absurd hquarantined hstate
  next => exact .inl ⟨x, hx, hquarantined⟩

/-- A publication resolves obligations at most. -/
theorem obliges_of_finalize {input : FinalizeInput} {u : Unit}
    (h : finalizeOutboxPublication input db = .ok (u, db')) : Obliges db db' := by
  simp only [finalizeOutboxPublication, bind_eq_ok, rejectIf_eq_ok, getOr_eq_ok, exists_const] at h
  obtain ⟨-, id, -, o, -, h⟩ := h
  split at h
  next =>
    cases h
    exact .of_eq rfl
  next =>
    simp only [bind_eq_ok, rejectIf_eq_ok, exists_const] at h
    obtain ⟨-, h⟩ := h
    split at h <;> cases h
    · exact .of_update (fun k => Table.get_update _ _ _ (by intro _; rfl) k) (fun _ => rfl)
    · exact .of_eq rfl

theorem tracks_of_finalize {input : FinalizeInput} {u : Unit}
    (h : finalizeOutboxPublication input db = .ok (u, db')) : Tracks db db' := by
  obtain ⟨id, o, -, -, ⟨-, rfl⟩ | ⟨-, -, -, hrewrites⟩ | ⟨-, -, retryAt, hrewrites⟩⟩ :=
    finalizeOutboxPublication_eq_ok h
  · exact .of_eq rfl rfl rfl
  · exact tracks_of_rewrites hrewrites rfl (by simp [OutboxEvent.publish]) (obliges_of_finalize h)
  · exact tracks_of_rewrites hrewrites rfl (by simp [OutboxEvent.release]) (obliges_of_finalize h)

/-- A quarantine writes the obligation of its event under the id as it was spelled. -/
theorem tracks_of_quarantineOutbox {input : QuarantineOutboxInput} {u : Unit}
    (h : quarantineOutbox env input db = .ok (u, db')) : Tracks db db' := by
  obtain ⟨id', o', hid', -, hrewrites⟩ := quarantineOutbox_eq_ok h
  simp only [quarantineOutbox, bind_eq_ok, rejectIf_eq_ok, getOr_eq_ok, exists_const, pure_eq_ok, not_not] at h
  obtain ⟨-, id, hid, o, ho, w, hw, -, detail, -, heq⟩ := h
  rw [hid, Option.some.injEq] at hid'
  subst hid'
  have hrow := hrewrites.row
  rw [ho, Option.some.injEq] at hrow
  subst hrow
  have hgrows := grows_of_rewrites hrewrites rfl
  have hsnd : DB.openPoisonRecord _ _ _ _ _ = db' := congrArg Prod.snd heq
  have hrefreshes : Refreshes db db' _ := (openPoisonRecord_refreshes hsnd).congr rfl rfl
  have hgrounded : Grounded db' ⟨.poisonRecord, "outbox/" ++ input.eventID⟩ (some o.workflowID) := by
    obtain ⟨o', ho', hworkflow⟩ := hgrows.outbox id o ho
    refine ⟨fun hempty => ?_, ?_, fun hnone => (by cases hnone), fun hkind => (by cases hkind), ?_⟩
    · have hchars := congrArg String.toList hempty
      simp at hchars
    · rintro k heq
      obtain rfl := Option.some.inj heq
      exact hgrows.workflows _ w hw
    · rintro - name hname
      have hsame : input.eventID = name := (String.append_right_inj _).mp hname
      exact ⟨id, o', hsame ▸ hid, ho', by rw [hworkflow]⟩
  refine ⟨hgrows, hrefreshes.obliges hgrounded, fun k x hx hquarantined => ?_⟩
  rw [hrewrites.outbox] at hx
  split at hx
  next hk =>
    obtain ⟨r, hr⟩ := hrefreshes.stored
    exact .inr ⟨input.eventID, r, hk ▸ hid, hr⟩
  next => exact .inl ⟨x, hx, hquarantined⟩

theorem tracks_of_claimOutbox {input : ClaimOutboxInput} {locked : String → Bool} {events : List OutboxEvent}
    (h : claimOutbox input locked db = .ok (events, db')) : Tracks db db' := by
  obtain ⟨owner, outbox, -, hclaimed, rfl⟩ := claimOutbox_eq_ok h
  -- the row of an event is that of the claim, or it was not chosen
  have hrows : ∀ id, (∃ o, db.outbox.get id = some o ∧
      outbox.get id = some (o.claim owner (db.now + input.lease))) ∨ outbox.get id = db.outbox.get id := by
    intro id
    by_cases hchosen : ∃ e ∈ events, e.eventID = id
    · obtain ⟨e, he, rfl⟩ := hchosen
      obtain ⟨o, ho, -, heq, hget⟩ := hclaimed.chosen e he
      exact .inl ⟨o, ho, by rw [← heq]; exact hget⟩
    · exact .inr (hclaimed.other id (fun e he heq => hchosen ⟨e, he, heq⟩))
  refine ⟨⟨fun _ wf hwf => ⟨wf, hwf⟩, fun id o ho => ?_⟩, .of_eq rfl, fun id o' ho' hstate => .inl ?_⟩
  · obtain ⟨o₀, ho₀, hget⟩ | hsame := hrows id
    · rw [ho, Option.some.injEq] at ho₀
      subst ho₀
      exact ⟨_, hget, rfl⟩
    · exact ⟨o, hsame.trans ho, rfl⟩
  · obtain ⟨o₀, -, hget⟩ | hsame := hrows id
    · rw [show outbox.get id = some o' from ho', Option.some.injEq] at hget
      subst hget
      cases hstate
    · exact ⟨o', hsame.symm.trans ho', hstate⟩

theorem tracks_of_quarantineMessage {m : InboxMessage} {reason : String} {r : InboxResult}
    (h : quarantineMessage env m reason db = .ok (r, db')) : Tracks db db' := by
  have hframe := (quarantineMessage_eq_ok h).frame
  have hworkflows : db'.workflows = db.workflows := by rw [hframe]; rfl
  have houtbox : db'.outbox = db.outbox := by rw [hframe]; rfl
  simp only [quarantineMessage, bind_eq_ok, rejectIf_eq_ok, getOr_eq_ok, exists_const, pure_eq_ok] at h
  obtain ⟨-, -, detail, -, ⟨reply, advanced⟩, hadvance, heq⟩ := h
  generalize hworkflow : (if m.eventID = "" then none
    else (db.outbox.get m.eventID).bind (fun o => db.workflows.get o.workflowID)) = workflow at hadvance
  generalize hopened : DB.openPoisonRecord _ _ _ _ _ = opened at hadvance
  cases heq
  have hitems : advanced.reconciliation = opened.reconciliation := by
    rw [(advanceConsumerOffset_eq hadvance).1]
    rfl
  have hrefreshes : Refreshes db advanced _ := (openPoisonRecord_refreshes hopened).congr rfl hitems
  have hdelivery : ∃ rest, deliveryReference m = "transport/" ++ rest :=
    ⟨m.consumerID ++ "/" ++ m.topic ++ "/" ++ toString m.partition ++ "/" ++ toString m.offset, by
      simp only [deliveryReference, String.append_assoc]⟩
  have hgrounded : Grounded advanced ⟨.poisonRecord, deliveryReference m⟩ (workflow.map Workflow.workflowID) := by
    obtain ⟨rest, hrest⟩ := hdelivery
    refine ⟨fun hempty => ?_, fun id hid => ?_, fun _ => ⟨rfl, rest, hrest⟩, fun hkind => (by cases hkind),
      fun _ name hname => ?_⟩
    · have hchars := congrArg String.toList (hrest.symm.trans hempty)
      simp at hchars
    · obtain ⟨wf, rfl, rfl⟩ := Option.map_eq_some_iff.mp hid
      rw [hworkflows]
      split at hworkflow
      next => cases hworkflow
      next =>
        obtain ⟨o, -, hwf⟩ := Option.bind_eq_some_iff.mp hworkflow
        exact ⟨wf, by rw [Table.key_of_get hwf]; exact hwf⟩
    · exact absurd (hrest.symm.trans hname) (Invariants.transport_ne_outbox _ _)
  exact ⟨.of_eq hworkflows houtbox, hrefreshes.obliges hgrounded,
    fun _ o' ho' hstate => .inl ⟨o', houtbox ▸ ho', hstate⟩⟩

theorem Consumers.Step.tracks {events : List ConsumerEvent} (h : Consumers.Step env db events db') :
    Tracks db db' := by
  cases h with
  | ensure k nextOffset _ h =>
      obtain ⟨rfl, -⟩ | ⟨hframe, -, -⟩ := ensureConsumerOffset_eq_ok h
      · exact .of_eq rfl rfl rfl
      · exact .of_eq (by rw [hframe]; rfl) (by rw [hframe]; rfl) (by rw [hframe]; rfl)
  | record wakeupID m r _ h =>
      obtain ⟨id, o, hrecorded⟩ := recordInbox_eq_ok h
      exact .of_eq (by rw [hrecorded.frame]; rfl) (by rw [hrecorded.frame]; rfl) hrecorded.obligations
  | poison m reason r _ h => exact tracks_of_quarantineMessage h

theorem Relays.Step.tracks {s s' : Relays} {events : List RelayEvent} (h : Relays.Step env s events s') :
    Tracks s.db s'.db := by
  cases h with
  | claim config locked claimed db' h => exact tracks_of_claimOutbox h
  | reject before after config event rest db' _ _ h => exact tracks_of_quarantineOutbox h
  | publish | fail | lost => exact .of_eq rfl rfl rfl
  | finalize before after config event rest published input db' _ _ h => exact tracks_of_finalize h
  | quarantine input db' h => exact tracks_of_quarantineOutbox h
  | release input db' _ h => exact tracks_of_finalize h

theorem World.Step.tracks {w w' : World} {events : List Event} (h : World.Step env w events w') :
    Tracks w.db w'.db := by
  cases h with
  | tick _ d => exact .of_eq rfl rfl rfl
  | commit _ amb op a db' h _ => exact tracks_of_commit h
  | relay _ events s' h => exact h.tracks
  | consumer _ events db' h => exact h.tracks
  | effect _ events s' h => exact .of_eq (by rw [h.frame]) (by rw [h.frame]) (by rw [h.frame])

end Transport

-- ============================================================================
-- Calls of the reconcilers
-- ============================================================================

/-- What a reconciler passes to an upsert is about a stored row. -/
structure Founded (input : UpsertInput) (db : DB) : Prop where
  owned : ¬ input.global
  pending : input.kind = .pendingOutbox → ∀ id, input.reference = "outbox/" ++ id →
    ∃ o, db.outbox.get id = some o ∧ o.workflowID = input.workflowID
  poison : input.kind = .poisonRecord → ∃ rest, input.reference = "transport/" ++ rest

/-- The call, if it is an upsert, is founded. -/
def foundedCall : ∀ {β : Type}, ReconcilerCall β → DB → Prop
  | _, .store (.upsertReconciliationItem input), db => Founded input db
  | _, .store _, _ => True

/-- A call replies with what its transaction does. -/
def replies (env : Env) : ∀ {β : Type}, ReconcilerCall β → DB → β → DB → Prop
  | _, .store op, db, b, db' => ∃ amb oldestAge, (∃ a, op.run env amb oldestAge db = .ok (a, db') ∧ b = .ok a) ∨
      ∃ e, op.run env amb oldestAge db = .error e ∧ b = .error e ∧ db' = db

section Calls

variable {env : Env} {amb : Ambient} {oldestAge : Int} {α : Type} {op : ReconcileOp α} {a : α} {db db' : DB}

theorem tracks_of_upsert {input : UpsertInput} {item : ReconciliationItem}
    (h : upsertReconciliationItem input db = .ok (item, db')) (hfounded : Founded input db) : Tracks db db' := by
  simp only [upsertReconciliationItem, bind_eq_ok, rejectIf_eq_ok, getOr_eq_ok, exists_const] at h
  obtain ⟨hidentity, -, detail, -, -, -, h⟩ := h
  split at h
  next =>
    cases h
    exact ⟨.of_eq rfl rfl, .of_update (fun k => Table.get_update _ _ _ (by intro _; rfl) k) (fun _ => rfl),
      fun _ o' ho' hstate => .inl ⟨o', ho', hstate⟩⟩
  next =>
    simp only [bind_eq_ok, rejectIf_eq_ok, getOr_eq_ok, exists_const, pure_eq_ok] at h
    obtain ⟨hworkflow, items, hins, heq⟩ := h
    cases heq
    have howner : (input.row detail).workflowID = some input.workflowID := if_neg hfounded.owned
    have hrefreshes : Refreshes db { db with reconciliation := items } (input.row detail) := .inserted hins
    refine ⟨.of_eq rfl rfl, hrefreshes.obliges ?_,
      fun _ o' ho' hstate => .inl ⟨o', ho', hstate⟩⟩
    rw [howner]
    refine ⟨fun hempty => hidentity (.inr hempty), ?_, fun hnone => (by cases hnone), fun hkind id hid => ?_,
      fun hkind name hname => ?_⟩
    · rintro id heq
      obtain rfl := Option.some.inj heq
      exact Option.ne_none_iff_exists'.mp (fun hnone => hworkflow ⟨hfounded.owned, by rw [hnone]; rfl⟩)
    · obtain ⟨o, ho, hsame⟩ := hfounded.pending hkind id hid
      exact ⟨o, ho, by rw [hsame]⟩
    · obtain ⟨rest, hrest⟩ := hfounded.poison hkind
      exact absurd (hrest.symm.trans hname) (Invariants.transport_ne_outbox _ _)

theorem tracks_of_query {f : DB → Except Err α} (h : query f db = .ok (a, db')) : Tracks db db' := by
  simp only [query, bind_eq_ok, pure_eq_ok] at h
  obtain ⟨_, -, heq⟩ := h
  cases heq
  exact .of_eq rfl rfl rfl

/-- A call of a reconciler leaves the obligations in order if what it passes to an upsert is founded. -/
theorem tracks_of_reconcile (h : op.run env amb oldestAge db = .ok (a, db'))
    (hfounded : foundedCall (.store op) db) : Tracks db db' := by
  cases op with
  | timeoutAttempt input =>
      have hrun : (Op.timeoutAttempt input).run env amb db = .ok (a, db') := h
      exact tracks_of_commit hrun
  | upsertReconciliationItem input => exact tracks_of_upsert h hfounded
  | resolveReconciliationItem key status =>
      simp only [ReconcileOp.run, resolveReconciliationItem, bind_eq_ok, rejectIf_eq_ok, exists_const,
        pure_eq_ok] at h
      obtain ⟨-, -, heq⟩ := h
      cases heq
      exact ⟨.of_eq rfl rfl, .of_update (fun k => Table.get_update _ _ _ (by intro _; rfl) k) (fun _ => rfl),
        fun _ o' ho' hstate => .inl ⟨o', ho', hstate⟩⟩
  | checkBackpressure | listDueAttempts | listDueTimers | listPendingOutbox | listPendingWakeups
  | listTransportQuarantine | listReconciliationItems => exact tracks_of_query h

/-- Workflows and events stay whatever a reconciler does. -/
theorem grows_of_reconcile (h : op.run env amb oldestAge db = .ok (a, db')) : Grows db db' := by
  cases ReconcileOp.run_effect h with
  | timeout input r hrun => exact grows_of_commit hrun
  | upsert input item hrun =>
      obtain ⟨_, _, -, rfl⟩ | ⟨_, _, -, -, rfl⟩ := upsertReconciliationItem_eq_ok hrun <;> exact .of_eq rfl rfl
  | quiet _ frame _ => exact .of_eq (by rw [frame]) (by rw [frame])

/-- The world of a pass: workflows and events stay, and upserts are to be founded. -/
def passWorld (env : Env) : Prog.World ReconcilerCall DB where
  exec := replies env
  rely := Grows
  ok := foundedCall
  refl := .refl
  trans := .trans
  rely_of_exec := by
    intro β op db db' b h
    cases op with
    | store op =>
        obtain ⟨amb, oldestAge, ⟨a, hrun, -⟩ | ⟨e, -, -, rfl⟩⟩ := h
        · exact grows_of_reconcile hrun
        · exact .refl _

end Calls

-- ============================================================================
-- Passes
-- ============================================================================

section Passes

variable {env : Env} {α : Type} {db : DB}

theorem safe_reconcile {op : ReconcileOp α} {Q : α → DB → Prop}
    (hok : ∀ db', Grows db db' → foundedCall (.store op) db')
    (hq : ∀ db' amb oldestAge a db'' t, Grows db db' → op.run env amb oldestAge db' = .ok (a, db'') →
      Grows db'' t → Q a t) : SafeM (passWorld env) (reconcile op) db Q := by
  refine Prog.Safe.ofCall hok ?_
  rintro db' b db'' t hgrows ⟨amb, oldestAge, ⟨a, hrun, rfl⟩ | ⟨e, -, rfl, -⟩⟩ ht a' ha'
  · cases ha'
    exact hq db' amb oldestAge a db'' t hgrows hrun ht
  · cases ha'

/-- A call that is founded whatever it passes. -/
theorem safe_free {op : ReconcileOp α} (h : ∀ db', foundedCall (.store op) db') :
    SafeM (passWorld env) (reconcile op) db (fun _ _ => True) :=
  safe_reconcile (fun db' _ => h db') (fun _ _ _ _ _ _ _ _ _ => trivial)

/-- A listing returns what it found at some moment since. -/
theorem safe_listing {op : ReconcileOp α} {f : DB → Except Err α}
    (hrun : ∀ amb oldestAge db, op.run env amb oldestAge db = query f db)
    (h : ∀ db', foundedCall (.store op) db') : SafeM (passWorld env) (reconcile op) db
      (fun a t => ∃ db', Grows db' t ∧ f db' = .ok a) := by
  refine safe_reconcile (fun db' _ => h db') ?_
  intro db' amb oldestAge a db'' t _ hr ht
  rw [hrun] at hr
  simp only [query, bind_eq_ok, pure_eq_ok, Prod.mk.injEq] at hr
  obtain ⟨a', hf, rfl, rfl⟩ := hr
  exact ⟨db', ht, hf⟩

theorem safe_upsertAll {inputs : List UpsertInput}
    (h : ∀ input ∈ inputs, ∀ db', Grows db db' → Founded input db') :
    SafeM (passWorld env) (Reconciler.upsertAll inputs) db (fun _ _ => True) := by
  induction inputs generalizing db with
  | nil => exact .pure (fun _ _ => trivial)
  | cons input inputs ih =>
      refine .bind (safe_reconcile (Q := fun _ _ => True) (h input List.mem_cons_self)
        (fun _ _ _ _ _ _ _ _ _ => trivial)) (fun _ db₁ hgrows _ => ih ?_)
      exact fun input' hmem db' hdb' => h input' (List.mem_cons_of_mem _ hmem) db' (hgrows.trans hdb')

variable (r : Reconciler) {lease : LeaseRef} {actorID : String}

/-- An obligation of a partition is not global. -/
theorem not_global {input : UpsertInput} (h : 0 ≤ input.partitionID) : ¬ input.global :=
  fun hglobal => absurd hglobal.2 (by omega)

theorem founded_attemptItem {due : DueAttempt} {detail : RawMessage} (h : 0 ≤ due.partitionID) (db : DB) :
    Founded (Reconciler.attemptItem due detail) db :=
  ⟨not_global h, fun hkind => (by cases hkind), fun hkind => (by cases hkind)⟩

theorem safe_resolveItems (due : DueAttempt) (items : List ReconciliationItem) :
    SafeM (passWorld env) (Reconciler.resolveItems due items) db (fun _ _ => True) := by
  induction items generalizing db with
  | nil => exact .pure (fun _ _ => trivial)
  | cons item items ih =>
      unfold Reconciler.resolveItems
      split
      · exact .bind (safe_free (fun _ => trivial)) (fun _ _ _ _ => ih)
      · exact ih

theorem safe_timeOut {due : DueAttempt} (h : 0 ≤ due.partitionID) :
    SafeM (passWorld env) (r.timeOut lease actorID due) db (fun _ _ => True) := by
  have hupsert : ∀ {db : DB} {detail : RawMessage}, SafeM (passWorld env)
      (reconcile (.upsertReconciliationItem (Reconciler.attemptItem due detail))) db (fun _ _ => True) :=
    safe_reconcile (fun db' _ => founded_attemptItem h db') (fun _ _ _ _ _ _ _ _ _ => trivial)
  refine .bind hupsert (fun _ db₁ _ _ => .bind (Q := fun _ _ => True) ?_ (fun reply db₂ _ _ => ?_))
  · exact .lift (Prog.Safe.ofCall (fun _ _ => trivial) (fun _ _ _ _ _ _ _ => trivial))
  · cases reply with
    | error e =>
        dsimp only
        split
        · exact .pure (fun _ _ => trivial)
        · exact .throw
    | ok timeout =>
        refine .bind hupsert (fun _ db₃ _ _ => ?_)
        dsimp only
        split
        · refine .bind (safe_free (fun _ => trivial)) (fun items _ _ _ => ?_)
          exact .bind (safe_resolveItems due items) (fun _ _ _ _ => .pure (fun _ _ => trivial))
        · exact .pure (fun _ _ => trivial)

theorem safe_timeOutAll {dues : List DueAttempt} (h : ∀ due ∈ dues, 0 ≤ due.partitionID) :
    SafeM (passWorld env) (r.timeOutAll lease actorID dues) db (fun _ _ => True) := by
  induction dues generalizing db with
  | nil => exact .pure (fun _ _ => trivial)
  | cons due dues ih =>
      refine .bind (safe_timeOut r (h due List.mem_cons_self)) (fun _ _ _ _ => .bind (Q := fun _ _ => True) ?_ ?_)
      · exact ih (fun due' hmem => h due' (List.mem_cons_of_mem _ hmem))
      · exact fun _ _ _ _ => .pure (fun _ _ => trivial)

theorem partition_of_dueAttempts {p limit : Int} {dues : List DueAttempt}
    (h : listDueAttempts p limit db = .ok dues) : ∀ due ∈ dues, 0 ≤ due.partitionID := by
  simp only [listDueAttempts, bind_eq_ok, rejectIf_eq_ok, exists_const, pure_eq_ok, not_or, not_lt] at h
  obtain ⟨⟨hpartition, -⟩, rfl⟩ := h
  intro due hdue
  obtain ⟨a, -, ha⟩ := List.mem_filterMap.mp ((List.mem_insertionSort _).mp (List.mem_of_mem_take hdue))
  simp only [dueAttempt?, Option.bind_eq_bind, Option.bind_eq_some_iff] at ha
  obtain ⟨w, -, n, -, deadline, -, ha⟩ := ha
  split at ha
  next hlisted =>
    cases ha
    rw [hlisted.2.2.1]
    exact hpartition
  next => cases ha

theorem partition_of_dueTimers {p limit : Int} {dues : List DueTimer}
    (h : listDueTimers p limit db = .ok dues) : ∀ due ∈ dues, 0 ≤ due.partitionID := by
  simp only [listDueTimers, bind_eq_ok, rejectIf_eq_ok, exists_const, pure_eq_ok, not_or, not_lt] at h
  obtain ⟨⟨hpartition, -⟩, rfl⟩ := h
  intro due hdue
  obtain ⟨t, -, ht⟩ := List.mem_filterMap.mp ((List.mem_insertionSort _).mp (List.mem_of_mem_take hdue))
  simp only [dueTimer?, Option.bind_eq_bind, Option.bind_eq_some_iff] at ht
  obtain ⟨w, -, ht⟩ := ht
  split at ht
  next hlisted =>
    cases ht
    rw [hlisted.1]
    exact hpartition
  next => cases ht

theorem stored_of_pendingOutbox {p limit : Int} {events : List OutboxEvent}
    (h : listPendingOutbox p limit db = .ok events) : ∀ e ∈ events, db.outbox.get e.eventID = some e := by
  simp only [listPendingOutbox, bind_eq_ok, rejectIf_eq_ok, exists_const, pure_eq_ok] at h
  obtain ⟨-, rfl⟩ := h
  intro e he
  exact Table.get_of_mem (Table.mem_select.mp ((List.mem_insertionSort _).mp (List.mem_of_mem_take he))).1

theorem partition_of_checkBackpressure {oldestAge p : Int} {limits : BackpressureLimits} {backlog : Backlog}
    (h : checkBackpressure oldestAge p limits db = .ok backlog) : 0 ≤ p := by
  simp only [checkBackpressure, getBacklog, bind_eq_ok, rejectIf_eq_ok, exists_const, pure_eq_ok, not_or,
    not_lt] at h
  obtain ⟨_, ⟨⟨hpartition, -⟩, -⟩, -⟩ := h
  exact hpartition

/-- The obligation of an event that is stored since it was listed. -/
theorem founded_outboxItem {e : OutboxEvent} (hpartition : 0 ≤ lease.partitionID)
    (h : ∃ o, db.outbox.get e.eventID = some o ∧ o.workflowID = e.workflowID) :
    Founded (r.outboxItem lease e) db := by
  refine ⟨not_global hpartition, fun _ id hid => ?_, fun hkind => (by cases hkind)⟩
  obtain rfl : e.eventID = id := (String.append_right_inj _).mp hid
  exact h

theorem founded_poisonItem {poison : QuarantineRow} {input : UpsertInput} (hpartition : 0 ≤ lease.partitionID)
    (h : r.poisonItem? lease poison = some input) : Founded input db := by
  unfold Reconciler.poisonItem? at h
  split at h
  next => cases h
  next =>
    cases h
    exact ⟨not_global hpartition, fun hkind => (by cases hkind), fun _ => ⟨_, by
      simp only [String.append_assoc]; rfl⟩⟩

/-- Every upsert of a pass is founded where it is made, whatever the other parties do meanwhile. -/
theorem safe_runOnce : SafeM (passWorld env) (r.runOnce lease actorID) db (fun _ _ => True) := by
  unfold Reconciler.runOnce
  split
  next => exact .throw
  next =>
    refine .bind (safe_reconcile (Q := fun _ _ => 0 ≤ lease.partitionID) (fun _ _ => trivial) ?_)
      (fun backlog db₁ _ hpartition => ?_)
    · intro db' amb oldestAge a db'' t _ hrun _
      simp only [ReconcileOp.run, query, bind_eq_ok, pure_eq_ok] at hrun
      obtain ⟨_, hcheck, -⟩ := hrun
      exact partition_of_checkBackpressure hcheck
    refine .bind (safe_listing (fun _ _ _ => rfl) (fun _ => trivial)) (fun dues db₂ _ hdues => ?_)
    obtain ⟨_, -, hlist⟩ := hdues
    refine .bind (safe_timeOutAll r (partition_of_dueAttempts hlist)) (fun timedOut db₃ _ _ => ?_)
    refine .bind (safe_listing (fun _ _ _ => rfl) (fun _ => trivial)) (fun timers db₄ _ htimers => ?_)
    obtain ⟨_, -, hlist⟩ := htimers
    refine .bind (safe_upsertAll ?_) (fun _ db₅ _ _ => ?_)
    · rintro input hinput db' -
      obtain ⟨due, hdue, rfl⟩ := List.mem_map.mp hinput
      exact ⟨not_global (partition_of_dueTimers hlist due hdue), fun hkind => (by cases hkind),
        fun hkind => (by cases hkind)⟩
    refine .bind (safe_listing (fun _ _ _ => rfl) (fun _ => trivial)) (fun pending db₆ _ hpending => ?_)
    obtain ⟨_, hsince, hlist⟩ := hpending
    refine .bind (safe_upsertAll ?_) (fun _ db₇ _ _ => ?_)
    · intro input hinput db' hgrows
      obtain ⟨e, he, rfl⟩ := List.mem_map.mp hinput
      exact founded_outboxItem r hpartition ((hsince.trans hgrows).outbox _ e (stored_of_pendingOutbox hlist e he))
    refine .bind (safe_free (fun _ => trivial)) (fun wakeups db₈ _ _ => ?_)
    refine .bind (safe_upsertAll ?_) (fun _ db₉ _ _ => ?_)
    · rintro input hinput db' -
      obtain ⟨wake, -, rfl⟩ := List.mem_map.mp hinput
      exact ⟨not_global hpartition, fun hkind => (by cases hkind), fun hkind => (by cases hkind)⟩
    refine .bind (safe_free (fun _ => trivial)) (fun poisonRecords db₁₀ _ _ => ?_)
    refine .bind (safe_upsertAll ?_) (fun _ db₁₁ _ _ => ?_)
    · rintro input hinput db' -
      obtain ⟨poison, -, hitem⟩ := List.mem_filterMap.mp hinput
      exact founded_poisonItem r hpartition hitem
    exact .bind (safe_free (fun _ => trivial)) (fun items _ _ _ => .pure (fun _ _ => trivial))

end Passes

-- ============================================================================
-- Runs
-- ============================================================================

namespace Deployment

variable {env : Env} {s s' : Deployment} {calls : List Reconciled}

/-- What a run keeps: the obligations are in order, and so are the passes in progress. -/
structure Obligations (env : Env) (s : Deployment) : Prop where
  tracked : Tracked s.db
  passes : ∀ pass ∈ s.reconcilers, Prog.Safe (passWorld env) pass s.db (fun _ _ => True)

theorem Obligations.step (h : Obligations env s) (hs : Step env s calls s') : Obligations env s' := by
  cases hs with
  | world _ events w' hs =>
      have htracks := hs.tracks
      exact ⟨h.tracked.step htracks, fun pass hpass => (h.passes pass hpass).mono htracks.grows⟩
  | begin _ r lease actorID deployed =>
      refine ⟨h.tracked, fun pass hpass => ?_⟩
      obtain rfl | hpass := List.mem_cons.mp hpass
      · exact Prog.Safe.weaken (safe_runOnce r) (fun _ _ _ => trivial)
      · exact h.passes pass hpass
  | commit _ before after amb oldestAge op k reconcilers a db' hrun _ =>
      have hcall := h.passes _ (by rw [reconcilers]; exact List.mem_append_right _ List.mem_cons_self)
      obtain ⟨hok, hnext⟩ := hcall s.db (.refl _)
      have htracks := tracks_of_reconcile hrun hok
      refine ⟨h.tracked.step htracks, fun pass hpass => ?_⟩
      obtain hmem | hmem := List.mem_append.mp hpass
      · exact (h.passes pass (by rw [reconcilers]; exact List.mem_append_left _ hmem)).mono htracks.grows
      · obtain rfl | hmem := List.mem_cons.mp hmem
        · exact hnext _ _ ⟨amb, oldestAge, .inl ⟨a, hrun, rfl⟩⟩
        · exact (h.passes pass (by
            rw [reconcilers]; exact List.mem_append_right _ (List.mem_cons_of_mem _ hmem))).mono htracks.grows
  | refuse _ before after amb oldestAge op k reconcilers e hrun =>
      have hcall := h.passes _ (by rw [reconcilers]; exact List.mem_append_right _ List.mem_cons_self)
      refine ⟨h.tracked, fun pass hpass => ?_⟩
      obtain hmem | hmem := List.mem_append.mp hpass
      · exact h.passes pass (by rw [reconcilers]; exact List.mem_append_left _ hmem)
      · obtain rfl | hmem := List.mem_cons.mp hmem
        · exact (hcall s.db (.refl _)).2 _ _ ⟨amb, oldestAge, .inr ⟨e, hrun, rfl, rfl⟩⟩
        · exact h.passes pass (by
            rw [reconcilers]; exact List.mem_append_right _ (List.mem_cons_of_mem _ hmem))
  | finish _ before after p reconcilers =>
      refine ⟨h.tracked, fun pass hpass => h.passes pass ?_⟩
      rw [reconcilers]
      obtain hmem | hmem := List.mem_append.mp hpass
      · exact List.mem_append_left _ hmem
      · exact List.mem_append_right _ (List.mem_cons_of_mem _ hmem)

/-- In every state a run reaches, obligations are about stored rows and quarantined events have one. -/
theorem Run.obligations {now : Int} (h : Run env (start now) calls s) : Obligations env s :=
  h.keeps (I := Obligations env)
    ⟨⟨fun _ _ hr => (nomatch hr), fun _ _ ho => (nomatch ho)⟩, fun _ hpass => (nomatch hpass)⟩
    (fun _ _ _ hs hstep => hs.step hstep)

end Deployment

end DurableEngine.Services
