/-
  DurableEngine.Invariants.Transport

  The checker's rules for the transport (`checkTransport`): events, their
  history rows, inbox messages, wake-ups and obligations, as scans over the
  records of a trace.

  Go's maps are lists here, the newest entry first.
-/

import DurableEngine.Invariants.Histories

namespace DurableEngine.Invariants

open Lib State

-- ============================================================================
-- Events
-- ============================================================================

/-- The loop over the events, with the ids it has seen. -/
def scanOutbox (workflowIDs : List String) : List String → List OutboxRecord → List String
  | _, [] => []
  | seen, event :: events =>
      (if event.eventID = "" ∨ event.workflowID = "" ∨ event.aggregateRevision ≤ 0 ∨ event.eventType = "" ∨
          event.topic = "" ∨ event.payloadValid = false then
        ["outbox event identity or payload is incomplete"] else []) ++
      (match eventTopicFor event.eventType with
        | none => if event.publishState ≠ "QUARANTINED" then
            ["outbox event has unknown event type: " ++ event.eventID] else []
        | some topic => if event.topic ≠ topic then
            ["outbox event is on the wrong topic: " ++ event.eventID] else []) ++
      (if event.eventID ∈ seen then ["outbox event ID is duplicated: " ++ event.eventID] else []) ++
      (if event.workflowID ∈ workflowIDs then [] else
        ["outbox event references unknown workflow: " ++ event.eventID]) ++
      (if event.publishState ∈ ["PENDING", "CLAIMED", "PUBLISHED", "QUARANTINED"] then [] else
        ["outbox event has unknown publication state: " ++ event.eventID]) ++
      scanOutbox workflowIDs (event.eventID :: seen) events

/-- `events[eventID]`: the last event of that id. -/
def eventOf (outbox : List OutboxRecord) (eventID : String) : Option OutboxRecord :=
  outbox.reverse.find? (fun e => decide (e.eventID = eventID))

/-- `"history revision lacks an outbox obligation: %s/%d"`. -/
def lacksObligation (h : HistoryRecord) : String :=
  "history revision lacks an outbox obligation: " ++ h.workflowID ++ "/" ++ toString h.revision

/-- The rows whose reason asks for an event they do not have. -/
def unannounced (outbox : List OutboxRecord) (h : HistoryRecord) : Bool :=
  requiresOutbox h.reason &&
    !outbox.any (fun e => e.workflowID = h.workflowID && e.aggregateRevision = h.revision)

-- ============================================================================
-- Messages
-- ============================================================================

/-- `"%s\x00%s\x00%d\x00%d"` of the position of a message. -/
def InboxRecord.offsetKey (m : InboxRecord) : String :=
  m.consumerID ++ "\x00" ++ m.topic ++ "\x00" ++ toString m.partition ++ "\x00" ++ toString m.offset

/-- `"inbox offset maps to multiple event IDs: "`. -/
def offsetClash (m : InboxRecord) : String := "inbox offset maps to multiple event IDs: " ++ m.offsetKey

/-- The loop over the messages, with the positions it has seen and their events. -/
def scanInbox (outbox : List OutboxRecord) : List (String × String) → List InboxRecord → List String
  | _, [] => []
  | seen, message :: messages =>
      (if message.consumerID = "" ∨ message.eventID = "" ∨ message.topic = "" ∨ message.partition < 0 ∨
          message.offset < 0 then ["inbox message identity is incomplete"] else []) ++
      (match eventOf outbox message.eventID with
        | none => ["inbox message references unknown event: " ++ message.eventID]
        | some event => if event.topic ≠ message.topic then
            ["inbox message topic conflicts with outbox event: " ++ message.eventID] else []) ++
      (if (seen.find? (fun p => decide (p.1 = message.offsetKey))).any (fun p => p.2 ≠ message.eventID) then
        [offsetClash message] else []) ++
      (if message.disposition ∈ ["ACCEPTED", "ALREADY_HANDLED", "STALE", "QUARANTINED"] then [] else
        ["inbox has unknown disposition: " ++ message.eventID]) ++
      scanInbox outbox ((message.offsetKey, message.eventID) :: seen) messages

-- ============================================================================
-- Wake-ups
-- ============================================================================

/-- The loop over the wake-ups, with the events it has seen. -/
def scanWakeups (outbox : List OutboxRecord) : List String → List WakeupRecord → List String
  | _, [] => []
  | seen, wakeup :: wakeups =>
      (if wakeup.workflowID = "" ∨ wakeup.eventID = "" ∨ wakeup.partitionID < 0 ∨ 16 ≤ wakeup.partitionID then
        ["scheduler wake-up identity is incomplete"] else []) ++
      (if (eventOf outbox wakeup.eventID).isNone then
        ["scheduler wake-up references unknown event: " ++ wakeup.eventID] else []) ++
      (if wakeup.eventID ∈ seen then ["event has duplicate scheduler wake-ups: " ++ wakeup.eventID] else []) ++
      (if wakeup.state ∈ ["PENDING", "CLAIMED", "CONSUMED"] then [] else
        ["scheduler wake-up has unknown state: " ++ wakeup.eventID]) ++
      scanWakeups outbox (wakeup.eventID :: seen) wakeups

-- ============================================================================
-- Obligations
-- ============================================================================

/-- `"published outbox event has an open reconciliation item: "`. -/
def staleObligation (eventID : String) : String :=
  "published outbox event has an open reconciliation item: " ++ eventID

/-- `strings.TrimPrefix`, where the prefix is there. -/
def afterPrefix? (start s : String) : Option String :=
  if start.toList.isPrefixOf s.toList then some (String.ofList (s.toList.drop start.length)) else none

namespace ReconciliationRecord

/-- Poison of the transport that belongs to no workflow. -/
def globalPoison (r : ReconciliationRecord) : Bool :=
  r.workflowID = "" && r.kind = "POISON_RECORD" && (afterPrefix? "transport/" r.reference).isSome

/-- The rules for one obligation. -/
def violations (workflowIDs : List String) (outbox : List OutboxRecord) (r : ReconciliationRecord) :
    List String :=
  (if (r.workflowID = "" ∧ r.globalPoison = false) ∨ r.kind = "" ∨ r.reference = "" then
    ["reconciliation item identity is incomplete"] else []) ++
  (if r.workflowID ≠ "" then
    (if r.workflowID ∈ workflowIDs then [] else
      ["reconciliation item references unknown workflow: " ++ r.reference])
  else if r.globalPoison then [] else
    ["reconciliation item references unknown workflow: " ++ r.reference]) ++
  (if r.kind ∈ ["EXPIRED_ATTEMPT", "PENDING_OUTBOX", "LOST_WAKEUP", "DUE_TIMER", "POISON_RECORD"] then [] else
    ["reconciliation item has unknown kind: " ++ r.reference]) ++
  (if r.status ∈ ["OPEN", "RESOLVED", "ABANDONED"] then [] else
    ["reconciliation item has unknown status: " ++ r.reference]) ++
  (match if r.kind = "PENDING_OUTBOX" then afterPrefix? "outbox/" r.reference else none with
    | none => []
    | some eventID =>
        match eventOf outbox eventID with
        | none => ["pending-outbox item references unknown event: " ++ r.reference]
        | some event => if r.status = "OPEN" ∧ event.publishState = "PUBLISHED" then
            [staleObligation eventID] else [])

end ReconciliationRecord

/-- The references of the poison records. -/
def poisonReferences (items : List ReconciliationRecord) : List String :=
  (items.filter (fun r => decide (r.kind = "POISON_RECORD"))).map ReconciliationRecord.reference

/-- The entries of the map of events. -/
def eventEntries (outbox : List OutboxRecord) : List OutboxRecord :=
  (outbox.map OutboxRecord.eventID).dedup.filterMap (eventOf outbox)

-- ============================================================================
-- The transport
-- ============================================================================

/-- `checkTransport`. -/
def checkTransport (t : Trace) : List String :=
  if t.outbox.isEmpty && t.inbox.isEmpty && t.wakeups.isEmpty && t.reconciliation.isEmpty then []
  else
    let workflowIDs := t.submissions.map SubmissionRecord.workflowID
    scanOutbox workflowIDs [] t.outbox ++
    (t.history.filter (unannounced t.outbox)).map lacksObligation ++
    scanInbox t.outbox [] t.inbox ++
    scanWakeups t.outbox [] t.wakeups ++
    t.reconciliation.flatMap (ReconciliationRecord.violations workflowIDs t.outbox) ++
    ((eventEntries t.outbox).filter (fun e => e.publishState = "QUARANTINED" &&
      !(poisonReferences t.reconciliation).contains ("outbox/" ++ e.eventID))).map
        (fun e => "quarantined outbox event lacks a poison reconciliation item: " ++ e.eventID)

-- ============================================================================
-- What the scans report
-- ============================================================================

theorem afterPrefix?_eq_some {start s rest : String} : afterPrefix? start s = some rest ↔ s = start ++ rest := by
  unfold afterPrefix?
  constructor
  · intro h
    split at h
    next hprefix =>
      obtain ⟨tail, htail⟩ := List.isPrefixOf_iff_prefix.mp hprefix
      rw [Option.some.injEq] at h
      refine String.toList_inj.mp ?_
      rw [← h, String.toList_append, ← htail, ← String.length_toList, List.drop_left, String.toList_ofList]
    next => cases h
  · rintro rfl
    have hprefix : start.toList.isPrefixOf (start ++ rest).toList = true :=
      List.isPrefixOf_iff_prefix.mpr ⟨rest.toList, String.toList_append.symm⟩
    rw [if_pos hprefix, String.toList_append, ← String.length_toList, List.drop_left, String.ofList_toList]

/-- The references of the transport and those of events differ. -/
theorem transport_ne_outbox (a b : String) : "transport/" ++ a ≠ "outbox/" ++ b := by
  intro h
  have hchars := congrArg (fun s : String => s.toList.head?) h
  simp at hchars

section Scans

variable {outbox : List OutboxRecord}

/-- An event that breaks no rule by itself. -/
structure OutboxRecord.Sound (workflowIDs : List String) (e : OutboxRecord) : Prop where
  identity : ¬ (e.eventID = "" ∨ e.workflowID = "" ∨ e.aggregateRevision ≤ 0 ∨ e.eventType = "" ∨
    e.topic = "" ∨ e.payloadValid = false)
  topic : eventTopicFor e.eventType = some e.topic
  workflow : e.workflowID ∈ workflowIDs
  state : e.publishState ∈ ["PENDING", "CLAIMED", "PUBLISHED", "QUARANTINED"]

theorem scanOutbox_eq_nil {workflowIDs seen : List String} {events : List OutboxRecord}
    (hsound : ∀ e ∈ events, e.Sound workflowIDs) (hnew : ∀ e ∈ events, e.eventID ∉ seen)
    (hdistinct : (events.map OutboxRecord.eventID).Nodup) : scanOutbox workflowIDs seen events = [] := by
  induction events generalizing seen with
  | nil => rfl
  | cons e events ih =>
      obtain ⟨hfirst, hrest⟩ := List.nodup_cons.mp hdistinct
      obtain ⟨hidentity, htopic, hworkflow, hstate⟩ := hsound e List.mem_cons_self
      rw [scanOutbox, if_neg hidentity, htopic, if_neg (hnew e List.mem_cons_self), if_pos hworkflow, if_pos hstate,
        ih (fun e' he' => hsound e' (List.mem_cons_of_mem _ he')) (fun e' he' hmem => ?_) hrest]
      · simp
      · obtain heq | hseen := List.mem_cons.mp hmem
        · exact hfirst (heq ▸ List.mem_map_of_mem he')
        · exact hnew e' (List.mem_cons_of_mem _ he') hseen

theorem eventOf_eq_some (hdistinct : (outbox.map OutboxRecord.eventID).Nodup) {id : String} {e : OutboxRecord} :
    eventOf outbox id = some e ↔ e ∈ outbox ∧ e.eventID = id := by
  constructor
  · intro h
    exact ⟨List.mem_reverse.mp (List.mem_of_find?_eq_some h), by simpa using List.find?_some h⟩
  · rintro ⟨he, rfl⟩
    cases hfound : eventOf outbox e.eventID with
    | none => exact (List.find?_eq_none.mp hfound e (List.mem_reverse.mpr he) (decide_eq_true rfl)).elim
    | some e' =>
        have hmem := List.mem_reverse.mp (List.mem_of_find?_eq_some hfound)
        have hid : e'.eventID = e.eventID := by simpa using List.find?_some hfound
        rw [List.inj_on_of_nodup_map hdistinct hmem he hid]

theorem mem_eventEntries (hdistinct : (outbox.map OutboxRecord.eventID).Nodup) {e : OutboxRecord} :
    e ∈ eventEntries outbox ↔ e ∈ outbox := by
  simp only [eventEntries, List.mem_filterMap, List.mem_dedup, List.mem_map, eventOf_eq_some hdistinct]
  constructor
  · rintro ⟨id, -, he, -⟩
    exact he
  · intro he
    exact ⟨e.eventID, ⟨e, he, rfl⟩, he, rfl⟩

/-- A message that breaks no rule by itself. -/
structure InboxRecord.Sound (outbox : List OutboxRecord) (m : InboxRecord) : Prop where
  identity : ¬ (m.consumerID = "" ∨ m.eventID = "" ∨ m.topic = "" ∨ m.partition < 0 ∨ m.offset < 0)
  event : ∃ e, eventOf outbox m.eventID = some e ∧ e.topic = m.topic
  disposition : m.disposition ∈ ["ACCEPTED", "ALREADY_HANDLED", "STALE", "QUARANTINED"]

/-- The event `id` stands at the position `key` of the messages scanned or to come. -/
def StandsAt (seen : List (String × String)) (messages : List InboxRecord) (key id : String) : Prop :=
  (∃ p, seen.find? (fun p => decide (p.1 = key)) = some p ∧ p.2 = id) ∨
    ∃ m ∈ messages, m.offsetKey = key ∧ m.eventID = id

theorem offsetClash_congr {m m' : InboxRecord} (h : m.offsetKey = m'.offsetKey) : offsetClash m = offsetClash m' :=
  congrArg (fun key => "inbox offset maps to multiple event IDs: " ++ key) h

/-- The scan reports the positions of two events. -/
theorem mem_scanInbox {seen : List (String × String)} {messages : List InboxRecord} {v : String}
    (hsound : ∀ m ∈ messages, m.Sound outbox) :
    v ∈ scanInbox outbox seen messages ↔ ∃ m ∈ messages, v = offsetClash m ∧
      ∃ id id', StandsAt seen messages m.offsetKey id ∧ StandsAt seen messages m.offsetKey id' ∧ id ≠ id' := by
  induction messages generalizing seen with
  | nil => simp [scanInbox]
  | cons m messages ih =>
      obtain ⟨hidentity, ⟨e, he, htopic⟩, hdisposition⟩ := hsound m List.mem_cons_self
      have hih := @ih ((m.offsetKey, m.eventID) :: seen) (fun m' hm' => hsound m' (List.mem_cons_of_mem _ hm'))
      -- what stands at a position once `m` was scanned stood there before
      have hback : ∀ {key id}, StandsAt ((m.offsetKey, m.eventID) :: seen) messages key id →
          StandsAt seen (m :: messages) key id := by
        rintro key id (⟨p, hp, rfl⟩ | ⟨m', hm', hkey⟩)
        · by_cases hsame : m.offsetKey = key
          · rw [List.find?_cons_of_pos (by simpa using hsame), Option.some.injEq] at hp
            exact .inr ⟨m, List.mem_cons_self, hsame, by rw [← hp]⟩
          · rw [List.find?_cons_of_neg (by simpa using hsame)] at hp
            exact .inl ⟨p, hp, rfl⟩
        · exact .inr ⟨m', List.mem_cons_of_mem _ hm', hkey⟩
      have hforth : ∀ {key id}, StandsAt seen (m :: messages) key id → m.offsetKey ≠ key →
          StandsAt ((m.offsetKey, m.eventID) :: seen) messages key id := by
        rintro key id (⟨p, hp, rfl⟩ | ⟨m', hm', hkey, rfl⟩) hne
        · exact .inl ⟨p, by rw [List.find?_cons_of_neg (by simpa using hne)]; exact hp, rfl⟩
        · obtain rfl | hm' := List.mem_cons.mp hm'
          · exact absurd hkey hne
          · exact .inr ⟨m', hm', hkey, rfl⟩
      have hhead : (seen.find? (fun p => decide (p.1 = m.offsetKey))).any (fun p => decide (p.2 ≠ m.eventID)) = true ↔
          ∃ p, seen.find? (fun p => decide (p.1 = m.offsetKey)) = some p ∧ p.2 ≠ m.eventID := by
        simp [Option.any_eq_true]
      rw [scanInbox, if_neg hidentity, he]
      simp only [htopic, ne_eq, not_true_eq_false, if_false, if_pos hdisposition, List.nil_append, List.append_nil,
        List.mem_append, hih]
      constructor
      · rintro (hclash | ⟨m', hm', rfl, id, id', hid, hid', hne⟩)
        · split at hclash
          next hprior =>
            obtain ⟨p, hp, hdiffer⟩ := hhead.mp hprior
            exact ⟨m, List.mem_cons_self, List.mem_singleton.mp hclash, p.2, m.eventID, .inl ⟨p, hp, rfl⟩,
              .inr ⟨m, List.mem_cons_self, rfl, rfl⟩, hdiffer⟩
          next => cases hclash
        · exact ⟨m', List.mem_cons_of_mem _ hm', rfl, id, id', hback hid, hback hid', hne⟩
      · rintro ⟨m', hm', rfl, id, id', hid, hid', hne⟩
        by_cases hkey : m.offsetKey = m'.offsetKey
        · by_cases hprior : ∃ p, seen.find? (fun p => decide (p.1 = m.offsetKey)) = some p ∧ p.2 ≠ m.eventID
          · rw [if_pos (hhead.mpr hprior), List.mem_singleton]
            exact .inl (offsetClash_congr hkey.symm)
          · -- the position held the event of `m` at most, so a message to come differs from it
            have hseen : ∀ {i}, StandsAt seen (m :: messages) m'.offsetKey i →
                i = m.eventID ∨ ∃ m'' ∈ messages, m''.offsetKey = m'.offsetKey ∧ m''.eventID = i := by
              rintro i (⟨p, hp, rfl⟩ | ⟨m'', hm'', hkey'', rfl⟩)
              · refine .inl (by_contra (fun hdiffer => hprior ⟨p, ?_, hdiffer⟩))
                rw [hkey]
                exact hp
              · obtain rfl | hm'' := List.mem_cons.mp hm''
                · exact .inl rfl
                · exact .inr ⟨m'', hm'', hkey'', rfl⟩
            have hfirst : StandsAt ((m.offsetKey, m.eventID) :: seen) messages m'.offsetKey m.eventID :=
              .inl ⟨(m.offsetKey, m.eventID), List.find?_cons_of_pos (by simpa using hkey), rfl⟩
            obtain ⟨i, hi, m'', hm'', hkey'', rfl⟩ : ∃ i, i ≠ m.eventID ∧
                ∃ m'' ∈ messages, m''.offsetKey = m'.offsetKey ∧ m''.eventID = i := by
              rcases hseen hid with rfl | hlater
              · exact ⟨id', Ne.symm hne, (hseen hid').resolve_left (Ne.symm hne)⟩
              · by_cases hsame : id = m.eventID
                · exact ⟨id', fun h => hne (hsame.trans h.symm), (hseen hid').resolve_left
                    (fun h => hne (hsame.trans h.symm))⟩
                · exact ⟨id, hsame, hlater⟩
            refine .inr ⟨m'', hm'', offsetClash_congr hkey''.symm, m.eventID, m''.eventID, ?_, ?_, hi.symm⟩
            · rw [hkey'']
              exact hfirst
            · exact .inr ⟨m'', hm'', rfl, rfl⟩
        · obtain rfl | hm' := List.mem_cons.mp hm'
          · exact absurd rfl hkey
          · exact .inr ⟨m', hm', rfl, id, id', hforth hid hkey, hforth hid' hkey, hne⟩

/-- A wake-up that breaks no rule by itself. -/
structure WakeupRecord.Sound (outbox : List OutboxRecord) (w : WakeupRecord) : Prop where
  identity : ¬ (w.workflowID = "" ∨ w.eventID = "" ∨ w.partitionID < 0 ∨ 16 ≤ w.partitionID)
  event : ∃ e, eventOf outbox w.eventID = some e
  state : w.state ∈ ["PENDING", "CLAIMED", "CONSUMED"]

theorem scanWakeups_eq_nil {seen : List String} {wakeups : List WakeupRecord}
    (hsound : ∀ w ∈ wakeups, w.Sound outbox) (hnew : ∀ w ∈ wakeups, w.eventID ∉ seen)
    (hdistinct : (wakeups.map WakeupRecord.eventID).Nodup) : scanWakeups outbox seen wakeups = [] := by
  induction wakeups generalizing seen with
  | nil => rfl
  | cons w wakeups ih =>
      obtain ⟨hfirst, hrest⟩ := List.nodup_cons.mp hdistinct
      obtain ⟨hidentity, ⟨e, he⟩, hstate⟩ := hsound w List.mem_cons_self
      rw [scanWakeups, if_neg hidentity, he, if_neg (by simp), if_neg (hnew w List.mem_cons_self), if_pos hstate,
        ih (fun w' hw' => hsound w' (List.mem_cons_of_mem _ hw')) (fun w' hw' hmem => ?_) hrest]
      · rfl
      · obtain heq | hseen := List.mem_cons.mp hmem
        · exact hfirst (heq ▸ List.mem_map_of_mem hw')
        · exact hnew w' (List.mem_cons_of_mem _ hw') hseen

/-- An obligation that breaks no rule by itself. -/
structure ReconciliationRecord.Sound (workflowIDs : List String) (outbox : List OutboxRecord)
    (r : ReconciliationRecord) : Prop where
  reference : r.reference ≠ ""
  workflow : if r.workflowID = "" then r.globalPoison = true else r.workflowID ∈ workflowIDs
  kind : r.kind ∈ ["EXPIRED_ATTEMPT", "PENDING_OUTBOX", "LOST_WAKEUP", "DUE_TIMER", "POISON_RECORD"]
  status : r.status ∈ ["OPEN", "RESOLVED", "ABANDONED"]
  event : r.kind = "PENDING_OUTBOX" → ∀ id, r.reference = "outbox/" ++ id → ∃ e, eventOf outbox id = some e

theorem mem_violations {workflowIDs : List String} {r : ReconciliationRecord} {v : String}
    (h : r.Sound workflowIDs outbox) :
    v ∈ r.violations workflowIDs outbox ↔ r.kind = "PENDING_OUTBOX" ∧ r.status = "OPEN" ∧
      ∃ id e, r.reference = "outbox/" ++ id ∧ eventOf outbox id = some e ∧ e.publishState = "PUBLISHED" ∧
        v = staleObligation id := by
  have hkind : r.kind ≠ "" := fun hempty => absurd h.kind (by rw [hempty]; decide)
  have hidentity : ¬ ((r.workflowID = "" ∧ r.globalPoison = false) ∨ r.kind = "" ∨ r.reference = "") := by
    rintro (⟨hnone, hglobal⟩ | hempty | hempty)
    · have hworkflow := h.workflow
      rw [if_pos hnone, hglobal] at hworkflow
      cases hworkflow
    · exact hkind hempty
    · exact h.reference hempty
  have hworkflow : (if r.workflowID ≠ "" then
      (if r.workflowID ∈ workflowIDs then [] else
        ["reconciliation item references unknown workflow: " ++ r.reference])
      else if r.globalPoison then [] else
        ["reconciliation item references unknown workflow: " ++ r.reference]) = ([] : List String) := by
    have hsound := h.workflow
    split at hsound
    next hnone => rw [if_neg (not_not.mpr hnone), if_pos hsound]
    next hsome => rw [if_pos hsome, if_pos hsound]
  rw [ReconciliationRecord.violations, if_neg hidentity, hworkflow, if_pos h.kind, if_pos h.status]
  simp only [List.nil_append]
  split
  next hnone =>
    refine ⟨fun hv => (nomatch hv), ?_⟩
    rintro ⟨hpending, -, id, e, hreference, -⟩
    rw [if_pos hpending, afterPrefix?_eq_some.mpr hreference] at hnone
    cases hnone
  next eventID hsome =>
    have hpending : r.kind = "PENDING_OUTBOX" := by
      by_contra hother
      rw [if_neg hother] at hsome
      cases hsome
    rw [if_pos hpending, afterPrefix?_eq_some] at hsome
    obtain ⟨e, he⟩ := h.event hpending eventID hsome
    have honly : ∀ id, r.reference = "outbox/" ++ id → id = eventID := by
      intro id hid
      have hboth := (afterPrefix?_eq_some.mpr hid).symm.trans (afterPrefix?_eq_some.mpr hsome)
      exact Option.some.inj hboth
    simp only [he]
    constructor
    · intro hv
      split at hv
      next hstale => exact ⟨hpending, hstale.1, eventID, e, hsome, he, hstale.2, List.mem_singleton.mp hv⟩
      next => cases hv
    · rintro ⟨-, hopen, id, e', hid, he', hpublished, rfl⟩
      obtain rfl := honly id hid
      rw [he, Option.some.injEq] at he'
      subst he'
      rw [if_pos ⟨hopen, hpublished⟩]
      exact List.mem_singleton.mpr rfl

end Scans

end DurableEngine.Invariants
