/-
  DurableEngine.Services.Comparison

  Replays and deliveries compared with what is stored.

  A second submission of a result, a second piece of evidence and a delivery
  of an event are taken for the stored one when `jsonEqual` says so.  It
  compares what `json.Unmarshal` makes of the documents, so it answers by
  their values except where reading confuses them: a number that `float64`
  rounds or cannot hold, arrays and objects nested too deep, half of a
  surrogate pair.
-/

import DurableEngine.Lib.Source
import DurableEngine.Services.Dedupe
import DurableEngine.Services.Offsets
import DurableEngine.State.Results

namespace DurableEngine.Services

open Lib State

-- ============================================================================
-- The property
-- ============================================================================

/-- The party accepts `y` for the stored `x` by their values, unless reading confuses them. -/
def ComparesValues (accepts : Prop) (x y : SourceTree) : Prop :=
  (accepts ↔ SourceTree.SameValue x y) ↔ ¬ SourceTree.Confused x y

/-- The submission is one for the attempt, whose result was recorded, with the document `v`. -/
structure Resubmits (input : ResultInput) (a : Attempt) (v : SourceTree) : Prop where
  named : input.workflowID ≠ "" ∧ input.nodeID ≠ ""
  key : input.key = a.key
  token : uuidText input.claimToken = a.claimToken
  outcome : input.attemptState = a.state
  event : eventTopicFor (normalizeResultEventType input.eventType) ≠ none
  payload : input.payload.orEmptyObject = .json v.read

/-- The message names the stored event, its topic, its type and (if any) its version, and carries the
    document `v`; the columns take its stream and its offset. -/
structure Carries (m : InboxMessage) (o : OutboxEvent) (v : SourceTree) : Prop where
  consumer : m.consumerID ≠ ""
  stream : 0 ≤ m.partition ∧ m.stream.storable = true
  offset : 0 ≤ m.offset ∧ m.offset ≤ maxOffset
  event : uuidText m.eventID = some o.eventID
  topic : o.topic = m.topic ∧ m.topic ≠ ""
  eventType : o.eventType = m.eventType
  version : 0 ≤ m.schemaVersion ∧ (m.schemaVersion = 0 ∨ o.schemaVersion = m.schemaVersion)
  payload : m.payload.orEmptyObject = .json v.read

/-- The evidence row of an attempt under a claim token and a reference. -/
def evidenceAt (db : DB) (key : AttemptKey) (claimToken reconciliationRef : String) : Option Evidence :=
  db.evidence.rows.find? (fun e => e.attempt = key && e.claimToken = some claimToken &&
    e.reconciliationRef = reconciliationRef)

/-- Every comparison of a state is one of values, unless reading confuses them.  Of documents of one value,
    only such with half a surrogate pair are read differently. -/
structure ComparisonsExact (db : DB) : Prop where
  documents : ∀ x y : SourceTree, ComparesValues (Json.jsonEqual x.read y.read = true) x y
  paired : ∀ x y : SourceTree, x.paired = true → y.paired = true → x.SameValue y → x.Alike y
  results : ∀ k a result, db.attempts.get k = some a → a.state.isTerminal = true → a.result = some result →
    ∀ amb input v, Resubmits input a v →
      ComparesValues (∃ r db', recordResultReceipt amb input db = .ok (r, db')) (.ofJson result.doc) v
  evidence : ∀ key token ref existing, evidenceAt db key token ref = some existing → ref ≠ "" →
    ∀ amb v, ComparesValues (∃ r, insertAttemptEvidence amb db key token ref (.json v.read) = .ok r)
      (.ofJson existing.payload.doc) v
  deliveries : ∀ id o, db.outbox.get id = some o → ∀ wakeupID, db.wakeups.get wakeupID = none →
    ∀ m v, Carries m o v → ¬ AtLast db m.stream m.offset →
      ComparesValues (∃ r db', recordInbox wakeupID m db = .ok (r, db')) (.ofJson o.payload.doc) v

theorem ComparesValues.of_iff {accepts : Prop} {x y : SourceTree}
    (h : accepts ↔ Json.jsonEqual x.read y.read = true) : ComparesValues accepts x y := by
  unfold ComparesValues
  rw [h]
  exact SourceTree.jsonEqual_exact_iff x y

/-- A document that is equal to another is not nested too deep. -/
theorem shallow_of_jsonEqual {x y : Json} (h : Json.jsonEqual x y = true) : y.shallow = true := by
  obtain ⟨-, hread, -⟩ := Json.jsonEqual_eq_true_iff.mp h
  exact decide_eq_true (Nat.le_of_not_lt (fun hdeep => hread (.inl hdeep)))

-- ============================================================================
-- Results
-- ============================================================================

/-- What a run keeps: attempts and events have their owners, recorded results are whole, and inbox rows
    have the topics of their events. -/
structure Comparable (db : DB) : Prop where
  linked : State.Linked db
  shapes : ∀ k a, db.attempts.get k = some a → AttemptShape a
  events : EventsBounded db
  topics : ∀ k row, db.transport.inbox.get k = some row →
    ∃ o, db.outbox.get k.eventID = some o ∧ row.topic = some o.topic

/-- A second submission of a recorded result is accepted unless its document is refused. -/
theorem recordResultReceipt_accepts_iff {db : DB} (hdb : Comparable db) {k : AttemptKey} {a : Attempt}
    {result : Jsonb} (ha : db.attempts.get k = some a) (hterm : a.state.isTerminal = true)
    (hresult : a.result = some result) (amb : Ambient) {input : ResultInput} {v : SourceTree}
    (h : Resubmits input a v) :
    (∃ r db', recordResultReceipt amb input db = .ok (r, db')) ↔
      Json.jsonEqual result.doc v.read = true := by
  have hkey : input.key = k := h.key.trans (Table.key_of_get ha)
  subst hkey
  have hshape := hdb.shapes _ a ha
  obtain ⟨n, hn⟩ := hdb.linked.attempt _ a ha
  obtain ⟨w, hw⟩ := hdb.linked.node _ n hn
  have hcurrent : a.isCurrent = false := by
    by_contra hcur
    rw [Bool.not_eq_false] at hcur
    rcases hshape.current.mp hcur with hs | hs <;> rw [hs] at hterm <;> cases hterm
  by_cases hshallow : v.read.shallow = true
  case neg =>
    refine ⟨fun ⟨_, _, hok⟩ => ?_, fun hequal => absurd (shallow_of_jsonEqual hequal) hshallow⟩
    have hvalid := valid_of_recordResultReceipt hok
    rw [h.payload] at hvalid
    exact absurd hvalid hshallow
  rw [recordResultReceipt_replay amb h.named hw hn ha h.token (hshape.token (.inr hterm)) h.outcome hterm
    hcurrent hresult h.payload hshallow h.event]
  by_cases hequal : Json.jsonEqual result.doc v.read = true
  · rw [if_pos hequal]
    exact ⟨fun _ => hequal, fun _ => ⟨_, _, rfl⟩⟩
  · rw [if_neg hequal]
    exact ⟨fun ⟨_, _, hok⟩ => (nomatch hok), fun h => absurd h hequal⟩

-- ============================================================================
-- Evidence
-- ============================================================================

theorem insertAttemptEvidence_accepts_iff (amb : Ambient) {db : DB} {key : AttemptKey} {token ref : String}
    {existing : Evidence} {v : Json} (h : evidenceAt db key token ref = some existing) (href : ref ≠ "") :
    (∃ r, insertAttemptEvidence amb db key token ref (.json v) = .ok r) ↔
      Json.jsonEqual existing.payload.doc v = true := by
  have hargs : ¬ (ref = "" ∨ (RawMessage.json v).isEmpty = true) := by
    rintro (hempty | hempty)
    · exact href hempty
    · cases hempty
  unfold evidenceAt at h
  have hrun : insertAttemptEvidence amb db key token ref (.json v) =
      (rejectIf (!Json.jsonEqual existing.payload.doc v) (.sentinel .evidenceConflict) >>= fun _ =>
        pure (existing.evidenceID, db)) := by
    simp only [insertAttemptEvidence, rejectIf_of_not _ hargs, ok_bind, h, payloadEqual]
    rfl
  rw [hrun]
  by_cases hequal : Json.jsonEqual existing.payload.doc v = true
  · rw [rejectIf_of_not _ (by simp [hequal])]
    exact ⟨fun _ => hequal, fun _ => ⟨_, rfl⟩⟩
  · rw [rejectIf_of _ (by simpa using hequal)]
    exact ⟨fun hrun => (by obtain ⟨_, hok⟩ := hrun; cases hok), fun h => absurd h hequal⟩

-- ============================================================================
-- Deliveries
-- ============================================================================

theorem Carries.agrees_iff {m : InboxMessage} {o : OutboxEvent} {v : SourceTree} (h : Carries m o v) :
    o.agrees m = true ↔ Json.jsonEqual o.payload.doc v.read = true := by
  simp only [OutboxEvent.agrees, h.payload, h.topic.1, h.eventType, h.version.2, decide_true, Bool.true_and,
    Bool.and_eq_true, Bool.or_eq_true, decide_eq_true_eq, true_and]

/-- A delivery of a stored event is recorded unless its payload is refused. -/
theorem recordInbox_accepts_iff {db : DB} (hdb : Comparable db) {id wakeupID : String} {o : OutboxEvent}
    {m : InboxMessage} {v : SourceTree} (ho : db.outbox.get id = some o)
    (hfresh : db.wakeups.get wakeupID = none) (h : Carries m o v)
    (hlast : ¬ AtLast db m.stream m.offset) :
    (∃ r db', recordInbox wakeupID m db = .ok (r, db')) ↔
      Json.jsonEqual o.payload.doc v.read = true := by
  rw [← h.agrees_iff]
  constructor
  · rintro ⟨r, db', hok⟩
    obtain ⟨id', o', hrecorded⟩ := recordInbox_eq_ok hok
    have hid := hrecorded.event
    rw [h.event, Table.key_of_get ho] at hid
    cases hid
    have ho' := hrecorded.outbox
    rw [ho] at ho'
    cases ho'
    exact hrecorded.agrees
  · intro hagrees
    have hshallow := shallow_of_jsonEqual (h.agrees_iff.mp hagrees)
    obtain ⟨hconsumer, hstream, hoffset, hevent, htopic, -, hversion, hpayload⟩ := h
    have hid : uuidText m.eventID = some id := by rw [hevent, Table.key_of_get ho]
    have hnamed : m.eventID ≠ "" := by
      intro he
      rw [he, show uuidText "" = none from rfl] at hid
      cases hid
    have hargs : ¬ (m.consumerID = "" ∨ m.eventID = "" ∨ m.topic = "" ∨ m.partition < 0 ∨ m.offset < 0 ∨
        m.schemaVersion < 0) := by
      simp only [hconsumer, hnamed, htopic.2, false_or, not_or, Int.not_lt]
      exact ⟨hstream.1, hoffset.1, hversion.1⟩
    obtain ⟨w, hw, -⟩ := hdb.events o (by rw [Table.key_of_get ho]; exact ho)
    have hvalid : ¬ (!m.payload.orEmptyObject.valid) = true := by simp [hpayload, RawMessage.valid, hshallow]
    have hsame : ¬ (!o.agrees m) = true := by simp [hagrees]
    have hstorable : ¬ (!m.stream.storable) = true := by simp [hstream.2]
    simp only [recordInbox, rejectIf_of_not _ hargs, rejectIf_of_not _ hvalid, rejectIf_of_not _ hsame,
      rejectIf_of_not _ hstorable, hid, ho, hw, getOr_some, ok_bind]
    split
    · rename_i inbox hins
      obtain ⟨⟨r, db'⟩, hr⟩ : ∃ r, acceptMessage wakeupID id o w m inbox db = .ok r :=
        (acceptMessage_ok_iff hins hfresh).mpr hlast
      exact ⟨r, db', hr⟩
    · rename_i hins
      obtain ⟨row, hrow⟩ := Table.get_of_insert?_none hins
      obtain ⟨o', ho', hrowTopic⟩ := hdb.topics _ row hrow
      rw [ho] at ho'
      cases ho'
      have hsame : ¬ ∃ topic ∈ row.topic, topic ≠ m.topic := by
        rintro ⟨topic, hmem, hne⟩
        rw [hrowTopic] at hmem
        exact hne ((Option.some.inj hmem).symm.trans htopic.1)
      have hrepeat : (∃ r, repeatMessage row m db = .ok r) ↔
          (AtLast db m.stream m.offset → Stuck db (.record wakeupID m)) :=
        repeatMessage_ok_iff hsame hid hrow hoffset.2
      obtain ⟨⟨r, db'⟩, hr⟩ := hrepeat.mpr (fun h => absurd h hlast)
      simp only [hrow, getOr_some, ok_bind]
      exact ⟨r, db', hr⟩

theorem Comparable.step {env : Env} {events : List Event} {w w' : World} (h : Comparable w.db)
    (hs : World.Step env w events w') : Comparable w'.db where
  linked := by
    cases hs with
    | tick _ d => exact ⟨h.linked.attempt, h.linked.node⟩
    | commit _ amb op a db' hok _ => exact h.linked.change (Op.run_commit hok).change
    | relay _ events s' hrelay =>
        rw [hrelay.frame]
        exact ⟨h.linked.attempt, h.linked.node⟩
    | consumer _ events db' hconsumer =>
        rw [hconsumer.frame]
        exact ⟨h.linked.attempt, h.linked.node⟩
    | effect _ events s' heffect =>
        rw [heffect.frame]
        exact ⟨h.linked.attempt, h.linked.node⟩
  shapes := by
    cases hs with
    | tick _ d => exact h.shapes
    | commit _ amb op a db' hok _ => exact fun k => ((Op.run_commit hok).change.attemptStep k).shape (h.shapes k)
    | relay _ events s' hrelay =>
        rw [hrelay.frame]
        exact h.shapes
    | consumer _ events db' hconsumer =>
        rw [hconsumer.frame]
        exact h.shapes
    | effect _ events s' heffect =>
        rw [heffect.frame]
        exact h.shapes
  events := by
    cases hs with
    | tick _ d => exact h.events
    | commit _ amb op a db' hok _ => exact h.events.change (Op.run_commit hok).change
    | relay _ events s' hrelay =>
        intro o' ho'
        have hworkflows : s'.db.workflows = w.db.workflows := by rw [hrelay.frame]; rfl
        obtain ⟨o, ho⟩ : ∃ o, w.db.outbox.get o'.eventID = some o :=
          Option.ne_none_iff_exists'.mp (fun hnone => by
            rw [show s'.db.outbox.get o'.eventID = none from hrelay.absent hnone] at ho'
            cases ho')
        obtain ⟨o₁, ho₁, hmove⟩ := hrelay.row ho
        obtain rfl : o₁ = o' := Option.some.inj (ho₁.symm.trans ho')
        have hsame : o.SameEvent o₁ := by
          obtain rfl | hstep := hmove.step
          · exact .refl _
          · exact hstep.sameEvent
        obtain ⟨wf, hwf, hle⟩ := h.events o (by rw [hsame.eventID] at ho; exact Table.key_of_get ho ▸ ho)
        rw [hworkflows, hsame.workflowID, hsame.aggregateRevision]
        exact ⟨wf, hwf, hle⟩
    | consumer _ events db' hconsumer =>
        rw [hconsumer.frame]
        exact h.events
    | effect _ events s' heffect =>
        rw [heffect.frame]
        exact h.events
  topics := by
    have hold : ∀ k row, w.db.transport.inbox.get k = some row →
        ∃ o, w'.db.outbox.get k.eventID = some o ∧ row.topic = some o.topic := by
      intro k row hrow
      obtain ⟨o, ho, htopic⟩ := h.topics k row hrow
      obtain ⟨o', ho', rfl | hstep⟩ := hs.outbox ho
      · exact ⟨o', ho', htopic⟩
      · exact ⟨o', ho', by rw [hstep.sameEvent.topic]; exact htopic⟩
    intro k row hrow
    obtain hconsumer | ⟨-, hkept⟩ := hs.consumer_cases
    · generalize consumerTrace events = shown at hconsumer
      cases hconsumer with
      | ensure k' next _ hok =>
          obtain ⟨hsame, -⟩ | ⟨hframe, -, -⟩ := ensureConsumerOffset_eq_ok hok
          · exact hold k row (by rw [← hsame]; exact hrow)
          · exact hold k row (by rw [hframe] at hrow; exact hrow)
      | record wakeupID m r _ hok =>
          obtain ⟨id, o, hrecorded⟩ := recordInbox_eq_ok hok
          obtain ⟨-, hins, -⟩ | ⟨-, -, hinbox, -, -⟩ := hrecorded.inbox
          · rw [Table.get_insert hins] at hrow
            split at hrow
            · rename_i hk
              cases hrow
              refine ⟨o, ?_, ?_⟩
              · rw [hrecorded.frame, hk]
                exact hrecorded.outbox
              · have hagrees := hrecorded.agrees
                simp only [OutboxEvent.agrees, Bool.and_eq_true, decide_eq_true_eq] at hagrees
                rw [hagrees.1.1.1]
                rfl
            · exact hold k row hrow
          · exact hold k row (by rw [← hinbox]; exact hrow)
      | poison m reason r _ hok =>
          exact hold k row (by rw [← (quarantineMessage_eq_ok hok).inbox]; exact hrow)
    · exact hold k row (by rw [← hkept.inbox]; exact hrow)

theorem World.Run.comparable {env : Env} {now : Int} {trace : List Event} {w : World}
    (h : World.Run env (World.start now) trace w) : Comparable w.db :=
  h.keeps (I := fun w => Comparable w.db)
    ⟨⟨fun _ _ ha => (nomatch ha), fun _ _ hn => (nomatch hn)⟩, fun _ _ ha => (nomatch ha),
      fun _ ho => (nomatch ho), fun _ _ hrow => (nomatch hrow)⟩
    (fun _ _ _ hw hs => hw.step hs)

-- ============================================================================
-- The comparisons
-- ============================================================================

/-- In every state that any interleaving reaches, each comparison with what is stored is one of values
    exactly where reading does not confuse the documents. -/
theorem comparisons_exact {env : Env} {now : Int} {trace : List Event} {w : World}
    (h : World.Run env (World.start now) trace w) : ComparisonsExact w.db where
  documents := SourceTree.jsonEqual_exact_iff
  paired := fun _ _ hx hy => SourceTree.SameValue.alike hx hy
  results := fun _ _ _ ha hterm hresult amb _ _ hinput => .of_iff (by
    rw [SourceTree.read_ofJson]
    exact recordResultReceipt_accepts_iff h.comparable ha hterm hresult amb hinput)
  evidence := fun _ _ _ _ hrow href amb _ => .of_iff (by
    rw [SourceTree.read_ofJson]
    exact insertAttemptEvidence_accepts_iff amb hrow href)
  deliveries := fun _ _ ho _ hfresh _ _ hm hlast => .of_iff (by
    rw [SourceTree.read_ofJson]
    exact recordInbox_accepts_iff h.comparable ho hfresh hm hlast)

-- ============================================================================
-- Large numbers
-- ============================================================================

/-- The document `{"n":n}`. -/
def countDoc (n : Nat) : Json := .obj [("n", .num ⟨false, n, 0, none⟩)]

/-- The submission of `{"n":n}` as the result of the activity of `soloScript`. -/
def countResult (n : Nat) : ResultInput where
  workflowID := "w"
  nodeID := "a"
  iteration := 0
  attemptNumber := 1
  claimToken := uuidOf 3 5
  attemptState := .succeeded
  payload := .json (countDoc n)
  eventType := ""
  reconciliationRef := ""

def actionMove : Action → Move
  | .tick d => .tick d
  | .call op => .call op

/-- The result `{"n":9007199254740992}` is recorded. -/
def countScript : List Move :=
  (soloScript.take 6).map actionMove ++ [Move.call (.recordResultReceipt (countResult (2 ^ 53)))]

theorem value_eq_of_sameValue {m n : Nat}
    (h : SourceTree.SameValue (.ofJson (countDoc m)) (.ofJson (countDoc n))) : m = n := by
  have hnum := congrFun (JsonValue.obj.inj h) (PyStr.ofString "n").joined
  simp only [SourceTree.ofJsonMembers, SourceTree.valueMembers, SourceTree.ofJson, SourceTree.value, lastBinding,
    Option.none_or, if_true, Option.some.injEq, JsonValue.num.injEq] at hnum
  simpa [JsonNumber.value, JsonNumber.magnitude] using hnum

/-- The recorded result, and a submission of the next number for it. -/
theorem count_recorded : ∃ trace w a result, World.Run .plain (World.start 0) trace w ∧
    w.db.attempts.get (countResult 0).key = some a ∧ a.state.isTerminal = true ∧
    a.result = some result ∧ result.doc = countDoc (2 ^ 53) ∧
    (∀ n, Resubmits (countResult n) a (.ofJson (countDoc n))) ∧
    ∃ r db', recordResultReceipt (.drawn 7) (countResult (2 ^ 53 + 1)) w.db = .ok (r, db') := by
  have hrun : (World.moves? .plain 0 countScript (World.start 0)).any (fun r =>
      (r.2.db.attempts.get (countResult 0).key).any (fun a =>
        a.state.isTerminal && decide ((countResult 0).key = a.key) &&
        decide (uuidText (uuidOf 3 5) = a.claimToken) && decide (AttemptState.succeeded = a.state) &&
        a.result.any (fun result => decide (result.doc = countDoc (2 ^ 53))) &&
        (recordResultReceipt (.drawn 7) (countResult (2 ^ 53 + 1)) r.2.db).toOption.isSome)) = true := by
    decide +kernel
  obtain ⟨⟨trace, w⟩, hmoves, hshown⟩ := (Option.any_eq_true _ _).mp hrun
  obtain ⟨a, ha, hshown⟩ := (Option.any_eq_true _ _).mp hshown
  simp only [Bool.and_eq_true, decide_eq_true_eq] at hshown
  obtain ⟨⟨⟨⟨⟨hterm, hkey⟩, htoken⟩, houtcome⟩, hresult⟩, haccepted⟩ := hshown
  obtain ⟨result, hresult, hdoc⟩ := (Option.any_eq_true _ _).mp hresult
  obtain ⟨⟨r, db'⟩, hok⟩ := Option.isSome_iff_exists.mp haccepted
  have hevent : eventTopicFor (normalizeResultEventType "") ≠ none := by decide +kernel
  refine ⟨trace, w, a, result, World.run_of_moves? hmoves, ha, hterm, hresult, of_decide_eq_true hdoc,
    fun n => ⟨⟨show "w" ≠ "" by decide, show "a" ≠ "" by decide⟩, hkey, htoken, houtcome, hevent, rfl⟩,
    r, db', toOption_eq_some hok⟩

theorem comparisons_exact_recorded : ∃ trace w a result, World.Run .plain (World.start 0) trace w ∧
    w.db.attempts.get (countResult 0).key = some a ∧ a.state.isTerminal = true ∧
    a.result = some result ∧ (∀ n, Resubmits (countResult n) a (.ofJson (countDoc n))) ∧
    ComparisonsExact w.db := by
  obtain ⟨trace, w, a, result, hrun, ha, hterm, hresult, -, hinput, -⟩ := count_recorded
  exact ⟨trace, w, a, result, hrun, ha, hterm, hresult, hinput, comparisons_exact hrun⟩

/-- The result `{"n":9007199254740993}` is taken for the recorded `{"n":9007199254740992}`, and
    `1e400` is not equal to itself. -/
theorem comparisons_inexact :
    (∃ trace w a result v, World.Run .plain (World.start 0) trace w ∧
      w.db.attempts.get (countResult 0).key = some a ∧ a.state.isTerminal = true ∧
      a.result = some result ∧ Resubmits (countResult (2 ^ 53 + 1)) a v ∧
      (∃ r db', recordResultReceipt (.drawn 7) (countResult (2 ^ 53 + 1)) w.db = .ok (r, db')) ∧
      ¬ SourceTree.SameValue (.ofJson result.doc) v) ∧
    ∃ x : SourceTree, x.SameValue x ∧ Json.jsonEqual x.read x.read = false := by
  constructor
  · obtain ⟨trace, w, a, result, hrun, ha, hterm, hresult, hdoc, hinput, haccepted⟩ := count_recorded
    refine ⟨trace, w, a, result, _, hrun, ha, hterm, hresult, hinput _, haccepted, fun hsame => ?_⟩
    rw [hdoc] at hsame
    exact absurd (value_eq_of_sameValue hsame) (by decide)
  · exact ⟨.num ⟨false, 1, 0, some ⟨false, none, 0, 400⟩⟩, rfl, by decide +kernel⟩

end DurableEngine.Services
