/-
  DurableEngine.Services.Relay

  Relays (`Relay.RunOnce` in `internal/transport/transport.go`): a pass claims
  a batch of outbox rows and works it off one event after the other, with a
  publish to the broker between the claim and the finalizing transaction.

  Any number of passes interleave with each other and with every other
  transaction.  A pass may be lost at any point, by a crash or because the
  store refused one of its calls; the rows it claimed stay claimed until the
  claim runs out.
-/

import DurableEngine.State.Outbox

namespace DurableEngine.Services

open Lib State

structure RelayConfig where
  ownerID : String
  partitionID : Option Int
  batchSize : Int
  claimLease : Int
  retryBackoff : Int
deriving DecidableEq, Repr

/-- The claim a pass starts with. -/
def RelayConfig.claim (config : RelayConfig) : ClaimOutboxInput :=
  ⟨config.ownerID, config.batchSize, config.claimLease, config.partitionID⟩

/-- `supportedEventType`. -/
def supportedEventType (eventType : String) : Bool := (eventTopicFor eventType).isSome

/-- What the broker answered for the first event of a pass. -/
inductive Published where
  | not_yet
  | acknowledged
  | failed (error : String)
deriving DecidableEq, Repr

/-- A pass in progress: the events it has still to work off, and how far it is with the first. -/
structure Pass where
  config : RelayConfig
  todo : List OutboxEvent
  published : Published

/-- What relays show: the claims they got and the publishes that succeeded, each with the claim
    that the relay holds. -/
inductive RelayEvent where
  | claimed (eventID ownerID : String) (attempt : Int)
  | published (eventID ownerID : String) (attempt : Int)
deriving DecidableEq, Repr

def Pass.claimed (config : RelayConfig) (events : List OutboxEvent) : List RelayEvent :=
  events.map (fun e => .claimed e.eventID config.ownerID e.relayAttempts)

/-- `QuarantineOutbox` for an event whose type is not supported. -/
def Pass.quarantines (config : RelayConfig) (event : OutboxEvent) : QuarantineOutboxInput :=
  ⟨event.eventID, config.ownerID, event.relayAttempts, "unsupported event type: " ++ event.eventType⟩

/-- `FinalizeOutboxPublication` after the broker's answer. -/
def Pass.finalizes (config : RelayConfig) (event : OutboxEvent) : Published → Option FinalizeInput
  | .not_yet => none
  | .acknowledged => some ⟨event.eventID, config.ownerID, event.relayAttempts, true, "", 0⟩
  | .failed error =>
      some ⟨event.eventID, config.ownerID, event.relayAttempts, false, error, config.retryBackoff⟩

/-- The database and the passes in progress. -/
structure Relays where
  db : DB
  passes : List Pass

/-- One step of some relay: it starts a pass, gets an answer of the broker, or commits its next
    transaction.  `quarantine` and `release` are calls outside a pass, with any arguments. -/
inductive Relays.Step (env : Env) : Relays → List RelayEvent → Relays → Prop where
  | claim (s : Relays) (config : RelayConfig) (locked : String → Bool) (events : List OutboxEvent)
      (db' : DB) (h : claimOutbox config.claim locked s.db = .ok (events, db')) :
      Step env s (Pass.claimed config events) ⟨db', ⟨config, events, .not_yet⟩ :: s.passes⟩
  | reject (s : Relays) (before after : List Pass) (config : RelayConfig) (event : OutboxEvent)
      (rest : List OutboxEvent) (db' : DB)
      (passes : s.passes = before ++ ⟨config, event :: rest, .not_yet⟩ :: after)
      (unsupported : supportedEventType event.eventType = false)
      (h : quarantineOutbox env (Pass.quarantines config event) s.db = .ok ((), db')) :
      Step env s [] ⟨db', before ++ ⟨config, rest, .not_yet⟩ :: after⟩
  | publish (s : Relays) (before after : List Pass) (config : RelayConfig) (event : OutboxEvent)
      (rest : List OutboxEvent)
      (passes : s.passes = before ++ ⟨config, event :: rest, .not_yet⟩ :: after)
      (supported : supportedEventType event.eventType = true) :
      Step env s [.published event.eventID config.ownerID event.relayAttempts]
        { s with passes := before ++ ⟨config, event :: rest, .acknowledged⟩ :: after }
  | fail (s : Relays) (before after : List Pass) (config : RelayConfig) (event : OutboxEvent)
      (rest : List OutboxEvent) (error : String)
      (passes : s.passes = before ++ ⟨config, event :: rest, .not_yet⟩ :: after)
      (supported : supportedEventType event.eventType = true) :
      Step env s [] { s with passes := before ++ ⟨config, event :: rest, .failed error⟩ :: after }
  | finalize (s : Relays) (before after : List Pass) (config : RelayConfig) (event : OutboxEvent)
      (rest : List OutboxEvent) (published : Published) (input : FinalizeInput) (db' : DB)
      (passes : s.passes = before ++ ⟨config, event :: rest, published⟩ :: after)
      (call : Pass.finalizes config event published = some input)
      (h : finalizeOutboxPublication input s.db = .ok ((), db')) :
      Step env s [] ⟨db', before ++ ⟨config, rest, .not_yet⟩ :: after⟩
  | lost (s : Relays) (before after : List Pass) (pass : Pass)
      (passes : s.passes = before ++ pass :: after) :
      Step env s [] { s with passes := before ++ after }
  | quarantine (s : Relays) (input : QuarantineOutboxInput) (db' : DB)
      (h : quarantineOutbox env input s.db = .ok ((), db')) : Step env s [] { s with db := db' }
  | release (s : Relays) (input : FinalizeInput) (db' : DB) (failed : input.acknowledged = false)
      (h : finalizeOutboxPublication input s.db = .ok ((), db')) : Step env s [] { s with db := db' }

-- ============================================================================
-- What a relay does to the outbox
-- ============================================================================

/-- What one step of the relays does to the row `o` of an event: nothing, or a move that the
    events of the step and the passes account for. -/
inductive RowMove (s : Relays) (events : List RelayEvent) (id : String) (o : OutboxEvent) :
    OutboxEvent → Prop where
  | same : RowMove s events id o o
  | claimed (ownerID owner : String) (expiry : Int) (waits : o.waits s.db.now = true)
      (shown : .claimed id ownerID (o.relayAttempts + 1) ∈ events) :
      RowMove s events id o (o.claim owner expiry)
  | published (pass : Pass) (event : OutboxEvent) (rest : List OutboxEvent)
      (going : pass ∈ s.passes) (todo : pass.todo = event :: rest)
      (acknowledged : pass.published = .acknowledged) (named : uuidText event.eventID = some id)
      (held : o.heldBy pass.config.ownerID event.relayAttempts) :
      RowMove s events id o (o.publish s.db.now)
  | released (retryAt : Int) (error : String) (claimed : o.publishState = .claimed) :
      RowMove s events id o (o.release retryAt error)
  | quarantined (reason : String) (claimed : o.publishState = .claimed) :
      RowMove s events id o (o.quarantine reason)

theorem RowMove.step {s : Relays} {events : List RelayEvent} {id : String} {o o' : OutboxEvent}
    (h : RowMove s events id o o') : o' = o ∨ o.Step s.db.now o' := by
  cases h with
  | same => exact .inl rfl
  | claimed ownerID owner expiry waits _ => exact .inr (.claimed owner expiry waits)
  | published _ _ _ _ _ _ _ held => exact .inr (.published held.1)
  | released retryAt error claimed => exact .inr (.released retryAt error claimed)
  | quarantined reason claimed => exact .inr (.quarantined reason claimed)

/-- The rows after one of them was rewritten. -/
theorem RowMove.of_rewrites {s : Relays} {events : List RelayEvent} {db' : DB} {k id : String}
    {o x x' : OutboxEvent} (hrewrites : Rewrites s.db db' k x x')
    (hmove : RowMove s events k x x') (ho : s.db.outbox.get id = some o) :
    ∃ o', db'.outbox.get id = some o' ∧ RowMove s events id o o' := by
  by_cases hid : id = k
  · subst hid
    have hrow := hrewrites.row
    rw [ho] at hrow
    cases hrow
    exact ⟨x', by rw [hrewrites.outbox, if_pos rfl], hmove⟩
  · exact ⟨o, by rw [hrewrites.outbox, if_neg hid]; exact ho, .same⟩

/-- A call of `FinalizeOutboxPublication`: the publish of an acknowledged event is a pass's. -/
theorem RowMove.of_finalize {s : Relays} {events : List RelayEvent} {input : FinalizeInput}
    {db' : DB} {id : String} {o : OutboxEvent}
    (h : finalizeOutboxPublication input s.db = .ok ((), db'))
    (hack : input.acknowledged = true → ∃ pass ∈ s.passes, ∃ event rest, pass.todo = event :: rest ∧
      pass.published = .acknowledged ∧ input.eventID = event.eventID ∧
      input.ownerID = pass.config.ownerID ∧ input.relayAttempt = event.relayAttempts)
    (ho : s.db.outbox.get id = some o) :
    ∃ o', db'.outbox.get id = some o' ∧ RowMove s events id o o' := by
  obtain ⟨k, x, hk, hx, hcases⟩ := finalizeOutboxPublication_eq_ok h
  obtain ⟨-, rfl⟩ | ⟨hheld, htrue, -, hrewrites⟩ | ⟨hheld, -, retryAt, hrewrites⟩ := hcases
  · exact ⟨o, ho, .same⟩
  · obtain ⟨pass, hpass, event, rest, htodo, hpublished, hevent, howner, hattempt⟩ := hack htrue
    rw [hevent] at hk
    rw [howner, hattempt] at hheld
    exact RowMove.of_rewrites hrewrites (.published pass event rest hpass htodo hpublished hk hheld) ho
  · exact RowMove.of_rewrites hrewrites (.released retryAt input.publishErr hheld.1) ho

theorem RowMove.of_quarantine {env : Env} {s : Relays} {events : List RelayEvent}
    {input : QuarantineOutboxInput} {db' : DB} {id : String} {o : OutboxEvent}
    (h : quarantineOutbox env input s.db = .ok ((), db')) (ho : s.db.outbox.get id = some o) :
    ∃ o', db'.outbox.get id = some o' ∧ RowMove s events id o o' := by
  obtain ⟨k, x, -, hheld, hrewrites⟩ := quarantineOutbox_eq_ok h
  exact RowMove.of_rewrites hrewrites (.quarantined input.reason hheld.1) ho

namespace Relays

/-- Every row moves as the transactions of a relay let it. -/
theorem Step.row {env : Env} {s s' : Relays} {events : List RelayEvent} (h : Step env s events s')
    {id : String} {o : OutboxEvent} (ho : s.db.outbox.get id = some o) :
    ∃ o', s'.db.outbox.get id = some o' ∧ RowMove s events id o o' := by
  cases h with
  | claim config locked claimed db' h =>
      obtain ⟨owner, outbox, -, hclaimed, rfl⟩ := claimOutbox_eq_ok h
      by_cases hid : ∃ e ∈ claimed, e.eventID = id
      · obtain ⟨e, he, rfl⟩ := hid
        obtain ⟨o₀, ho₀, hwaits, rfl, hget⟩ := hclaimed.chosen e he
        rw [ho] at ho₀
        cases ho₀
        exact ⟨_, hget, .claimed config.ownerID owner _ hwaits
          (List.mem_map.mpr ⟨_, he, rfl⟩)⟩
      · refine ⟨o, ?_, .same⟩
        rw [← ho]
        exact hclaimed.other id (fun e he heq => hid ⟨e, he, heq⟩)
  | reject before after config event rest db' _ _ h => exact RowMove.of_quarantine h ho
  | publish | fail | lost => exact ⟨o, ho, .same⟩
  | finalize before after config event rest published input db' hpasses hcall h =>
      refine RowMove.of_finalize h (fun htrue => ?_) ho
      refine ⟨⟨config, event :: rest, published⟩, ?_, event, rest, rfl, ?_⟩
      · rw [hpasses]
        exact List.mem_append_right _ List.mem_cons_self
      · cases published with
        | not_yet => cases hcall
        | acknowledged =>
            cases hcall
            exact ⟨rfl, rfl, rfl, rfl⟩
        | failed error =>
            cases hcall
            cases htrue
  | quarantine input db' h => exact RowMove.of_quarantine h ho
  | release input db' hfailed h =>
      refine RowMove.of_finalize h (fun htrue => ?_) ho
      rw [hfailed] at htrue
      cases htrue

/-- Relays add no row. -/
theorem Step.absent {env : Env} {s s' : Relays} {events : List RelayEvent} (h : Step env s events s')
    {id : String} (hid : s.db.outbox.get id = none) : s'.db.outbox.get id = none := by
  have hfinalize : ∀ input db', finalizeOutboxPublication input s.db = .ok ((), db') →
      db'.outbox.get id = none := by
    intro input db' hok
    obtain ⟨k, x, -, -, hcases⟩ := finalizeOutboxPublication_eq_ok hok
    obtain ⟨-, rfl⟩ | ⟨-, -, -, hrewrites⟩ | ⟨-, -, retryAt, hrewrites⟩ := hcases
    · exact hid
    · exact hrewrites.absent hid
    · exact hrewrites.absent hid
  have hquarantine : ∀ input db', quarantineOutbox env input s.db = .ok ((), db') →
      db'.outbox.get id = none := by
    intro input db' hok
    obtain ⟨k, x, -, -, hrewrites⟩ := quarantineOutbox_eq_ok hok
    exact hrewrites.absent hid
  cases h with
  | claim config locked claimed db' h =>
      obtain ⟨owner, outbox, -, hclaimed, rfl⟩ := claimOutbox_eq_ok h
      refine (hclaimed.other id (fun e he heq => ?_)).trans hid
      obtain ⟨o, ho, -⟩ := hclaimed.chosen e he
      rw [heq, hid] at ho
      cases ho
  | reject _ _ _ _ _ _ _ _ h => exact hquarantine _ _ h
  | publish | fail | lost => exact hid
  | finalize _ _ _ _ _ _ _ _ _ _ h => exact hfinalize _ _ h
  | quarantine _ _ h => exact hquarantine _ _ h
  | release _ _ _ h => exact hfinalize _ _ h

theorem Step.frame {env : Env} {s s' : Relays} {events : List RelayEvent} (h : Step env s events s') :
    s'.db = s.db.relayFrame s'.db := by
  have hfinalize : ∀ input db', finalizeOutboxPublication input s.db = .ok ((), db') →
      db' = s.db.relayFrame db' := by
    intro input db' hok
    obtain ⟨k, x, -, -, hcases⟩ := finalizeOutboxPublication_eq_ok hok
    obtain ⟨-, rfl⟩ | ⟨-, -, -, hrewrites⟩ | ⟨-, -, retryAt, hrewrites⟩ := hcases
    · rfl
    · exact hrewrites.frame
    · exact hrewrites.frame
  have hquarantine : ∀ input db', quarantineOutbox env input s.db = .ok ((), db') →
      db' = s.db.relayFrame db' := by
    intro input db' hok
    obtain ⟨k, x, -, -, hrewrites⟩ := quarantineOutbox_eq_ok hok
    exact hrewrites.frame
  cases h with
  | claim config locked claimed db' h =>
      obtain ⟨owner, outbox, -, -, rfl⟩ := claimOutbox_eq_ok h
      rfl
  | reject _ _ _ _ _ _ _ _ h => exact hquarantine _ _ h
  | publish | fail | lost => rfl
  | finalize _ _ _ _ _ _ _ _ _ _ h => exact hfinalize _ _ h
  | quarantine _ _ h => exact hquarantine _ _ h
  | release _ _ _ h => exact hfinalize _ _ h

/-- A claim counts the row up. -/
theorem Step.claimed {env : Env} {s s' : Relays} {events : List RelayEvent} (h : Step env s events s')
    {id ownerID : String} {k : Int} (hshown : .claimed id ownerID k ∈ events) :
    ∃ o o', s.db.outbox.get id = some o ∧ s'.db.outbox.get id = some o' ∧ k = o.relayAttempts + 1 ∧
      o'.relayAttempts = k := by
  cases h with
  | claim config locked claimed db' h =>
      obtain ⟨e, he, heq⟩ := List.mem_map.mp hshown
      cases heq
      obtain ⟨owner, outbox, -, hclaimed, rfl⟩ := claimOutbox_eq_ok h
      obtain ⟨o, ho, -, rfl, hget⟩ := hclaimed.chosen e he
      exact ⟨o, _, ho, hget, rfl, rfl⟩
  | publish => simp at hshown
  | reject | fail | finalize | lost | quarantine | release => cases hshown

/-- One step claims a row once. -/
theorem Step.claimed_once {env : Env} {s s' : Relays} {events : List RelayEvent}
    (h : Step env s events s') : events.Pairwise (fun a b => ∀ id ownerID k ownerID' k',
      a = .claimed id ownerID k → b = .claimed id ownerID' k' → False) := by
  cases h with
  | claim config locked claimed db' h =>
      obtain ⟨owner, outbox, -, hclaimed, rfl⟩ := claimOutbox_eq_ok h
      have hnodup := List.pairwise_map.mp hclaimed.nodup
      refine List.pairwise_map.mpr (hnodup.imp (fun hne id ownerID k ownerID' k' ha hb => ?_))
      exact hne ((RelayEvent.claimed.inj ha).1.trans (RelayEvent.claimed.inj hb).1.symm)
  | publish => exact List.pairwise_singleton _ _
  | reject | fail | finalize | lost | quarantine | release => exact List.Pairwise.nil

-- ============================================================================
-- The passes of a run
-- ============================================================================

/-- What a run keeps of its passes and its trace. -/
structure Sound (trace : List RelayEvent) (s : Relays) : Prop where
  todo : ∀ pass ∈ s.passes, ∀ e ∈ pass.todo, (∃ o, s.db.outbox.get e.eventID = some o) ∧
    .claimed e.eventID pass.config.ownerID e.relayAttempts ∈ trace
  acknowledged : ∀ pass ∈ s.passes, pass.published = .acknowledged → ∀ e rest,
    pass.todo = e :: rest → .published e.eventID pass.config.ownerID e.relayAttempts ∈ trace
  counted : ∀ id ownerID k, .claimed id ownerID k ∈ trace →
    ∃ o, s.db.outbox.get id = some o ∧ k ≤ o.relayAttempts
  ordered : trace.Pairwise (fun a b => ∀ id ownerID k ownerID' k', a = .claimed id ownerID k →
    b = .claimed id ownerID' k' → k < k')
  published : ∀ id o, s.db.outbox.get id = some o → o.publishState = .published →
    ∃ ownerID, .claimed id ownerID o.relayAttempts ∈ trace ∧
      .published id ownerID o.relayAttempts ∈ trace

/-- Other transactions add pending rows and leave the others alone. -/
theorem Sound.of_db {trace : List RelayEvent} {s : Relays} {db' : DB} (h : s.Sound trace)
    (hkept : ∀ id o, s.db.outbox.get id = some o → db'.outbox.get id = some o)
    (hnew : ∀ id o, db'.outbox.get id = some o →
      s.db.outbox.get id = some o ∨ o.publishState = .pending) :
    Sound trace { s with db := db' } where
  todo := by
    intro pass hpass e he
    obtain ⟨⟨o, ho⟩, hclaim⟩ := h.todo pass hpass e he
    exact ⟨⟨o, hkept _ _ ho⟩, hclaim⟩
  acknowledged := h.acknowledged
  counted := by
    intro id ownerID k hmem
    obtain ⟨o, ho, hle⟩ := h.counted id ownerID k hmem
    exact ⟨o, hkept _ _ ho, hle⟩
  ordered := h.ordered
  published := by
    intro id o ho hpublished
    obtain hold | hpending := hnew id o ho
    · exact h.published id o hold hpublished
    · rw [hpublished] at hpending
      cases hpending

theorem Sound.counted_step {env : Env} {trace events : List RelayEvent} {s s' : Relays}
    (h : s.Sound trace) (hs : Step env s events s') (id ownerID : String) (k : Int)
    (hmem : .claimed id ownerID k ∈ trace ++ events) :
    ∃ o, s'.db.outbox.get id = some o ∧ k ≤ o.relayAttempts := by
  rcases List.mem_append.mp hmem with hold | hnew
  · obtain ⟨o, ho, hle⟩ := h.counted id ownerID k hold
    obtain ⟨o', ho', hmove⟩ := hs.row ho
    refine ⟨o', ho', ?_⟩
    obtain rfl | hstep := hmove.step
    · exact hle
    · exact Int.le_trans hle hstep.attempts
  · obtain ⟨o, o', -, ho', -, hk⟩ := hs.claimed hnew
    exact ⟨o', ho', Int.le_of_eq hk.symm⟩

theorem Sound.ordered_step {env : Env} {trace events : List RelayEvent} {s s' : Relays}
    (h : s.Sound trace) (hs : Step env s events s') :
    (trace ++ events).Pairwise (fun a b => ∀ id ownerID k ownerID' k', a = .claimed id ownerID k →
      b = .claimed id ownerID' k' → k < k') := by
  refine List.pairwise_append.mpr ⟨h.ordered, ?_, ?_⟩
  · exact hs.claimed_once.imp (fun hno id ownerID k ownerID' k' ha hb =>
      (hno id ownerID k ownerID' k' ha hb).elim)
  · intro a ha b hb id ownerID k ownerID' k' hak hbk
    subst hak
    subst hbk
    obtain ⟨o, ho, hle⟩ := h.counted id ownerID k ha
    obtain ⟨o₀, o', ho₀, -, hk, -⟩ := hs.claimed hb
    rw [ho] at ho₀
    cases ho₀
    omega

theorem Sound.published_step {env : Env} {trace events : List RelayEvent} {s s' : Relays}
    (h : s.Sound trace) (htyped : s.db.EventIDsTyped) (hs : Step env s events s') (id : String)
    (o' : OutboxEvent) (ho' : s'.db.outbox.get id = some o') (hpublished : o'.publishState = .published) :
    ∃ ownerID, .claimed id ownerID o'.relayAttempts ∈ trace ++ events ∧
      .published id ownerID o'.relayAttempts ∈ trace ++ events := by
  cases ho : s.db.outbox.get id with
  | none =>
      rw [hs.absent ho] at ho'
      cases ho'
  | some o =>
      obtain ⟨o₁, ho₁, hmove⟩ := hs.row ho
      rw [ho'] at ho₁
      cases ho₁
      cases hmove with
      | same =>
          obtain ⟨ownerID, hclaim, hpub⟩ := h.published id o' ho hpublished
          exact ⟨ownerID, List.mem_append_left _ hclaim, List.mem_append_left _ hpub⟩
      | claimed => cases hpublished
      | released => cases hpublished
      | quarantined => cases hpublished
      | published pass event rest hpass htodo hack hnamed hheld =>
          obtain ⟨⟨o₂, ho₂⟩, hclaim⟩ := h.todo pass hpass event (htodo ▸ List.mem_cons_self)
          have hid : event.eventID = id := by
            have hself := htyped _ (Table.mem_of_get ho₂)
            rw [Table.key_of_get ho₂, hnamed] at hself
            exact (Option.some.inj hself).symm
          have hpub := h.acknowledged pass hpass hack event rest htodo
          rw [hid, ← hheld.2.2] at hclaim hpub
          exact ⟨pass.config.ownerID, List.mem_append_left _ hclaim, List.mem_append_left _ hpub⟩

/-- The passes after one of them went on to `next`. -/
theorem mem_replaced {before after : List Pass} {pass next p : Pass} {passes : List Pass}
    (hpasses : passes = before ++ pass :: after) (h : p ∈ before ++ next :: after) :
    p = next ∨ p ∈ passes := by
  rw [hpasses]
  simp only [List.mem_append, List.mem_cons] at h ⊢
  tauto

/-- What a step does to the passes: a pass was going on, or it works off a batch that was just
    claimed, or it is one step further with its events. -/
theorem Step.passes {env : Env} {s s' : Relays} {events : List RelayEvent} (h : Step env s events s')
    {pass : Pass} (hpass : pass ∈ s'.passes) :
    pass ∈ s.passes ∨
      (pass.published = .not_yet ∧ ∀ e ∈ pass.todo,
        .claimed e.eventID pass.config.ownerID e.relayAttempts ∈ events) ∨
      ∃ old ∈ s.passes, old.config = pass.config ∧ (∀ e ∈ pass.todo, e ∈ old.todo) ∧
        (pass.published = .acknowledged → ∀ e rest, pass.todo = e :: rest →
          .published e.eventID pass.config.ownerID e.relayAttempts ∈ events) := by
  have hmem : ∀ {before after : List Pass} {p : Pass}, s.passes = before ++ p :: after →
      p ∈ s.passes := by
    intro before after p hp
    rw [hp]
    exact List.mem_append_right _ List.mem_cons_self
  cases h with
  | claim config locked claimed db' h =>
      rcases List.mem_cons.mp hpass with rfl | hold
      · exact .inr (.inl ⟨rfl, fun e he => List.mem_map.mpr ⟨e, he, rfl⟩⟩)
      · exact .inl hold
  | reject before after config event rest db' hpasses _ _ =>
      rcases mem_replaced hpasses hpass with rfl | hold
      · exact .inr (.inr ⟨_, hmem hpasses, rfl, fun e he => List.mem_cons_of_mem _ he,
          fun hack => nomatch hack⟩)
      · exact .inl hold
  | publish before after config event rest hpasses _ =>
      rcases mem_replaced hpasses hpass with rfl | hold
      · refine .inr (.inr ⟨_, hmem hpasses, rfl, fun e he => he, fun _ e rest' htodo => ?_⟩)
        cases htodo
        exact List.mem_singleton.mpr rfl
      · exact .inl hold
  | fail before after config event rest error hpasses _ =>
      rcases mem_replaced hpasses hpass with rfl | hold
      · exact .inr (.inr ⟨_, hmem hpasses, rfl, fun e he => he, fun hack => nomatch hack⟩)
      · exact .inl hold
  | finalize before after config event rest published input db' hpasses _ _ =>
      rcases mem_replaced hpasses hpass with rfl | hold
      · exact .inr (.inr ⟨_, hmem hpasses, rfl, fun e he => List.mem_cons_of_mem _ he,
          fun hack => nomatch hack⟩)
      · exact .inl hold
  | lost before after old hpasses =>
      refine .inl ?_
      rw [hpasses]
      exact ((List.Sublist.refl before).append (List.sublist_cons_self old after)).subset hpass
  | quarantine | release => exact .inl hpass

theorem Sound.step {env : Env} {trace events : List RelayEvent} {s s' : Relays}
    (h : s.Sound trace) (htyped : s.db.EventIDsTyped) (hs : Step env s events s') :
    s'.Sound (trace ++ events) where
  todo := by
    intro pass hpass e he
    have hclaim : .claimed e.eventID pass.config.ownerID e.relayAttempts ∈ trace ++ events := by
      obtain hold | ⟨-, hclaims⟩ | ⟨old, hold, hconfig, htodo, -⟩ := hs.passes hpass
      · exact List.mem_append_left _ (h.todo pass hold e he).2
      · exact List.mem_append_right _ (hclaims e he)
      · rw [← hconfig]
        exact List.mem_append_left _ (h.todo old hold e (htodo e he)).2
    obtain ⟨o, ho, -⟩ := h.counted_step hs _ _ _ hclaim
    exact ⟨⟨o, ho⟩, hclaim⟩
  acknowledged := by
    intro pass hpass hack e rest htodo
    obtain hold | ⟨hnot, -⟩ | ⟨old, -, -, -, hshown⟩ := hs.passes hpass
    · exact List.mem_append_left _ (h.acknowledged pass hold hack e rest htodo)
    · rw [hack] at hnot
      cases hnot
    · exact List.mem_append_right _ (hshown hack e rest htodo)
  counted := h.counted_step hs
  ordered := h.ordered_step hs
  published := h.published_step htyped hs

end Relays

end DurableEngine.Services
