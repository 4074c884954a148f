/-
  DurableEngine.Services.RelaySafety

  What holds of the outbox along every run of the world: rows move only as
  the transactions of a relay let them and are never lost, a claim fences every
  earlier claim of its row, and a published row was published by its claimant.
-/

import DurableEngine.Services.Script

namespace DurableEngine.Services

open Lib State

-- ============================================================================
-- Operations of the store
-- ============================================================================

/-- A committed operation leaves the rows that are there. -/
theorem outbox_get_of_commit {env : Env} {amb : Ambient} {α : Type} {op : Op α} {db db' : DB} {a : α}
    (h : op.run env amb db = .ok (a, db')) {id : String} {o : OutboxEvent}
    (ho : db.outbox.get id = some o) : db'.outbox.get id = some o := by
  obtain hsame | ⟨_, _, ⟨event, hins, -⟩, -⟩ := (Op.run_commit h).change.outbox_cases
  · rw [hsame]
    exact ho
  · exact Table.get_insert_of_get hins ho

/-- The rows it adds are new. -/
theorem outbox_new_of_commit {env : Env} {amb : Ambient} {α : Type} {op : Op α} {db db' : DB} {a : α}
    (h : op.run env amb db = .ok (a, db')) {id : String} {o : OutboxEvent}
    (ho : db'.outbox.get id = some o) : db.outbox.get id = some o ∨ o.IsNew := by
  obtain hsame | ⟨_, _, ⟨event, hins, -, -, hnew⟩, -⟩ := (Op.run_commit h).change.outbox_cases
  · rw [← hsame]
    exact .inl ho
  · rw [Table.get_insert hins] at ho
    split at ho
    · cases ho
      exact .inr hnew
    · exact .inl ho

-- ============================================================================
-- Steps
-- ============================================================================

namespace World

/-- No row is lost, and it moves only as a relay lets it. -/
theorem Step.outbox {env : Env} {w w' : World} {events : List Event} (h : Step env w events w')
    {id : String} {o : OutboxEvent} (ho : w.db.outbox.get id = some o) :
    ∃ o', w'.db.outbox.get id = some o' ∧ (o' = o ∨ o.Step w.db.now o') := by
  cases h with
  | tick _ d => exact ⟨o, ho, .inl rfl⟩
  | commit _ amb op a db' h _ => exact ⟨o, outbox_get_of_commit h ho, .inl rfl⟩
  | relay _ events s' h =>
      obtain ⟨o', ho', hmove⟩ := h.row ho
      exact ⟨o', ho', hmove.step⟩
  | consumer _ events db' h => exact ⟨o, by rw [h.frame]; exact ho, .inl rfl⟩
  | effect _ events s' h => exact ⟨o, by rw [h.frame]; exact ho, .inl rfl⟩

theorem Step.typed {env : Env} {w w' : World} {events : List Event} (h : Step env w events w')
    (htyped : w.db.EventIDsTyped) : w'.db.EventIDsTyped := by
  cases h with
  | tick _ d => exact htyped
  | commit _ amb op a db' h typed => exact typed
  | relay _ events s' h =>
      intro o' ho'
      have hget := Table.get_of_mem ho'
      cases hold : w.db.outbox.get o'.eventID with
      | none =>
          rw [h.absent hold] at hget
          cases hget
      | some o =>
          have hself := htyped o (Table.mem_of_get hold)
          rwa [Table.key_of_get hold] at hself
  | consumer _ events db' h =>
      rw [h.frame]
      exact htyped
  | effect _ events s' h =>
      rw [h.frame]
      exact htyped

/-- What a run keeps of the outbox and the relays. -/
structure RelaySound (trace : List Event) (w : World) : Prop where
  typed : w.db.EventIDsTyped
  sound : Relays.Sound (relayTrace trace) ⟨w.db, w.passes⟩

theorem RelaySound.step {env : Env} {trace events : List Event} {w w' : World}
    (h : w.RelaySound trace) (hs : Step env w events w') : w'.RelaySound (trace ++ events) := by
  refine ⟨hs.typed h.typed, ?_⟩
  have hother : ∀ db' : DB, db'.outbox = w.db.outbox →
      Relays.Sound (relayTrace trace) ⟨db', w.passes⟩ := fun db' hdb' =>
    h.sound.of_db (fun id o ho => by rw [hdb']; exact ho) (fun id o ho => .inl (by rw [← hdb']; exact ho))
  cases hs with
  | tick _ d => simpa using hother (w.db.tick d) rfl
  | commit _ amb op a db' hrun _ =>
      simpa using h.sound.of_db (fun id o ho => outbox_get_of_commit hrun ho)
        (fun id o ho => (outbox_new_of_commit hrun ho).imp_right (·.pending))
  | relay _ events s' hs => simpa using h.sound.step h.typed hs
  | consumer _ events db' hs =>
      simpa using hother db' (by rw [hs.frame]; rfl)
  | effect _ events s' hs =>
      simpa using hother s'.db (by rw [hs.frame])

theorem Run.relaySound {env : Env} {now : Int} {trace : List Event} {w : World}
    (h : Run env (start now) trace w) : w.RelaySound trace := by
  refine h.invariant ⟨fun o ho => (nomatch ho), ?_⟩ (fun trace events w w' hw hs => hw.step hs)
  exact ⟨fun _ hp => (nomatch hp), fun _ hp => (nomatch hp), fun _ _ _ hmem => (nomatch hmem),
    List.Pairwise.nil, fun id o ho => (nomatch ho)⟩

/-- Along a run a row keeps its event, and its count of claims does not decrease. -/
theorem Run.outbox {env : Env} {w w' : World} {trace : List Event} (h : Run env w trace w')
    {id : String} {o : OutboxEvent} (ho : w.db.outbox.get id = some o) :
    ∃ o', w'.db.outbox.get id = some o' ∧ o.SameEvent o' ∧ o.relayAttempts ≤ o'.relayAttempts := by
  refine h.keeps (I := fun w' => ∃ o', w'.db.outbox.get id = some o' ∧ o.SameEvent o' ∧
    o.relayAttempts ≤ o'.relayAttempts) ⟨o, ho, .refl o, Int.le_refl _⟩ ?_
  rintro events w₁ w₂ ⟨o₁, ho₁, hsame, hle⟩ hs
  obtain ⟨o₂, ho₂, rfl | hstep⟩ := hs.outbox ho₁
  · exact ⟨o₂, ho₂, hsame, hle⟩
  · exact ⟨o₂, ho₂, hsame.trans hstep.sameEvent, Int.le_trans hle hstep.attempts⟩

/-- A published or quarantined row does not change again. -/
theorem Run.settled {env : Env} {w w' : World} {trace : List Event} (h : Run env w trace w')
    {id : String} {o : OutboxEvent} (ho : w.db.outbox.get id = some o)
    (hsettled : o.publishState = .published ∨ o.publishState = .quarantined) :
    w'.db.outbox.get id = some o := by
  refine h.keeps (I := fun w' => w'.db.outbox.get id = some o) ho ?_
  intro events w₁ w₂ ho₁ hs
  obtain ⟨o₂, ho₂, rfl | hstep⟩ := hs.outbox ho₁
  · exact ho₂
  · obtain hstate | hstate := hstep.live <;> rw [hstate] at hsettled <;> simp at hsettled

theorem Step.counts {env : Env} {w w' : World} {events : List Event} (h : Step env w events w')
    {id ownerID : String} {k : Int} (hshown : .claimed id ownerID k ∈ relayTrace events) :
    ∃ o o', w.db.outbox.get id = some o ∧ w'.db.outbox.get id = some o' ∧
      o.relayAttempts < k ∧ o'.relayAttempts = k := by
  cases h with
  | tick | commit => cases hshown
  | relay _ events s' h =>
      rw [relayTrace_relay] at hshown
      obtain ⟨o, o', ho, ho', hk, hk'⟩ := h.claimed hshown
      exact ⟨o, o', ho, ho', by omega, hk'⟩
  | consumer _ events db' h =>
      rw [relayTrace_consumer] at hshown
      cases hshown
  | effect _ events s' h =>
      rw [relayTrace_effect] at hshown
      cases hshown

end World

-- ============================================================================
-- Fencing
-- ============================================================================

/-- The claim of the event by `ownerID`, as the `k`-th, was followed by another one. -/
def Superseded (trace : List RelayEvent) (id ownerID : String) (k : Int) : Prop :=
  ∃ before after ownerID' k', trace = before ++ .claimed id ownerID k :: after ∧
    .claimed id ownerID' k' ∈ after

theorem Relays.Sound.superseded {trace : List RelayEvent} {s : Relays} (h : s.Sound trace)
    {id ownerID : String} {k : Int} (hold : Superseded trace id ownerID k) :
    ∃ o, s.db.outbox.get id = some o ∧ k < o.relayAttempts := by
  obtain ⟨before, after, ownerID', k', heq, hlater⟩ := hold
  have hmem : .claimed id ownerID' k' ∈ trace := by
    rw [heq]
    exact List.mem_append_right _ (List.mem_cons_of_mem _ hlater)
  obtain ⟨o, ho, hle⟩ := h.counted id ownerID' k' hmem
  have hordered := h.ordered
  rw [heq] at hordered
  obtain ⟨-, hpair, -⟩ := List.pairwise_append.mp hordered
  have hlt := (List.pairwise_cons.mp hpair).1 _ hlater id ownerID k ownerID' k' rfl rfl
  exact ⟨o, ho, by omega⟩

/-- The outbox is safe in a state of a run: what its next steps, its later states and the calls
    of relays that were overtaken can do to a row, and what a published row proves. -/
structure OutboxSafe (env : Env) (trace : List Event) (w : World) : Prop where
  moves : ∀ events w', World.Step env w events w' → ∀ id o, w.db.outbox.get id = some o →
    ∃ o', w'.db.outbox.get id = some o' ∧ (o' = o ∨ o.Step w.db.now o')
  kept : ∀ trace' w', World.Run env w trace' w' → ∀ id o, w.db.outbox.get id = some o →
    ∃ o', w'.db.outbox.get id = some o' ∧ o.SameEvent o' ∧ o.relayAttempts ≤ o'.relayAttempts
  absorbing : ∀ trace' w', World.Run env w trace' w' → ∀ id o, w.db.outbox.get id = some o →
    o.publishState = .published ∨ o.publishState = .quarantined → w'.db.outbox.get id = some o
  counts : ∀ events w', World.Step env w events w' → ∀ id ownerID k,
    .claimed id ownerID k ∈ relayTrace events → ∃ o o', w.db.outbox.get id = some o ∧
      w'.db.outbox.get id = some o' ∧ o.relayAttempts < k ∧ o'.relayAttempts = k
  finalizeFenced : ∀ id ownerID k, Superseded (relayTrace trace) id ownerID k →
    ∀ input : FinalizeInput, uuidText input.eventID = some id → input.ownerID = ownerID →
      input.relayAttempt = k → ∀ db', finalizeOutboxPublication input w.db = .ok ((), db') →
      db'.outbox.get id = w.db.outbox.get id
  quarantineFenced : ∀ id ownerID k, Superseded (relayTrace trace) id ownerID k →
    ∀ input : QuarantineOutboxInput, uuidText input.eventID = some id → input.ownerID = ownerID →
      input.relayAttempt = k → ∀ db', quarantineOutbox env input w.db ≠ .ok ((), db')
  published : ∀ id o, w.db.outbox.get id = some o → o.publishState = .published →
    ∃ ownerID, .claimed id ownerID o.relayAttempts ∈ relayTrace trace ∧
      .published id ownerID o.relayAttempts ∈ relayTrace trace

/-- In every state that any interleaving of relays, consumers, effect calls and operations of the
    store reaches, the outbox is safe. -/
theorem outbox_safe {env : Env} {now : Int} {trace : List Event} {w : World}
    (h : World.Run env (World.start now) trace w) : OutboxSafe env trace w where
  moves := fun _ _ hs _ _ ho => hs.outbox ho
  kept := fun _ _ hrun _ _ ho => hrun.outbox ho
  absorbing := fun _ _ hrun _ _ ho hsettled => hrun.settled ho hsettled
  counts := fun _ _ hs _ _ _ hshown => hs.counts hshown
  finalizeFenced := by
    intro id ownerID k hold input hid _ hattempt db' hok
    obtain ⟨o, ho, hlt⟩ := h.relaySound.sound.superseded hold
    obtain ⟨id', o', hid', ho', hcases⟩ := finalizeOutboxPublication_eq_ok hok
    rw [hid] at hid'
    cases hid'
    rw [show w.db.outbox.get id = some o from ho] at ho'
    cases ho'
    obtain ⟨-, rfl⟩ | ⟨hheld, -⟩ | ⟨hheld, -⟩ := hcases
    · rfl
    · have hcount := hheld.2.2
      omega
    · have hcount := hheld.2.2
      omega
  quarantineFenced := by
    intro id ownerID k hold input hid _ hattempt db' hok
    obtain ⟨o, ho, hlt⟩ := h.relaySound.sound.superseded hold
    obtain ⟨id', o', hid', hheld, hrewrites⟩ := quarantineOutbox_eq_ok hok
    rw [hid] at hid'
    cases hid'
    have hrow := hrewrites.row
    rw [show w.db.outbox.get id = some o from ho] at hrow
    cases hrow
    have hcount := hheld.2.2
    omega
  published := h.relaySound.sound.published

/-- A relay that claims one event at a time. -/
def soloRelay (n : Nat) : RelayConfig := ⟨uuidOf 8 n, none, 1, 1000, 10⟩

/-- The first relay is slow: it publishes after its claim ran out, and a second relay has claimed
    the event again, published it and finalized it. -/
def relayScript : List Move := [
  .call (.createDefinition soloDefinition), .call (.createWorkflow soloWorkflow),
  .claim (soloRelay 1), .tick 1000, .claim (soloRelay 2), .publish 1, .publish 0, .finalize 0]

theorem outbox_safe_overtaken :
    ∃ trace w, World.Run .plain (World.start 0) trace w ∧
      relayTrace trace = [.claimed (uuidOf 1 1) (uuidOf 8 1) 1, .claimed (uuidOf 1 1) (uuidOf 8 2) 2,
        .published (uuidOf 1 1) (uuidOf 8 1) 1, .published (uuidOf 1 1) (uuidOf 8 2) 2] ∧
      (w.db.outbox.get (uuidOf 1 1)).map (·.publishState) = some .published ∧
      OutboxSafe .plain trace w := by
  have hrun : (World.moves? .plain 0 relayScript (World.start 0)).any (fun r =>
      relayTrace r.1 = [.claimed (uuidOf 1 1) (uuidOf 8 1) 1, .claimed (uuidOf 1 1) (uuidOf 8 2) 2,
        .published (uuidOf 1 1) (uuidOf 8 1) 1, .published (uuidOf 1 1) (uuidOf 8 2) 2] &&
      (r.2.db.outbox.get (uuidOf 1 1)).map (·.publishState) = some .published) = true := by
    decide +kernel
  obtain ⟨⟨trace, w⟩, hmoves, hshown⟩ := (Option.any_eq_true _ _).mp hrun
  simp only [Bool.and_eq_true, decide_eq_true_eq] at hshown
  have hrun := World.run_of_moves? hmoves
  exact ⟨trace, w, hrun, hshown.1, hshown.2, outbox_safe hrun⟩

end DurableEngine.Services
