/-
  DurableEngine.Services.World

  The whole deployment: the database with the relays' passes and the effect
  service's calls in progress.

  A step is a clock tick, a committed operation of the store (from a client, a
  worker or a scheduler), or a step of some relay, consumer or effect call.
  Whoever goes next is not determined, so a run of the world is any
  interleaving; a trace lists what relays, consumers and the effect service
  did in it.
-/

import DurableEngine.Lib.Trace
import DurableEngine.Services.EffectService
import DurableEngine.Services.Relay
import DurableEngine.State.Inbox
import DurableEngine.State.Results

namespace DurableEngine.Services

open Lib State

-- ============================================================================
-- Consumers
-- ============================================================================

/-- What consumers show: each of their committed transactions. -/
inductive ConsumerEvent where
  | ensured (k : StreamKey) (nextOffset : Int) (created : Bool)
  | recorded (m : InboxMessage) (r : InboxResult)
  | poisoned (m : InboxMessage) (r : InboxResult)

/-- One transaction of some consumer. -/
inductive Consumers.Step (env : Env) : DB → List ConsumerEvent → DB → Prop where
  | ensure (db : DB) (k : StreamKey) (nextOffset : Int) (db' : DB)
      (h : ensureConsumerOffset k nextOffset db = .ok ((), db')) :
      Step env db [.ensured k nextOffset (db.transport.consumerOffsets.get k).isNone] db'
  | record (db : DB) (wakeupID : String) (m : InboxMessage) (r : InboxResult) (db' : DB)
      (h : recordInbox wakeupID m db = .ok (r, db')) : Step env db [.recorded m r] db'
  | poison (db : DB) (m : InboxMessage) (reason : String) (r : InboxResult) (db' : DB)
      (h : quarantineMessage env m reason db = .ok (r, db')) : Step env db [.poisoned m r] db'

theorem Consumers.Step.frame {env : Env} {db db' : DB} {events : List ConsumerEvent}
    (h : Consumers.Step env db events db') : db' = db.consumerFrame db' := by
  cases h with
  | ensure _ _ _ h =>
      obtain ⟨rfl, -⟩ | ⟨hframe, -, -⟩ := ensureConsumerOffset_eq_ok h
      · rfl
      · rw [hframe]
        rfl
  | record _ _ _ _ h =>
      obtain ⟨id, o, hrecorded⟩ := recordInbox_eq_ok h
      exact hrecorded.frame
  | poison _ _ _ _ h => exact (quarantineMessage_eq_ok h).frame

-- ============================================================================
-- The world
-- ============================================================================

structure World where
  db : DB
  passes : List Pass
  calls : List EffectCall

inductive Event where
  | relay (e : RelayEvent)
  | consumer (e : ConsumerEvent)
  | effect (e : EffectEvent)

def Event.relay? : Event → Option RelayEvent
  | .relay e => some e
  | _ => none

def Event.consumer? : Event → Option ConsumerEvent
  | .consumer e => some e
  | _ => none

def Event.effect? : Event → Option EffectEvent
  | .effect e => some e
  | _ => none

/-- The parts of a trace. -/
def relayTrace (trace : List Event) : List RelayEvent := trace.filterMap Event.relay?

def consumerTrace (trace : List Event) : List ConsumerEvent := trace.filterMap Event.consumer?

def effectTrace (trace : List Event) : List EffectEvent := trace.filterMap Event.effect?

namespace World

/-- The freshly migrated database, with nothing in progress. -/
def start (now : Int) : World := ⟨DB.init now, [], []⟩

/-- One step of the world. -/
inductive Step (env : Env) : World → List Event → World → Prop where
  | tick (w : World) (d : Nat) : Step env w [] { w with db := w.db.tick d }
  | commit {α : Type} (w : World) (amb : Ambient) (op : Op α) (a : α) (db' : DB)
      (h : op.run env amb w.db = .ok (a, db')) (typed : db'.EventIDsTyped) :
      Step env w [] { w with db := db' }
  | relay (w : World) (events : List RelayEvent) (s' : Relays)
      (h : Relays.Step env ⟨w.db, w.passes⟩ events s') :
      Step env w (events.map .relay) ⟨s'.db, s'.passes, w.calls⟩
  | consumer (w : World) (events : List ConsumerEvent) (db' : DB)
      (h : Consumers.Step env w.db events db') :
      Step env w (events.map .consumer) { w with db := db' }
  | effect (w : World) (events : List EffectEvent) (s' : EffectCalls)
      (h : EffectCalls.Step ⟨w.db, w.calls⟩ events s') :
      Step env w (events.map .effect) ⟨s'.db, w.passes, s'.calls⟩

/-- A run of the world with its trace. -/
abbrev Run (env : Env) : World → List Event → World → Prop := Trace (Step env)

end World

-- ============================================================================
-- Parts of a trace
-- ============================================================================

@[simp] theorem relayTrace_append (a b : List Event) :
    relayTrace (a ++ b) = relayTrace a ++ relayTrace b := List.filterMap_append

@[simp] theorem consumerTrace_append (a b : List Event) :
    consumerTrace (a ++ b) = consumerTrace a ++ consumerTrace b := List.filterMap_append

@[simp] theorem effectTrace_append (a b : List Event) :
    effectTrace (a ++ b) = effectTrace a ++ effectTrace b := List.filterMap_append

@[simp] theorem relayTrace_nil : relayTrace [] = [] := rfl

@[simp] theorem consumerTrace_nil : consumerTrace [] = [] := rfl

@[simp] theorem effectTrace_nil : effectTrace [] = [] := rfl

@[simp] theorem relayTrace_relay (l : List RelayEvent) : relayTrace (l.map .relay) = l := by
  simp [relayTrace, List.filterMap_map, Function.comp_def, Event.relay?]

@[simp] theorem consumerTrace_consumer (l : List ConsumerEvent) :
    consumerTrace (l.map .consumer) = l := by
  simp [consumerTrace, List.filterMap_map, Function.comp_def, Event.consumer?]

@[simp] theorem effectTrace_effect (l : List EffectEvent) : effectTrace (l.map .effect) = l := by
  simp [effectTrace, List.filterMap_map, Function.comp_def, Event.effect?]

@[simp] theorem relayTrace_consumer (l : List ConsumerEvent) : relayTrace (l.map .consumer) = [] := by
  simp [relayTrace, List.filterMap_map, Function.comp_def, Event.relay?]

@[simp] theorem relayTrace_effect (l : List EffectEvent) : relayTrace (l.map .effect) = [] := by
  simp [relayTrace, List.filterMap_map, Function.comp_def, Event.relay?]

@[simp] theorem consumerTrace_relay (l : List RelayEvent) : consumerTrace (l.map .relay) = [] := by
  simp [consumerTrace, List.filterMap_map, Function.comp_def, Event.consumer?]

@[simp] theorem consumerTrace_effect (l : List EffectEvent) : consumerTrace (l.map .effect) = [] := by
  simp [consumerTrace, List.filterMap_map, Function.comp_def, Event.consumer?]

@[simp] theorem effectTrace_relay (l : List RelayEvent) : effectTrace (l.map .relay) = [] := by
  simp [effectTrace, List.filterMap_map, Function.comp_def, Event.effect?]

@[simp] theorem effectTrace_consumer (l : List ConsumerEvent) :
    effectTrace (l.map .consumer) = [] := by
  simp [effectTrace, List.filterMap_map, Function.comp_def, Event.effect?]

-- ============================================================================
-- Who writes what
-- ============================================================================

/-- The columns of a wake-up but for its state. -/
def wakeupIdentity (w : Wakeup) : Wakeup := { w with state := .pending }

/-- The consumers' tables are untouched, but for the states of wake-ups. -/
structure ConsumersKept (db db' : DB) : Prop where
  inbox : db'.transport.inbox = db.transport.inbox
  quarantine : db'.transport.quarantine = db.transport.quarantine
  offsets : db'.transport.consumerOffsets = db.transport.consumerOffsets
  wakeups : db'.wakeups.rows.map wakeupIdentity = db.wakeups.rows.map wakeupIdentity

/-- An operation of the store consumes wake-ups, and touches nothing else of the consumers. -/
theorem consumersKept_of_commit {env : Env} {amb : Ambient} {α : Type} {op : Op α} {db db' : DB}
    {a : α} (h : op.run env amb db = .ok (a, db')) : ConsumersKept db db' := by
  have hframe := (Op.run_commit h).frame
  have htransport : db'.transport = db.transport := by
    rw [hframe]
    rfl
  refine ⟨by rw [htransport], by rw [htransport], by rw [htransport], ?_⟩
  cases op with
  | acknowledgeWorkflowWakeups lease id revision =>
      simp only [Op.run, acknowledgeWorkflowWakeups, bind_eq_ok, pure_eq_ok] at h
      obtain ⟨-, -, heq⟩ := h
      cases heq
      simp only [Table.update, List.map_map]
      refine List.map_congr_left (fun w _ => ?_)
      simp only [Function.comp_apply]
      split <;> rfl
  | _ => rw [hframe]; rfl

theorem World.Step.consumer_cases {env : Env} {w w' : World} {events : List Event}
    (h : World.Step env w events w') :
    Consumers.Step env w.db (consumerTrace events) w'.db ∨
      consumerTrace events = [] ∧ ConsumersKept w.db w'.db := by
  cases h with
  | tick _ d => exact .inr ⟨rfl, rfl, rfl, rfl, rfl⟩
  | commit _ amb op a db' h _ => exact .inr ⟨rfl, consumersKept_of_commit h⟩
  | relay _ events s' h =>
      refine .inr ⟨consumerTrace_relay events, ?_⟩
      rw [h.frame]
      exact ⟨rfl, rfl, rfl, rfl⟩
  | consumer _ events db' h =>
      rw [consumerTrace_consumer]
      exact .inl h
  | effect _ events s' h =>
      refine .inr ⟨consumerTrace_effect events, ?_⟩
      rw [h.frame]
      exact ⟨rfl, rfl, rfl, rfl⟩

end DurableEngine.Services
