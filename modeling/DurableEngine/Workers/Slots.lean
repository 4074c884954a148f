/-
  DurableEngine.Workers.Slots

  The slots of a worker, after `consume_slot` and `handle_delivery` of
  `python/workers/kafka_worker.py` and `WorkerLifecycle` and `BoundedExecutor`
  of `python/workers/lifecycle.py`.

  Every slot is a thread with a consumer of its own.  It polls one record at a
  time, hands it to `handle_delivery`, and gets back the `done` event of the
  execution it admitted, the one variable that outlives a restart of the
  consumer.  Executions run in threads of their own.  The steps below interleave
  all of them, the rebalances inside a poll and the start of draining.  A thread
  that cannot be started, which would keep its permit, is not among them.

  What an execution still holds is held for the slot's current one.  A slot that
  polls with `busy` false holds nothing then, and the semaphore has a permit.
-/

import DurableEngine.Lib.Trace
import Mathlib

namespace DurableEngine.Workers

open Lib

-- ============================================================================
-- The consumer of a slot
-- ============================================================================

/-- The place of a message: partition and offset. -/
structure Record (P : Type) where
  partition : P
  offset : Nat
deriving DecidableEq

/-- Where the consumer reads a partition; `start` is the committed offset it began from. -/
structure Position where
  start : Nat
  next : Nat
deriving DecidableEq

/-- A partition that is assigned to the consumer.  A new one is not paused and has no position yet. -/
structure Assigned where
  paused : Bool
  position : Option Position
deriving DecidableEq

/-- `KafkaConsumer` with its `Assignment` listener. -/
structure Consumer (P : Type) where
  generation : Nat
  assigned : P → Option Assigned

namespace Consumer

variable {P : Type}

/-- A consumer that has joined no group yet. -/
def fresh : Consumer P := ⟨0, fun _ => none⟩

/-- `Assignment.current`. -/
def current (c : Consumer P) (r : Record P) (generation : Nat) : Bool :=
  c.generation == generation && (c.assigned r.partition).isSome

/-- `consumer.pause(*partitions)` or `consumer.resume(*partitions)` over the whole assignment. -/
def setPaused (c : Consumer P) (paused : Bool) : Consumer P :=
  { c with assigned := fun p => (c.assigned p).map (fun a => { a with paused := paused }) }

/-- A rebalance: `on_partitions_revoked`, then `on_partitions_assigned`. -/
def rebalance (c : Consumer P) (partitions : P → Bool) : Consumer P :=
  ⟨c.generation + 2, fun p => if partitions p then some ⟨false, none⟩ else none⟩

/-- The client reads a partition from `offset` on. -/
def place [DecidableEq P] (c : Consumer P) (p : P) (position : Position) : Consumer P :=
  { c with
    assigned := Function.update c.assigned p
      ((c.assigned p).map (fun a => { a with position := some position })) }

/-- The committed offset is fetched for a partition without a position. -/
def fetch [DecidableEq P] (c : Consumer P) (p : P) (committed : Nat) : Consumer P := c.place p ⟨committed, committed⟩

def position (c : Consumer P) (p : P) : Option Position := (c.assigned p).bind Assigned.position

/-- `poll` returned `r`: the position is behind it. -/
def take [DecidableEq P] (c : Consumer P) (r : Record P) : Consumer P :=
  match c.position r.partition with
  | some position => c.place r.partition { position with next := r.offset + 1 }
  | none => c

/-- `if partition in consumer.assignment(): consumer.seek(partition, offset)`. -/
def seek [DecidableEq P] (c : Consumer P) (r : Record P) : Consumer P :=
  match c.position r.partition with
  | some position => c.place r.partition { position with next := r.offset }
  | none => c.place r.partition ⟨r.offset, r.offset⟩

/-- `r` is the next record of its partition, which is assigned and not paused. -/
structure Yields (log : Record P → Prop) (c : Consumer P) (r : Record P) : Prop where
  mem : log r
  unpaused : ∀ a ∈ c.assigned r.partition, a.paused = false
  next : ∃ position ∈ c.position r.partition, position.next ≤ r.offset ∧
    ∀ o, position.next ≤ o → o < r.offset → ¬ log ⟨r.partition, o⟩

end Consumer

-- ============================================================================
-- Slots and executions
-- ============================================================================

/-- How far `BoundedExecutor.submit` and the thread it starts are with an execution. -/
inductive Progress where
  /-- A permit is acquired. -/
  | admitted
  /-- `in_flight` is raised. -/
  | counted
  /-- The thread is in `run`. -/
  | running
  /-- `run` has returned or raised. -/
  | ran
  /-- `in_flight` is lowered again. -/
  | countedOut
  /-- The permit is released. -/
  | released
  /-- `done` is set. -/
  | done
  /-- The semaphore refused the release. -/
  | broken
deriving DecidableEq

/-- The execution has a permit. -/
def Progress.holds : Progress → Bool
  | .admitted | .counted | .running | .ran | .countedOut | .broken => true
  | .released | .done => false

/-- The execution is admitted and its `finally` block has not counted it out. -/
def Progress.unfinished : Progress → Bool
  | .counted | .running | .ran => true
  | _ => false

structure Execution (n : Nat) (P τ : Type) where
  slot : Fin n
  record : Record P
  task : τ
  progress : Progress

/-- `response` of `/v1/worker-deliveries`. -/
structure Reply (τ : Type) where
  commitOffset : Bool
  nextOffset : Nat
  task : Option τ

/-- Where the thread of a slot is. -/
inductive Phase (P τ : Type) where
  /-- At the outer `while`, without a consumer. -/
  | outer
  /-- At the inner `while`. -/
  | ready
  | polling (busy : Bool)
  /-- A busy poll returned the record. -/
  | seeking (r : Record P)
  /-- In `handle_delivery`. -/
  | delivering (r : Record P)
  | posting (r : Record P) (generation : Nat)
  | replied (r : Record P) (reply : Reply τ)
  | committed (r : Record P) (task : Option τ)
  /-- In `submit`. -/
  | submitting (r : Record P) (task : τ)
  | counting (id : Nat)
  | starting (id : Nat)
  /-- `submit` returned the `done` event. -/
  | returning (id : Nat)
  /-- In the `finally` block, after an exception or at the end of the inner loop. -/
  | closing
  | ended

/-- The phases in which a statement may raise. -/
def Phase.mayRaise {P τ : Type} : Phase P τ → Bool
  | .ready | .polling _ | .seeking _ | .delivering _ | .posting _ _ | .replied _ _ | .committed _ _ => true
  | _ => false

/-- One thread of `consume_slot`; `active` is its variable, an event named by its execution. -/
structure Slot (P τ : Type) where
  phase : Phase P τ
  active : Option Nat
  consumer : Consumer P

/-- The slots of a worker with what they share; `draining` is `not lifecycle.can_start()`. -/
structure Pool (n : Nat) (P τ : Type) where
  slots : Fin n → Slot P τ
  executions : List (Execution n P τ)
  permits : Nat
  inFlight : Int
  draining : Bool
  committed : P → Nat

variable {n : Nat} {P τ : Type}

namespace Pool

/-- `start_pool`. -/
def initial (n : Nat) (committed : P → Nat) : Pool n P τ :=
  ⟨fun _ => ⟨.outer, none, .fresh⟩, [], n, 0, false, committed⟩

def setSlot (pool : Pool n P τ) (i : Fin n) (slot : Slot P τ) : Pool n P τ :=
  { pool with slots := Function.update pool.slots i slot }

@[simp] theorem setSlot_self (pool : Pool n P τ) (i : Fin n) (slot : Slot P τ) :
    (pool.setSlot i slot).slots i = slot :=
  Function.update_self ..

theorem setSlot_of_ne (pool : Pool n P τ) {i j : Fin n} (h : j ≠ i) (slot : Slot P τ) :
    (pool.setSlot i slot).slots j = pool.slots j :=
  Function.update_of_ne h ..

/-- The thread of a slot goes on. -/
def enter (pool : Pool n P τ) (i : Fin n) (phase : Phase P τ) : Pool n P τ :=
  pool.setSlot i { pool.slots i with phase := phase }

/-- `handle_delivery` returns, and its result is assigned to `active`. -/
def assign (pool : Pool n P τ) (i : Fin n) (active : Option Nat) : Pool n P τ :=
  pool.setSlot i { pool.slots i with phase := .ready, active := active }

def consume (pool : Pool n P τ) (i : Fin n) (phase : Phase P τ) (c : Consumer P) : Pool n P τ :=
  pool.setSlot i { pool.slots i with phase := phase, consumer := c }

/-- The event of an execution is set. -/
def isSet (pool : Pool n P τ) (id : Nat) : Bool :=
  (pool.executions[id]?).any (fun e => e.progress == .done)

/-- `busy = active is not None and not active.is_set()`. -/
def busy (pool : Pool n P τ) (i : Fin n) : Bool :=
  (pool.slots i).active.any (fun id => !pool.isSet id)

def progressTo (pool : Pool n P τ) (id : Nat) (progress : Progress) : Pool n P τ :=
  { pool with executions := pool.executions.modify id (fun e => { e with progress := progress }) }

/-- `consumer.commit` of a reply that asks for it. -/
def commit [DecidableEq P] (pool : Pool n P τ) (r : Record P) (reply : Reply τ) : Pool n P τ :=
  { pool with
    committed :=
      if reply.commitOffset then Function.update pool.committed r.partition reply.nextOffset
      else pool.committed }

/-- `capacity.acquire(blocking=False)` with a permit left. -/
def acquired (pool : Pool n P τ) (i : Fin n) (r : Record P) (task : τ) : Pool n P τ :=
  { pool with permits := pool.permits - 1, executions := pool.executions ++ [⟨i, r, task, .admitted⟩] }

end Pool

-- ============================================================================
-- Steps
-- ============================================================================

/-- What a run shows of the slots. -/
inductive PoolEvent (n : Nat) (P : Type) where
  /-- `handle_delivery` is called. -/
  | delivered (i : Fin n) (r : Record P)
  /-- A poll returned the record while the slot was busy. -/
  | polledBusy (i : Fin n) (r : Record P)
  /-- `submit` raised "activity executor is full". -/
  | full (i : Fin n)
deriving DecidableEq

namespace Pool

/-- One step of a slot, of the thread of an execution, or of `begin_drain`; the broker holds the
    records of `log`. -/
inductive Step [DecidableEq P] (log : Record P → Prop) : Pool n P τ → List (PoolEvent n P) → Pool n P τ → Prop where
  | beginDrain {pool} : Step log pool [] { pool with draining := true }
  -- `while lifecycle.can_start()` and the start of a consumer
  | exit {pool} (i) (hphase : (pool.slots i).phase = .outer) (hdrain : pool.draining = true) :
      Step log pool [] (pool.enter i .ended)
  | openFails {pool} (i) (hphase : (pool.slots i).phase = .outer) (hdrain : pool.draining = false) :
      Step log pool [] (pool.enter i .closing)
  | opens {pool} (i) (hphase : (pool.slots i).phase = .outer) (hdrain : pool.draining = false) :
      Step log pool [] (pool.consume i .ready .fresh)
  -- the inner loop
  | stop {pool} (i) (hphase : (pool.slots i).phase = .ready) (hdrain : pool.draining = true) :
      Step log pool [] (pool.enter i .closing)
  | pick {pool} (i) (hphase : (pool.slots i).phase = .ready) (hdrain : pool.draining = false) :
      Step log pool []
        (pool.consume i (.polling (pool.busy i)) ((pool.slots i).consumer.setPaused (pool.busy i)))
  | rebalance {pool} (i) (busy) (partitions : P → Bool) (hphase : (pool.slots i).phase = .polling busy) :
      Step log pool [] (pool.consume i (.polling busy) ((pool.slots i).consumer.rebalance partitions))
  | fetch {pool} (i) (busy) (p : P) (hphase : (pool.slots i).phase = .polling busy)
      (hnew : (pool.slots i).consumer.position p = none) :
      Step log pool [] (pool.consume i (.polling busy) ((pool.slots i).consumer.fetch p (pool.committed p)))
  | pollEmpty {pool} (i) (busy) (hphase : (pool.slots i).phase = .polling busy) :
      Step log pool [] (pool.enter i .ready)
  | pollBusy {pool} (i) (r) (hphase : (pool.slots i).phase = .polling true)
      (hnext : (pool.slots i).consumer.Yields log r) :
      Step log pool [.polledBusy i r] (pool.consume i (.seeking r) ((pool.slots i).consumer.take r))
  | pollIdle {pool} (i) (r) (hphase : (pool.slots i).phase = .polling false)
      (hnext : (pool.slots i).consumer.Yields log r) :
      Step log pool [.delivered i r] (pool.consume i (.delivering r) ((pool.slots i).consumer.take r))
  | seek {pool} (i) (r) (hphase : (pool.slots i).phase = .seeking r) :
      Step log pool [] (pool.consume i .ready ((pool.slots i).consumer.seek r))
  -- `handle_delivery`
  | refuse {pool} (i) (r) (hphase : (pool.slots i).phase = .delivering r) (hdrain : pool.draining = true) :
      Step log pool [] (pool.assign i none)
  | post {pool} (i) (r) (hphase : (pool.slots i).phase = .delivering r) (hdrain : pool.draining = false) :
      Step log pool [] (pool.enter i (.posting r (pool.slots i).consumer.generation))
  | stale {pool} (i) (r) (generation) (hphase : (pool.slots i).phase = .posting r generation)
      (hcurrent : (pool.slots i).consumer.current r generation = false) : Step log pool [] (pool.assign i none)
  | reply {pool} (i) (r) (generation) (reply) (hphase : (pool.slots i).phase = .posting r generation)
      (hcurrent : (pool.slots i).consumer.current r generation = true) :
      Step log pool [] (pool.enter i (.replied r reply))
  | commit {pool} (i) (r) (reply) (hphase : (pool.slots i).phase = .replied r reply) :
      Step log pool [] ((pool.commit r reply).enter i (.committed r reply.task))
  | noTask {pool} (i) (r) (task) (hphase : (pool.slots i).phase = .committed r task)
      (hnone : pool.draining = true ∨ task = none) : Step log pool [] (pool.assign i none)
  | task {pool} (i) (r) (task) (hphase : (pool.slots i).phase = .committed r (some task))
      (hdrain : pool.draining = false) : Step log pool [] (pool.enter i (.submitting r task))
  -- `BoundedExecutor.submit`
  | full {pool} (i) (r) (task) (hphase : (pool.slots i).phase = .submitting r task)
      (hpermits : pool.permits = 0) : Step log pool [.full i] (pool.enter i .closing)
  | acquire {pool} (i) (r) (task) (hphase : (pool.slots i).phase = .submitting r task)
      (hpermits : pool.permits ≠ 0) :
      Step log pool [] ((pool.acquired i r task).enter i (.counting pool.executions.length))
  | count {pool} (i) (id) (hphase : (pool.slots i).phase = .counting id) :
      Step log pool [] ({ pool.progressTo id .counted with inFlight := pool.inFlight + 1 }.enter i (.starting id))
  | start {pool} (i) (id) (hphase : (pool.slots i).phase = .starting id) :
      Step log pool [] ((pool.progressTo id .running).enter i (.returning id))
  | submitted {pool} (i) (id) (hphase : (pool.slots i).phase = .returning id) :
      Step log pool [] (pool.assign i (some id))
  -- the end of the consumer
  | raises {pool} (i) (hphase : (pool.slots i).phase.mayRaise = true) :
      Step log pool [] (pool.enter i .closing)
  | close {pool} (i) (hphase : (pool.slots i).phase = .closing) :
      Step log pool [] (pool.consume i .outer .fresh)
  | closeFails {pool} (i) (hphase : (pool.slots i).phase = .closing) :
      Step log pool [] (pool.consume i .ended .fresh)
  -- the thread of an execution
  | run {pool} (id) (e) (hat : pool.executions[id]? = some e) (hprogress : e.progress = .running) :
      Step log pool [] (pool.progressTo id .ran)
  | countOut {pool} (id) (e) (hat : pool.executions[id]? = some e) (hprogress : e.progress = .ran) :
      Step log pool [] { pool.progressTo id .countedOut with inFlight := pool.inFlight - 1 }
  | release {pool} (id) (e) (hat : pool.executions[id]? = some e) (hprogress : e.progress = .countedOut)
      (hpermits : pool.permits < n) :
      Step log pool [] { pool.progressTo id .released with permits := pool.permits + 1 }
  | releaseFails {pool} (id) (e) (hat : pool.executions[id]? = some e)
      (hprogress : e.progress = .countedOut) (hpermits : ¬ pool.permits < n) :
      Step log pool [] (pool.progressTo id .broken)
  | set {pool} (id) (e) (hat : pool.executions[id]? = some e) (hprogress : e.progress = .released) :
      Step log pool [] (pool.progressTo id .done)

end Pool

-- ============================================================================
-- What a slot holds
-- ============================================================================

/-- The execution whose event the thread of the slot has, in `active` or in a call of `submit`. -/
def Slot.current (slot : Slot P τ) : Option Nat :=
  match slot.phase with
  | .counting id | .starting id | .returning id => some id
  | _ => slot.active

/-- From a poll that was not busy to the call of `submit`. -/
def Phase.free : Phase P τ → Bool
  | .polling busy => !busy
  | .delivering _ | .posting _ _ | .replied _ _ | .committed _ _ | .submitting _ _ => true
  | _ => false

/-- Outside of `submit`. -/
def Phase.outside : Phase P τ → Bool
  | .counting _ | .starting _ | .returning _ => false
  | _ => true

theorem Slot.current_of_outside {slot : Slot P τ} (h : slot.phase.outside = true) :
    slot.current = slot.active := by
  unfold Slot.current
  cases hphase : slot.phase <;> simp [hphase, Phase.outside] at h ⊢

/-- What the executions have to do with the thread of slot `i`. -/
structure Fits (executions : List (Execution n P τ)) (i : Fin n) (slot : Slot P τ) : Prop where
  known : ∀ (id : Nat) (e : Execution n P τ), executions[id]? = some e → e.slot = i → e.progress ≠ .done →
    slot.current = some id
  free : slot.phase.free = true →
    ∀ (id : Nat) (e : Execution n P τ), executions[id]? = some e → e.slot = i → e.progress = .done
  counting : ∀ id, slot.phase = .counting id →
    ∃ e, executions[id]? = some e ∧ e.slot = i ∧ e.progress = .admitted
  starting : ∀ id, slot.phase = .starting id →
    ∃ e, executions[id]? = some e ∧ e.slot = i ∧ e.progress = .counted

namespace Fits

variable {executions : List (Execution n P τ)} {i j : Fin n} {slot slot' : Slot P τ} {id : Nat}
  {e : Execution n P τ} {progress : Progress}

/-- The thread goes on without a step of `submit` and without a new event in `active`. -/
theorem move (h : Fits executions i slot) (houtside : slot.phase.outside = true)
    (houtside' : slot'.phase.outside = true) (hactive : slot'.active = slot.active)
    (hfree : slot'.phase.free = true → slot.phase.free = true) : Fits executions i slot' where
  known id e hat hslot hlive := by
    rw [Slot.current_of_outside houtside', hactive, ← Slot.current_of_outside houtside]
    exact h.known id e hat hslot hlive
  free hfree' := h.free (hfree hfree')
  counting id hphase := by rw [hphase] at houtside'; cases houtside'
  starting id hphase := by rw [hphase] at houtside'; cases houtside'

/-- `handle_delivery` returns without an execution. -/
theorem drop (h : Fits executions i slot) (hfree : slot.phase.free = true)
    (houtside' : slot'.phase.outside = true) : Fits executions i slot' where
  known id e hat hslot hlive := absurd (h.free hfree id e hat hslot) hlive
  free _ := h.free hfree
  counting id hphase := by rw [hphase] at houtside'; cases houtside'
  starting id hphase := by rw [hphase] at houtside'; cases houtside'

/-- Of two executions of the slot one has set its event. -/
theorem unique {id' : Nat} {e' : Execution n P τ} (h : Fits executions i slot)
    (hat : executions[id]? = some e) (hat' : executions[id']? = some e') (hslot : e.slot = i)
    (hslot' : e'.slot = i) (hlive : e.progress ≠ .done) (hlive' : e'.progress ≠ .done) : id = id' := by
  have hcurrent := h.known id e hat hslot hlive
  rw [h.known id' e' hat' hslot' hlive', Option.some.injEq] at hcurrent
  exact hcurrent.symm

/-- Only the executions of the slot count. -/
theorem congr {executions' : List (Execution n P τ)} (h : Fits executions j slot)
    (hsame : ∀ (k : Nat) (a : Execution n P τ), a.slot = j →
      (executions'[k]? = some a ↔ executions[k]? = some a)) : Fits executions' j slot where
  known k a hk hslot := h.known k a ((hsame k a hslot).mp hk) hslot
  free hfree k a hk hslot := h.free hfree k a ((hsame k a hslot).mp hk) hslot
  counting k hphase :=
    (h.counting k hphase).imp (fun a ha => ⟨(hsame k a ha.2.1).mpr ha.1, ha.2⟩)
  starting k hphase :=
    (h.starting k hphase).imp (fun a ha => ⟨(hsame k a ha.2.1).mpr ha.1, ha.2⟩)

/-- An execution of another slot goes on. -/
theorem modify_of_ne (h : Fits executions j slot) {f : Execution n P τ → Execution n P τ}
    (hf : ∀ e, (f e).slot = e.slot) (hat : executions[id]? = some e) (hne : e.slot ≠ j) :
    Fits (executions.modify id f) j slot := by
  refine h.congr (fun k a hslot => ?_)
  by_cases hid : id = k
  · subst hid
    rw [List.getElem?_modify_eq, hat]
    refine ⟨fun hk => ?_, fun hk => ?_⟩
    · cases hk
      exact absurd (hf e ▸ hslot) hne
    · cases hk
      exact absurd hslot hne
  · rw [List.getElem?_modify_ne f executions hid]

/-- The thread of an execution goes on. -/
theorem progressTo (h : Fits executions i slot) (hat : executions[id]? = some e)
    (hlive : e.progress ≠ .done) (hadmitted : e.progress ≠ .admitted) (hcounted : e.progress ≠ .counted) :
    Fits (executions.modify id (fun e => { e with progress := progress })) i slot := by
  by_cases hslot : e.slot = i
  swap
  · exact h.modify_of_ne (fun _ => rfl) hat hslot
  have hcurrent := h.known id e hat hslot hlive
  have hkeep : ∀ {k : Nat} {a : Execution n P τ} {p : Progress},
      executions[k]? = some a ∧ a.slot = i ∧ a.progress = p → e.progress ≠ p →
      (executions.modify id (fun e => { e with progress := progress }))[k]? = some a := by
    rintro k a p ⟨hk, -, rfl⟩ hne
    have hid : id ≠ k := by
      rintro rfl
      rw [hat] at hk
      cases hk
      exact hne rfl
    rwa [List.getElem?_modify_ne _ _ hid]
  constructor
  case known =>
    intro k a hk hslot' hlive'
    by_cases hid : id = k
    · exact hid ▸ hcurrent
    · rw [List.getElem?_modify_ne _ _ hid] at hk
      exact h.known k a hk hslot' hlive'
  case free => exact fun hfree => absurd (h.free hfree id e hat hslot) hlive
  case counting =>
    intro k hphase
    obtain ⟨a, ha⟩ := h.counting k hphase
    exact ⟨a, hkeep ha hadmitted, ha.2⟩
  case starting =>
    intro k hphase
    obtain ⟨a, ha⟩ := h.starting k hphase
    exact ⟨a, hkeep ha hcounted, ha.2⟩

/-- A step of `submit` takes the execution on that it admitted. -/
theorem advance (h : Fits executions i slot) (hat : executions[id]? = some e) (hslot : e.slot = i)
    (hlive : e.progress ≠ .done) {phase : Phase P τ} (hfree : phase.free = false)
    (hcurrent : (⟨phase, slot.active, slot.consumer⟩ : Slot P τ).current = some id)
    (hcounting : ∀ k, phase ≠ .counting k)
    (hstarting : ∀ k, phase = .starting k → k = id ∧ progress = .counted) :
    Fits (executions.modify id (fun e => { e with progress := progress })) i { slot with phase := phase } where
  known k a hk hslot' hlive' := by
    by_cases hid : id = k
    · exact hid ▸ hcurrent
    · rw [List.getElem?_modify_ne _ _ hid] at hk
      exact absurd (h.unique hat hk hslot hslot' hlive hlive') hid
  free hfree' := by rw [hfree] at hfree'; cases hfree'
  counting k hphase := absurd hphase (hcounting k)
  starting k hphase := by
    obtain ⟨rfl, rfl⟩ := hstarting k hphase
    exact ⟨{ e with progress := .counted }, by rw [List.getElem?_modify_eq, hat]; rfl, hslot, rfl⟩

/-- An execution is admitted by another slot. -/
theorem append_of_ne (h : Fits executions j slot) (hne : e.slot ≠ j) : Fits (executions ++ [e]) j slot := by
  refine h.congr (fun k a hslot => ?_)
  rw [List.getElem?_append]
  split
  · rfl
  · rename_i hlen
    rw [List.getElem?_eq_none (Nat.le_of_not_lt hlen), List.getElem?_singleton]
    refine ⟨fun hk => ?_, fun hk => (nomatch hk)⟩
    split at hk
    · cases hk
      exact absurd hslot hne
    · cases hk

end Fits

-- ============================================================================
-- The invariant
-- ============================================================================

namespace Pool

/-- The executions with a permit. -/
def holding (pool : Pool n P τ) : Nat := pool.executions.countP (fun e => e.progress.holds)

/-- The executions that are admitted and not counted out. -/
def unfinished (pool : Pool n P τ) : Nat := pool.executions.countP (fun e => e.progress.unfinished)

structure Inv (pool : Pool n P τ) : Prop where
  fits : ∀ i, Fits pool.executions i (pool.slots i)
  permits : pool.permits + pool.holding = n
  inFlight : pool.inFlight = pool.unfinished
  sound : ∀ e ∈ pool.executions, e.progress ≠ .broken

end Pool

theorem countP_modify {α : Type} {p : α → Bool} {f : α → α} {l : List α} {id : Nat} {a : α}
    (h : l[id]? = some a) : (l.modify id f).countP p + (p a).toNat = l.countP p + (p (f a)).toNat := by
  induction l generalizing id with
  | nil => cases h
  | cons b l ih =>
      cases id with
      | zero =>
          cases h
          simp only [List.modify_zero_cons, List.countP_cons]
          cases p a <;> cases p (f a) <;> simp
      | succ id =>
          have hrest := ih h
          simp only [List.modify_succ_cons, List.countP_cons]
          omega

theorem progress_of_mem_modify {executions : List (Execution n P τ)} {id : Nat} {e : Execution n P τ}
    {progress : Progress}
    (h : e ∈ executions.modify id (fun e => { e with progress := progress })) :
    e ∈ executions ∨ e.progress = progress := by
  obtain ⟨k, hk⟩ := List.mem_iff_getElem?.mp h
  by_cases hid : id = k
  · subst hid
    rw [List.getElem?_modify_eq] at hk
    obtain ⟨a, -, rfl⟩ := Option.map_eq_some_iff.mp hk
    exact .inr rfl
  · rw [List.getElem?_modify_ne _ _ hid] at hk
    exact .inl (List.mem_of_getElem? hk)

namespace Pool

variable {pool pool' : Pool n P τ} {i : Fin n} {slot : Slot P τ} {id : Nat} {e : Execution n P τ}
  {progress : Progress}

namespace Inv

theorem initial (committed : P → Nat) : Inv (Pool.initial n committed : Pool n P τ) where
  fits _ := ⟨fun _ _ h => (nomatch h), fun h => (nomatch h), fun _ h => (nomatch h), fun _ h => (nomatch h)⟩
  permits := rfl
  inFlight := rfl
  sound _ h := (nomatch h)

/-- A slot that polled without being busy finds a permit: every holder is another slot's one execution. -/
theorem permits_ne_zero (h : Inv pool) (hfree : (pool.slots i).phase.free = true) : pool.permits ≠ 0 := by
  have hlive : ∀ {a : Execution n P τ}, a.progress.holds = true → a.progress ≠ .done := by
    intro a ha hdone
    rw [hdone] at ha
    cases ha
  have hnodup : ((pool.executions.filter (fun e => e.progress.holds)).map Execution.slot).Nodup := by
    rw [List.Nodup, List.pairwise_map, List.pairwise_filter, List.pairwise_iff_getElem]
    intro k l hk hl hlt hkholds hlholds heq
    have hkl := (h.fits pool.executions[l].slot).unique (List.getElem?_eq_getElem hk)
      (List.getElem?_eq_getElem hl) heq rfl (hlive hkholds) (hlive hlholds)
    omega
  have hnotMem : i ∉ (pool.executions.filter (fun e => e.progress.holds)).map Execution.slot := by
    intro hmem
    obtain ⟨a, ha, hslot⟩ := List.mem_map.mp hmem
    obtain ⟨hmem, hholds⟩ := List.mem_filter.mp ha
    obtain ⟨k, hk⟩ := List.mem_iff_getElem?.mp hmem
    exact hlive hholds ((h.fits i).free hfree k a hk hslot)
  have hcard := (List.nodup_cons.mpr ⟨hnotMem, hnodup⟩).length_le_card
  have hpermits := h.permits
  rw [List.length_cons, List.length_map, ← List.countP_eq_length_filter, Fintype.card_fin] at hcard
  rw [holding] at hpermits
  omega

theorem setSlot (h : Inv pool) (hfits : Fits pool.executions i slot) : Inv (pool.setSlot i slot) where
  fits j := by
    change Fits pool.executions j _
    by_cases hj : j = i
    · subst hj
      rwa [setSlot_self]
    · rw [setSlot_of_ne pool hj]
      exact h.fits j
  permits := h.permits
  inFlight := h.inFlight
  sound := h.sound

/-- A phase outside of `submit` is followed by another one. -/
theorem move (h : Inv pool) {phase : Phase P τ} {c : Consumer P}
    (houtside : (pool.slots i).phase.outside = true) (houtside' : phase.outside = true)
    (hfree : phase.free = true → (pool.slots i).phase.free = true) :
    Inv (pool.setSlot i ⟨phase, (pool.slots i).active, c⟩) :=
  h.setSlot ((h.fits i).move houtside houtside' rfl hfree)

theorem assign_none (h : Inv pool) (hfree : (pool.slots i).phase.free = true) : Inv (pool.assign i none) :=
  h.setSlot ((h.fits i).drop hfree rfl)

/-- Only the draining or the committed offsets change. -/
theorem congr (h : Inv pool) (hslots : pool'.slots = pool.slots)
    (hexecutions : pool'.executions = pool.executions) (hpermits : pool'.permits = pool.permits)
    (hinFlight : pool'.inFlight = pool.inFlight) : Inv pool' where
  fits := by rw [hslots, hexecutions]; exact h.fits
  permits := by rw [hpermits, holding, hexecutions]; exact h.permits
  inFlight := by rw [hinFlight, unfinished, hexecutions]; exact h.inFlight
  sound := by rw [hexecutions]; exact h.sound

/-- An execution goes on, with what it gives back. -/
theorem progressTo (h : Inv pool) (hat : pool.executions[id]? = some e)
    (hslots : ∀ j, Fits (pool.progressTo id progress).executions j (pool'.slots j))
    (hexecutions : pool'.executions = (pool.progressTo id progress).executions)
    (hpermits : pool'.permits + progress.holds.toNat = pool.permits + e.progress.holds.toNat)
    (hinFlight : pool'.inFlight + e.progress.unfinished.toNat =
      pool.inFlight + progress.unfinished.toNat)
    (hsound : progress ≠ .broken) : Inv pool' where
  fits j := hexecutions ▸ hslots j
  permits := by
    have hcount := countP_modify (p := fun e => e.progress.holds)
      (f := fun e => { e with progress := progress }) hat
    have hbefore := h.permits
    rw [holding] at hbefore
    rw [holding, hexecutions, Pool.progressTo]
    simp only at hcount ⊢
    omega
  inFlight := by
    have hcount := countP_modify (p := fun e => e.progress.unfinished)
      (f := fun e => { e with progress := progress }) hat
    have hbefore := h.inFlight
    rw [unfinished] at hbefore
    rw [unfinished, hexecutions, Pool.progressTo]
    simp only at hcount ⊢
    omega
  sound a ha := by
    rw [hexecutions] at ha
    rcases progress_of_mem_modify ha with hmem | rfl
    · exact h.sound a hmem
    · exact hsound

/-- What a step of `submit` does to the execution that it admitted. -/
theorem advance (h : Inv pool) (hat : pool.executions[id]? = some e) (hslot : e.slot = i)
    (hadmitted : e.progress = .admitted ∨ e.progress = .counted) {phase : Phase P τ}
    (hphase : phase = .starting id ∧ progress = .counted ∨ phase = .returning id ∧ progress = .running)
    {inFlight : Int}
    (hinFlight : inFlight + e.progress.unfinished.toNat = pool.inFlight + progress.unfinished.toNat) :
    Inv ({ pool.progressTo id progress with inFlight := inFlight }.enter i phase) := by
  have hlive : e.progress ≠ .done := by rcases hadmitted with heq | heq <;> rw [heq] <;> decide
  have hholds : progress.holds = e.progress.holds := by
    rcases hadmitted with heq | heq <;> rcases hphase with ⟨-, rfl⟩ | ⟨-, rfl⟩ <;> rw [heq] <;> rfl
  refine h.progressTo hat (fun j => ?_) rfl (by rw [hholds]; rfl) hinFlight
    (by rcases hphase with ⟨-, rfl⟩ | ⟨-, rfl⟩ <;> decide)
  by_cases hj : j = i
  · subst hj
    rw [enter, setSlot_self]
    refine (h.fits j).advance hat hslot hlive ?_ ?_ (fun k heq => ?_) (fun k heq => ?_) <;>
      rcases hphase with ⟨rfl, rfl⟩ | ⟨rfl, rfl⟩
    case refine_1.inl => rfl
    case refine_1.inr => rfl
    case refine_2.inl => rfl
    case refine_2.inr => rfl
    case refine_3.inl => cases heq
    case refine_3.inr => cases heq
    case refine_4.inl => exact ⟨by cases heq; rfl, rfl⟩
    case refine_4.inr => cases heq
  · rw [enter, setSlot_of_ne _ hj]
    exact (h.fits j).modify_of_ne (fun _ => rfl) hat (fun heq => hj (heq.symm.trans hslot))

/-- The thread of an execution goes on. -/
theorem thread (h : Inv pool) (hat : pool.executions[id]? = some e)
    (hprogress : e.progress = .running ∨ e.progress = .ran ∨ e.progress = .countedOut ∨ e.progress = .released)
    {permits : Nat} {inFlight : Int}
    (hpermits : permits + progress.holds.toNat = pool.permits + e.progress.holds.toNat)
    (hinFlight : inFlight + e.progress.unfinished.toNat = pool.inFlight + progress.unfinished.toNat)
    (hsound : progress ≠ .broken) :
    Inv { pool.progressTo id progress with permits := permits, inFlight := inFlight } := by
  have hne : ∀ p : Progress, (p = .done ∨ p = .admitted ∨ p = .counted) → e.progress ≠ p := by
    rintro p hp rfl
    rcases hprogress with heq | heq | heq | heq <;> rw [heq] at hp <;> simp at hp
  exact h.progressTo hat
    (fun j => (h.fits j).progressTo hat (hne _ (.inl rfl)) (hne _ (.inr (.inl rfl))) (hne _ (.inr (.inr rfl))))
    rfl hpermits hinFlight hsound

/-- `submit` admits an execution of a slot that has no other. -/
theorem acquire (h : Inv pool) {r : Record P} {task : τ} (hphase : (pool.slots i).phase = .submitting r task)
    (hpermits : pool.permits ≠ 0) :
    Inv ((pool.acquired i r task).enter i (.counting pool.executions.length)) where
  fits j := by
    change Fits (pool.executions ++ [⟨i, r, task, .admitted⟩]) j _
    by_cases hj : j = i
    swap
    · rw [enter, setSlot_of_ne _ hj]
      exact (h.fits j).append_of_ne (fun heq => hj heq.symm)
    subst hj
    rw [enter, setSlot_self]
    have hfree := (h.fits j).free (by rw [hphase]; rfl)
    constructor
    case known =>
      intro k a hk hslot hlive
      rw [List.getElem?_append] at hk
      split at hk
      · exact absurd (hfree k a hk hslot) hlive
      · rw [List.getElem?_singleton] at hk
        split at hk
        · exact congrArg some (by omega)
        · cases hk
    case free => exact fun h => (nomatch h)
    case counting =>
      rintro k hcounting
      cases hcounting
      exact ⟨⟨j, r, task, .admitted⟩, by simp, rfl, rfl⟩
    case starting => exact fun k h => (nomatch h)
  permits := by
    have hbefore := h.permits
    rw [holding] at hbefore
    simp only [Pool.acquired, enter, Pool.setSlot, holding, List.countP_append, List.countP_singleton,
      show Progress.admitted.holds = true from rfl, if_true]
    omega
  inFlight := by
    simp only [Pool.acquired, enter, Pool.setSlot, unfinished, List.countP_append, List.countP_singleton,
      show Progress.admitted.unfinished = false from rfl, Bool.false_eq_true, if_false, Nat.add_zero]
    exact h.inFlight
  sound a ha := by
    rcases List.mem_append.mp ha with hmem | hmem
    · exact h.sound a hmem
    · cases List.mem_singleton.mp hmem
      exact fun heq => (nomatch heq)

/-- The slot is free when its last event is set. -/
theorem pick (h : Inv pool) (hphase : (pool.slots i).phase = .ready) {c : Consumer P} :
    Inv (pool.consume i (.polling (pool.busy i)) c) := by
  refine h.setSlot ⟨fun k a hk hslot hlive => ?_, fun hbusy k a hk hslot => ?_, fun _ h => (nomatch h),
    fun _ h => (nomatch h)⟩
  · have hcurrent := (h.fits i).known k a hk hslot hlive
    rwa [Slot.current_of_outside (by rw [hphase]; rfl)] at hcurrent
  · by_contra hlive
    have hcurrent := (h.fits i).known k a hk hslot hlive
    rw [Slot.current_of_outside (by rw [hphase]; rfl)] at hcurrent
    have hbusy' : pool.busy i = true := by
      simp [busy, hcurrent, isSet, hk, hlive]
    rw [hbusy'] at hbusy
    cases hbusy

theorem step [DecidableEq P] {log : Record P → Prop} {events : List (PoolEvent n P)} (h : Inv pool)
    (hstep : Step log pool events pool') : Inv pool' := by
  cases hstep with
  | beginDrain => exact h.congr rfl rfl rfl rfl
  | exit i hphase => exact h.move (by rw [hphase]; rfl) rfl (fun h => (nomatch h))
  | openFails i hphase => exact h.move (by rw [hphase]; rfl) rfl (fun h => (nomatch h))
  | opens i hphase => exact h.move (by rw [hphase]; rfl) rfl (fun h => (nomatch h))
  | stop i hphase => exact h.move (by rw [hphase]; rfl) rfl (fun h => (nomatch h))
  | pick i hphase => exact h.pick hphase
  | rebalance i busy partitions hphase => exact h.move (by rw [hphase]; rfl) rfl (by rw [hphase]; exact id)
  | fetch i busy p hphase => exact h.move (by rw [hphase]; rfl) rfl (by rw [hphase]; exact id)
  | pollEmpty i busy hphase => exact h.move (by rw [hphase]; rfl) rfl (fun h => (nomatch h))
  | pollBusy i r hphase => exact h.move (by rw [hphase]; rfl) rfl (fun h => (nomatch h))
  | pollIdle i r hphase => exact h.move (by rw [hphase]; rfl) rfl (fun _ => by rw [hphase]; rfl)
  | seek i r hphase => exact h.move (by rw [hphase]; rfl) rfl (fun h => (nomatch h))
  | refuse i r hphase => exact h.assign_none (by rw [hphase]; rfl)
  | post i r hphase => exact h.move (by rw [hphase]; rfl) rfl (fun _ => by rw [hphase]; rfl)
  | stale i r generation hphase => exact h.assign_none (by rw [hphase]; rfl)
  | reply i r generation reply hphase => exact h.move (by rw [hphase]; rfl) rfl (fun _ => by rw [hphase]; rfl)
  | commit i r reply hphase =>
      have hcommit : Inv (pool.commit r reply) := h.congr rfl rfl rfl rfl
      exact hcommit.setSlot ((h.fits i).move (by rw [hphase]; rfl) rfl rfl (fun _ => by rw [hphase]; rfl))
  | noTask i r task hphase => exact h.assign_none (by rw [hphase]; rfl)
  | task i r task hphase => exact h.move (by rw [hphase]; rfl) rfl (fun _ => by rw [hphase]; rfl)
  | full i r task hphase hpermits => exact absurd hpermits (h.permits_ne_zero (by rw [hphase]; rfl))
  | acquire i r task hphase hpermits => exact h.acquire hphase hpermits
  | count i id hphase =>
      obtain ⟨e, hat, hslot, hprogress⟩ := (h.fits i).counting id hphase
      exact h.advance hat hslot (.inl hprogress) (.inl ⟨rfl, rfl⟩)
        (by simp [hprogress, Progress.unfinished])
  | start i id hphase =>
      obtain ⟨e, hat, hslot, hprogress⟩ := (h.fits i).starting id hphase
      exact h.advance hat hslot (.inr hprogress) (.inr ⟨rfl, rfl⟩) (by rw [hprogress]; rfl)
  | submitted i id hphase =>
      refine h.setSlot ⟨fun k a hk hslot hlive => ?_, fun h => (nomatch h), fun _ h => (nomatch h),
        fun _ h => (nomatch h)⟩
      have hcurrent := (h.fits i).known k a hk hslot hlive
      rwa [Slot.current, hphase] at hcurrent
  | raises i hphase =>
      refine h.move ?_ rfl (fun h => (nomatch h))
      revert hphase
      cases (pool.slots i).phase <;> simp [Phase.mayRaise, Phase.outside]
  | close i hphase => exact h.move (by rw [hphase]; rfl) rfl (fun h => (nomatch h))
  | closeFails i hphase => exact h.move (by rw [hphase]; rfl) rfl (fun h => (nomatch h))
  | run id e hat hprogress =>
      exact h.thread hat (.inl hprogress) (by rw [hprogress]; rfl) (by rw [hprogress]; rfl) (by decide)
  | countOut id e hat hprogress =>
      exact h.thread hat (.inr (.inl hprogress)) (by rw [hprogress]; rfl)
        (by simp [hprogress, Progress.unfinished]) (by decide)
  | release id e hat hprogress =>
      exact h.thread hat (.inr (.inr (.inl hprogress))) (by rw [hprogress]; rfl) (by rw [hprogress]; rfl)
        (by decide)
  | releaseFails id e hat hprogress hpermits =>
      -- The execution itself has a permit, so some permit is missing.
      refine absurd ?_ hpermits
      have hcount : 0 < pool.holding :=
        List.countP_pos_iff.mpr ⟨e, List.mem_of_getElem? hat, by rw [hprogress]; rfl⟩
      have hpermits := h.permits
      omega
  | set id e hat hprogress =>
      exact h.thread hat (.inr (.inr (.inr hprogress))) (by rw [hprogress]; rfl) (by rw [hprogress]; rfl)
        (by decide)

end Inv

end Pool

end DurableEngine.Workers
