/-
  DurableEngine.Workers.Polling

  What becomes of the records that a slot polls.

  A record is handed to `handle_delivery` before the position passes it, or it is
  the one that was polled while the slot was busy.  The next step of the slot
  seeks back to that record, or closes the consumer without a commit.
-/

import DurableEngine.Workers.Slots

namespace DurableEngine.Workers

open Lib

variable {n : Nat} {P τ : Type}

-- ============================================================================
-- The positions
-- ============================================================================

namespace Consumer

variable {c : Consumer P} {p q : P} {r : Record P} {position : Position}

@[simp] theorem position_fresh (p : P) : (fresh : Consumer P).position p = none := rfl

@[simp] theorem position_setPaused (c : Consumer P) (paused : Bool) (p : P) :
    (c.setPaused paused).position p = c.position p := by
  simp only [Consumer.position, setPaused]
  cases c.assigned p <;> rfl

@[simp] theorem position_rebalance (c : Consumer P) (partitions : P → Bool) (p : P) :
    (c.rebalance partitions).position p = none := by
  simp only [Consumer.position, rebalance]
  split <;> rfl

variable [DecidableEq P]

theorem position_place_self {new : Position} (h : (c.place p position).position p = some new) :
    new = position := by
  simp only [Consumer.position, place, Function.update_self] at h
  cases hassigned : c.assigned p <;> rw [hassigned] at h <;> cases h
  rfl

theorem position_place_of_ne (hne : q ≠ p) : (c.place p position).position q = c.position q := by
  simp only [Consumer.position, place, Function.update_of_ne hne]

theorem position_place_some {old : Position} (h : c.position p = some old) :
    (c.place p position).position p = some position := by
  simp only [Consumer.position, place, Function.update_self] at h ⊢
  cases hassigned : c.assigned p with
  | none => rw [hassigned] at h; cases h
  | some a => rfl

end Consumer

/-- Every record before a position is handed over, or the slot is about to seek back to it. -/
structure Tracked (log : Record P → Prop) (trace : List (PoolEvent n P)) (i : Fin n) (slot : Slot P τ) :
    Prop where
  covered : slot.phase ≠ .closing → ∀ p position, slot.consumer.position p = some position →
    ∀ o, position.start ≤ o → o < position.next → log ⟨p, o⟩ →
      .delivered i ⟨p, o⟩ ∈ trace ∨ slot.phase = .seeking ⟨p, o⟩
  seeking : ∀ r, slot.phase = .seeking r →
    ∃ position, slot.consumer.position r.partition = some position ∧ position.next = r.offset + 1

namespace Tracked

variable {log : Record P → Prop} {trace : List (PoolEvent n P)} {i : Fin n} {slot : Slot P τ}
  {phase : Phase P τ} {active : Option Nat} {c : Consumer P} {r : Record P}

/-- The phase is none of `seeking`. -/
def quiet (phase : Phase P τ) : Bool :=
  match phase with
  | .seeking _ => false
  | _ => true

theorem ne_of_quiet (h : quiet phase = true) : phase ≠ .seeking r := by
  rintro rfl
  cases h

theorem append (h : Tracked log trace i slot) (events : List (PoolEvent n P)) :
    Tracked log (trace ++ events) i slot where
  covered hopen p position hat o hstart hnext hlog :=
    (h.covered hopen p position hat o hstart hnext hlog).imp_left (List.mem_append_left _)
  seeking := h.seeking

theorem closing (consumer : Consumer P) : Tracked log trace i (⟨.closing, active, consumer⟩ : Slot P τ) where
  covered hopen := absurd rfl hopen
  seeking _ hphase := nomatch hphase

/-- A consumer without positions. -/
theorem unplaced (h : ∀ p, c.position p = none) (hquiet : quiet phase = true) :
    Tracked log trace i (⟨phase, active, c⟩ : Slot P τ) where
  covered _ p position hat := by rw [h p] at hat; cases hat
  seeking r hphase := absurd hphase (ne_of_quiet hquiet)

/-- The positions stay. -/
theorem keep (h : Tracked log trace i slot) (hopen : slot.phase ≠ .closing) (hquiet : quiet slot.phase = true)
    (hposition : ∀ p, c.position p = slot.consumer.position p) (hquiet' : quiet phase = true) :
    Tracked log trace i (⟨phase, active, c⟩ : Slot P τ) where
  covered _ p position hat o hstart hnext hlog := by
    rw [hposition p] at hat
    exact (h.covered hopen p position hat o hstart hnext hlog).imp_right
      (fun heq => absurd heq (ne_of_quiet hquiet))
  seeking r hphase := absurd hphase (ne_of_quiet hquiet')

variable [DecidableEq P]

theorem fetch (h : Tracked log trace i slot) (hopen : slot.phase ≠ .closing) (hquiet : quiet slot.phase = true)
    (p : P) (committed : Nat) (hquiet' : quiet phase = true) :
    Tracked log trace i (⟨phase, active, slot.consumer.fetch p committed⟩ : Slot P τ) where
  covered _ q position hat o hstart hnext hlog := by
    by_cases hq : q = p
    · subst hq
      cases Consumer.position_place_self hat
      simp only at hstart hnext
      omega
    · rw [Consumer.fetch, Consumer.position_place_of_ne hq] at hat
      exact (h.covered hopen q position hat o hstart hnext hlog).imp_right
        (fun heq => absurd heq (ne_of_quiet hquiet))
  seeking r hphase := absurd hphase (ne_of_quiet hquiet')

/-- A poll returns the next record, which is handed over or sought back. -/
theorem take (h : Tracked log trace i slot) (hopen : slot.phase ≠ .closing) (hquiet : quiet slot.phase = true)
    (hyields : slot.consumer.Yields log r) {events : List (PoolEvent n P)}
    (hnext : .delivered i r ∈ events ∧ quiet phase = true ∨ phase = .seeking r) :
    Tracked log (trace ++ events) i (⟨phase, active, slot.consumer.take r⟩ : Slot P τ) := by
  obtain ⟨old, hold, -, hgap⟩ := hyields.next
  have htake : slot.consumer.take r = slot.consumer.place r.partition { old with next := r.offset + 1 } := by
    rw [Consumer.take, Option.mem_def.mp hold]
  have hplaced : (slot.consumer.place r.partition { old with next := r.offset + 1 }).position r.partition =
      some { old with next := r.offset + 1 } := Consumer.position_place_some hold
  constructor
  case covered =>
    intro _ q position hat o hstart hlt hlog
    simp only [htake] at hat
    have hcovered : ∀ position, slot.consumer.position q = some position → position.start ≤ o →
        o < position.next → .delivered i ⟨q, o⟩ ∈ trace ++ events :=
      fun position hat hstart hlt => List.mem_append_left _
        ((h.covered hopen q position hat o hstart hlt hlog).resolve_right (ne_of_quiet hquiet))
    by_cases hq : q = r.partition
    swap
    · rw [Consumer.position_place_of_ne hq] at hat
      exact .inl (hcovered position hat hstart hlt)
    subst hq
    rw [hplaced] at hat
    cases hat
    simp only at hstart hlt
    by_cases hbefore : o < old.next
    · exact .inl (hcovered old hold hstart hbefore)
    by_cases hlast : o < r.offset
    · exact absurd hlog (hgap o (Nat.le_of_not_lt hbefore) hlast)
    · have hr : (⟨r.partition, o⟩ : Record P) = r := by
        have heq : o = r.offset := by omega
        rw [heq]
      rw [hr]
      exact hnext.imp (fun hmem => List.mem_append_right _ hmem.1) id
  case seeking =>
    intro r' hphase
    rcases hnext with ⟨-, hquiet'⟩ | heq
    · exact absurd hphase (ne_of_quiet hquiet')
    · simp only [heq, Phase.seeking.injEq] at hphase
      subst hphase
      exact ⟨_, htake ▸ hplaced, rfl⟩

/-- `consumer.seek`. -/
theorem seek (h : Tracked log trace i slot) (hphase : slot.phase = .seeking r) :
    Tracked log trace i (⟨.ready, active, slot.consumer.seek r⟩ : Slot P τ) := by
  obtain ⟨old, hold, hnext⟩ := h.seeking r hphase
  have hseek : slot.consumer.seek r = slot.consumer.place r.partition { old with next := r.offset } := by
    rw [Consumer.seek, hold]
  constructor
  case covered =>
    intro _ q position hat o hstart hlt hlog
    simp only [hseek] at hat
    have hopen : slot.phase ≠ .closing := by rw [hphase]; exact fun h => (nomatch h)
    by_cases hq : q = r.partition
    · subst hq
      rw [Consumer.position_place_some hold] at hat
      cases hat
      simp only at hstart hlt
      refine .inl ((h.covered hopen _ old hold o hstart (by omega) hlog).resolve_right (fun heq => ?_))
      rw [hphase, Phase.seeking.injEq] at heq
      rw [heq] at hlt
      exact absurd hlt (Nat.lt_irrefl _)
    · rw [Consumer.position_place_of_ne hq] at hat
      refine .inl ((h.covered hopen q position hat o hstart hlt hlog).resolve_right (fun heq => hq ?_))
      rw [hphase, Phase.seeking.injEq] at heq
      rw [heq]
  case seeking => exact fun _ h => (nomatch h)

end Tracked

namespace Pool

variable {log : Record P → Prop} {trace events : List (PoolEvent n P)} {pool pool' : Pool n P τ} {i j : Fin n}

theorem tracked_setSlot {base : Pool n P τ} {slot : Slot P τ} (hslots : base.slots = pool.slots)
    (htracked : ∀ j, Tracked log trace j (pool.slots j)) (hi : Tracked log (trace ++ events) i slot) (j : Fin n) :
    Tracked log (trace ++ events) j ((base.setSlot i slot).slots j) := by
  by_cases hj : j = i
  · subst hj
    rwa [setSlot_self]
  · rw [setSlot_of_ne _ hj, hslots]
    exact (htracked j).append events

theorem tracked_step [DecidableEq P] (htracked : ∀ j, Tracked log trace j (pool.slots j))
    (hstep : Step log pool events pool') (j : Fin n) : Tracked log (trace ++ events) j (pool'.slots j) := by
  have hkeep : ∀ {base : Pool n P τ} {i : Fin n} {phase : Phase P τ} {active : Option Nat} {c : Consumer P},
      base.slots = pool.slots → (pool.slots i).phase ≠ .closing →
      Tracked.quiet (pool.slots i).phase = true → Tracked.quiet phase = true →
      (∀ p, c.position p = (pool.slots i).consumer.position p) →
      Tracked log (trace ++ events) j ((base.setSlot i ⟨phase, active, c⟩).slots j) :=
    fun hslots hopen hquiet hquiet' hposition =>
      tracked_setSlot hslots htracked (((htracked _).keep hopen hquiet hposition hquiet').append events) j
  have hclosing : ∀ {i : Fin n}, Tracked log (trace ++ events) j ((pool.enter i .closing).slots j) :=
    tracked_setSlot rfl htracked (.closing _) j
  have hempty : ∀ {i : Fin n} {phase : Phase P τ} {c : Consumer P}, (∀ p, c.position p = none) →
      Tracked.quiet phase = true →
      Tracked log (trace ++ events) j ((pool.consume i phase c).slots j) :=
    fun hnone hquiet => tracked_setSlot rfl htracked (.unplaced hnone hquiet) j
  cases hstep with
  | beginDrain => exact (htracked j).append []
  | exit i hphase => exact hkeep rfl (by simp [hphase]) (by rw [hphase]; rfl) rfl (fun _ => rfl)
  | openFails i hphase => exact hclosing
  | opens i hphase => exact hempty (fun _ => rfl) rfl
  | stop i hphase => exact hclosing
  | pick i hphase =>
      exact hkeep rfl (by simp [hphase]) (by rw [hphase]; rfl) rfl (fun p => Consumer.position_setPaused ..)
  | rebalance i busy partitions hphase => exact hempty (fun p => Consumer.position_rebalance ..) rfl
  | fetch i busy p hphase =>
      exact tracked_setSlot rfl htracked
        (((htracked i).fetch (by simp [hphase]) (by rw [hphase]; rfl) p _ rfl).append []) j
  | pollEmpty i busy hphase => exact hkeep rfl (by simp [hphase]) (by rw [hphase]; rfl) rfl (fun _ => rfl)
  | pollBusy i r hphase hyields =>
      exact tracked_setSlot rfl htracked
        ((htracked i).take (by simp [hphase]) (by rw [hphase]; rfl) hyields (.inr rfl)) j
  | pollIdle i r hphase hyields =>
      exact tracked_setSlot rfl htracked
        ((htracked i).take (by simp [hphase]) (by rw [hphase]; rfl) hyields
          (.inl ⟨List.mem_singleton.mpr rfl, rfl⟩)) j
  | seek i r hphase => exact tracked_setSlot rfl htracked (((htracked i).seek hphase).append []) j
  | refuse i r hphase => exact hkeep rfl (by simp [hphase]) (by rw [hphase]; rfl) rfl (fun _ => rfl)
  | post i r hphase => exact hkeep rfl (by simp [hphase]) (by rw [hphase]; rfl) rfl (fun _ => rfl)
  | stale i r generation hphase => exact hkeep rfl (by simp [hphase]) (by rw [hphase]; rfl) rfl (fun _ => rfl)
  | reply i r generation reply hphase =>
      exact hkeep rfl (by simp [hphase]) (by rw [hphase]; rfl) rfl (fun _ => rfl)
  | commit i r reply hphase => exact hkeep rfl (by simp [hphase]) (by rw [hphase]; rfl) rfl (fun _ => rfl)
  | noTask i r task hphase => exact hkeep rfl (by simp [hphase]) (by rw [hphase]; rfl) rfl (fun _ => rfl)
  | task i r task hphase => exact hkeep rfl (by simp [hphase]) (by rw [hphase]; rfl) rfl (fun _ => rfl)
  | full i r task hphase => exact hclosing
  | acquire i r task hphase => exact hkeep rfl (by simp [hphase]) (by rw [hphase]; rfl) rfl (fun _ => rfl)
  | count i id hphase => exact hkeep rfl (by simp [hphase]) (by rw [hphase]; rfl) rfl (fun _ => rfl)
  | start i id hphase => exact hkeep rfl (by simp [hphase]) (by rw [hphase]; rfl) rfl (fun _ => rfl)
  | submitted i id hphase => exact hkeep rfl (by simp [hphase]) (by rw [hphase]; rfl) rfl (fun _ => rfl)
  | raises i hphase => exact hclosing
  | close i hphase => exact hempty (fun _ => rfl) rfl
  | closeFails i hphase => exact hempty (fun _ => rfl) rfl
  | run => exact (htracked j).append []
  | countOut => exact (htracked j).append []
  | release => exact (htracked j).append []
  | releaseFails => exact (htracked j).append []
  | set => exact (htracked j).append []

-- ============================================================================
-- Records polled while busy
-- ============================================================================

/-- The records that a slot has ever submitted. -/
def submittedBy (pool : Pool n P τ) (i : Fin n) : List (Record P) :=
  ((pool.executions.map (fun e => (e.slot, e.record))).filter (fun s => s.1 = i)).map Prod.snd

/-- What a step makes of the record that slot `i` polled while it was busy. -/
structure SoughtBack (i : Fin n) (r : Record P) (pool : Pool n P τ) (events : List (PoolEvent n P))
    (pool' : Pool n P τ) : Prop where
  undelivered : ∀ r', .delivered i r' ∉ events
  unexecuted : pool'.submittedBy i = pool.submittedBy i
  /-- The slot has not moved, or the consumer stands at the record again or is closed, without a commit. -/
  place : pool'.slots i = pool.slots i ∨
    pool'.committed = pool.committed ∧
      ((pool'.slots i).phase = .closing ∨
        (pool'.slots i).phase = .ready ∧
          ∃ position, (pool'.slots i).consumer.position r.partition = some position ∧ position.next = r.offset)

theorem submittedBy_progressTo (pool : Pool n P τ) (id : Nat) (progress : Progress) (i : Fin n) :
    (pool.progressTo id progress).submittedBy i = pool.submittedBy i := by
  have hmap : (pool.progressTo id progress).executions.map (fun e => (e.slot, e.record)) =
      pool.executions.map (fun e => (e.slot, e.record)) := by
    refine List.ext_getElem? (fun k => ?_)
    simp only [Pool.progressTo, List.getElem?_map, List.getElem?_modify, Option.map_eq_map, Option.map_map]
    congr 1
    funext e
    simp only [Function.comp_apply]
    split <;> rfl
  rw [submittedBy, hmap, submittedBy]

theorem submittedBy_acquired (hne : j ≠ i) (r : Record P) (task : τ) :
    (pool.acquired j r task).submittedBy i = pool.submittedBy i := by
  simp [submittedBy, Pool.acquired, List.filter_append, hne]

theorem soughtBack_of_step [DecidableEq P] {r : Record P} (htracked : Tracked log trace i (pool.slots i))
    (hseeking : (pool.slots i).phase = .seeking r) (hstep : Step log pool events pool') :
    SoughtBack i r pool events pool' := by
  -- The thread of another slot, which is in another phase.
  have hother : ∀ {j : Fin n} {base : Pool n P τ} {slot : Slot P τ} {events : List (PoolEvent n P)},
      (pool.slots j).phase ≠ .seeking r → base.slots = pool.slots → base.submittedBy i = pool.submittedBy i →
      (∀ r', .delivered i r' ∈ events → j = i) → SoughtBack i r pool events (base.setSlot j slot) := by
    intro j base slot events hphase hslots hsubmitted hevents
    have hne : i ≠ j := by
      rintro rfl
      exact hphase hseeking
    refine ⟨fun r' hmem => hne (hevents r' hmem).symm, hsubmitted, .inl ?_⟩
    rw [setSlot_of_ne _ hne, hslots]
  have hthread : ∀ {base : Pool n P τ}, base.slots = pool.slots → base.submittedBy i = pool.submittedBy i →
      SoughtBack i r pool [] base :=
    fun hslots hsubmitted => ⟨fun _ h => (nomatch h), hsubmitted, .inl (congrFun hslots i)⟩
  have hnone : ∀ {j : Fin n} (r' : Record P), PoolEvent.delivered i r' ∈ ([] : List (PoolEvent n P)) → j = i :=
    fun _ h => (nomatch h)
  have hprogress : ∀ {id : Nat} {progress : Progress},
      (pool.progressTo id progress).submittedBy i = pool.submittedBy i := submittedBy_progressTo ..
  cases hstep with
  | beginDrain => exact hthread rfl rfl
  | exit j hphase => exact hother (by simp [hphase]) rfl rfl hnone
  | openFails j hphase => exact hother (by simp [hphase]) rfl rfl hnone
  | opens j hphase => exact hother (by simp [hphase]) rfl rfl hnone
  | stop j hphase => exact hother (by simp [hphase]) rfl rfl hnone
  | pick j hphase => exact hother (by simp [hphase]) rfl rfl hnone
  | rebalance j busy partitions hphase => exact hother (by simp [hphase]) rfl rfl hnone
  | fetch j busy p hphase => exact hother (by simp [hphase]) rfl rfl hnone
  | pollEmpty j busy hphase => exact hother (by simp [hphase]) rfl rfl hnone
  | pollBusy j r' hphase => exact hother (by simp [hphase]) rfl rfl (fun _ h => by simp at h)
  | pollIdle j r' hphase => exact hother (by simp [hphase]) rfl rfl (fun _ h => by simp at h; exact h.1.symm)
  | seek j r' hphase =>
      by_cases hj : i = j
      swap
      · refine ⟨fun _ h => (nomatch h), rfl, .inl ?_⟩
        rw [consume, setSlot_of_ne _ hj]
      subst hj
      rw [hseeking, Phase.seeking.injEq] at hphase
      subst hphase
      obtain ⟨old, hold, -⟩ := htracked.seeking r hseeking
      refine ⟨fun _ h => (nomatch h), rfl, .inr ⟨rfl, .inr ?_⟩⟩
      rw [consume, setSlot_self]
      refine ⟨rfl, { old with next := r.offset }, ?_, rfl⟩
      rw [Consumer.seek, hold]
      exact Consumer.position_place_some hold
  | refuse j r' hphase => exact hother (by simp [hphase]) rfl rfl hnone
  | post j r' hphase => exact hother (by simp [hphase]) rfl rfl hnone
  | stale j r' generation hphase => exact hother (by simp [hphase]) rfl rfl hnone
  | reply j r' generation reply hphase => exact hother (by simp [hphase]) rfl rfl hnone
  | commit j r' reply hphase => exact hother (by simp [hphase]) rfl rfl hnone
  | noTask j r' task hphase => exact hother (by simp [hphase]) rfl rfl hnone
  | task j r' task hphase => exact hother (by simp [hphase]) rfl rfl hnone
  | full j r' task hphase => exact hother (by simp [hphase]) rfl rfl (fun _ h => by simp at h)
  | acquire j r' task hphase =>
      have hne : j ≠ i := by
        rintro rfl
        rw [hseeking] at hphase
        cases hphase
      exact hother (by simp [hphase]) rfl (submittedBy_acquired hne r' task) hnone
  | count j id hphase => exact hother (by simp [hphase]) rfl hprogress hnone
  | start j id hphase => exact hother (by simp [hphase]) rfl hprogress hnone
  | submitted j id hphase => exact hother (by simp [hphase]) rfl rfl hnone
  | raises j hphase =>
      refine ⟨fun _ h => (nomatch h), rfl, ?_⟩
      by_cases hj : i = j
      · subst hj
        exact .inr ⟨rfl, .inl (by rw [enter, setSlot_self])⟩
      · exact .inl (setSlot_of_ne _ hj _)
  | close j hphase => exact hother (by simp [hphase]) rfl rfl hnone
  | closeFails j hphase => exact hother (by simp [hphase]) rfl rfl hnone
  | run => exact hthread rfl hprogress
  | countOut => exact hthread rfl hprogress
  | release => exact hthread rfl hprogress
  | releaseFails => exact hthread rfl hprogress
  | set => exact hthread rfl hprogress

-- ============================================================================
-- Runs of a worker
-- ============================================================================

theorem full_not_mem [DecidableEq P] (h : Inv pool) (hstep : Step log pool events pool') : .full i ∉ events := by
  intro hmem
  cases hstep with
  | full j r task hphase hpermits => exact h.permits_ne_zero (by rw [hphase]; rfl) hpermits
  | _ => simp at hmem

/-- What holds along every run. -/
structure Run (log : Record P → Prop) (trace : List (PoolEvent n P)) (pool : Pool n P τ) : Prop where
  inv : Inv pool
  tracked : ∀ i, Tracked log trace i (pool.slots i)
  notFull : ∀ i, .full i ∉ trace

theorem run_of_trace [DecidableEq P] {committed : P → Nat}
    (h : Trace (Step log) (Pool.initial n committed) trace pool) : Run log trace pool := by
  refine h.invariant ⟨.initial committed, fun _ => .unplaced (fun _ => rfl) rfl, fun _ h => (nomatch h)⟩ ?_
  intro trace events pool pool' hrun hstep
  refine ⟨hrun.inv.step hstep, tracked_step hrun.tracked hstep, fun i hmem => ?_⟩
  rcases List.mem_append.mp hmem with hmem | hmem
  · exact hrun.notFull i hmem
  · exact full_not_mem hrun.inv hstep hmem

/-- The executions of slot `i` whose event is not set. -/
def outstanding (pool : Pool n P τ) (i : Fin n) : List (Execution n P τ) :=
  pool.executions.filter (fun e => e.slot = i ∧ e.progress ≠ .done)

theorem Inv.outstanding_length (h : Inv pool) (i : Fin n) : (pool.outstanding i).length ≤ 1 := by
  have hpairwise : (pool.outstanding i).Pairwise (fun _ _ => False) := by
    rw [outstanding, List.pairwise_filter, List.pairwise_iff_getElem]
    intro k l hk hl hlt hkp hlp
    simp only [decide_eq_true_eq] at hkp hlp
    have heq := (h.fits i).unique (List.getElem?_eq_getElem hk) (List.getElem?_eq_getElem hl) hkp.1 hlp.1 hkp.2 hlp.2
    omega
  match hlist : pool.outstanding i with
  | [] => exact Nat.zero_le _
  | [_] => exact Nat.le_refl _
  | a :: b :: rest =>
      rw [hlist] at hpairwise
      exact absurd (List.rel_of_pairwise_cons hpairwise List.mem_cons_self) id

theorem Inv.inFlight_eq_zero (h : Inv pool) (hdone : ∀ e ∈ pool.executions, e.progress = .done) :
    pool.inFlight = 0 := by
  have hcount : pool.unfinished = 0 := by
    refine List.countP_eq_zero.mpr (fun e he => ?_)
    rw [hdone e he]
    exact Bool.false_ne_true
  rw [h.inFlight, hcount]
  rfl

/-- The slots of a worker over every interleaving: `submit` finds a permit and no release fails, a slot has
    one execution at most, `in_flight` counts the unfinished ones, and a record polled while the slot is
    busy is neither handed over nor passed. -/
theorem slots_exclusive [DecidableEq P] (log : Record P → Prop) (committed : P → Nat)
    (h : Trace (Step log) (Pool.initial n committed) trace pool) :
    (∀ i, .full i ∉ trace) ∧ (∀ e ∈ pool.executions, e.progress ≠ .broken) ∧
      (∀ i, (pool.outstanding i).length ≤ 1) ∧
      pool.inFlight = pool.unfinished ∧
      ((∀ e ∈ pool.executions, e.progress = .done) → pool.inFlight = 0) ∧
      (∀ i r, (pool.slots i).phase = .seeking r → ∀ events pool', Step log pool events pool' →
        SoughtBack i r pool events pool') ∧
      (∀ i, (pool.slots i).phase ≠ .closing → ∀ p position, (pool.slots i).consumer.position p = some position →
        ∀ o, position.start ≤ o → o < position.next → log ⟨p, o⟩ →
          .delivered i ⟨p, o⟩ ∈ trace ∨ (pool.slots i).phase = .seeking ⟨p, o⟩) := by
  have hrun := run_of_trace h
  refine ⟨hrun.notFull, hrun.inv.sound, hrun.inv.outstanding_length, hrun.inv.inFlight,
    hrun.inv.inFlight_eq_zero, fun i r hseeking events pool' hstep => ?_, fun i => (hrun.tracked i).covered⟩
  exact soughtBack_of_step (hrun.tracked i) hseeking hstep

/-- Two slots for two permits, their steps interleaved: both execute a record, the next record of the one is
    polled behind a rebalance while its execution runs and is sought back, and the other one finishes and
    takes its next record. -/
theorem busy_run : ∃ trace, ∃ pool : Pool 2 Nat Unit,
    Trace (Step (fun r => r.partition < 2)) (Pool.initial 2 (fun _ => 0)) trace pool ∧
      trace = [.delivered 0 ⟨0, 0⟩, .delivered 1 ⟨1, 0⟩, .polledBusy 0 ⟨0, 1⟩, .delivered 1 ⟨1, 1⟩] ∧
      pool.executions.length = 3 ∧ pool.permits = 0 ∧ pool.inFlight = 2 ∧
      (pool.slots 0).consumer.position 0 = some ⟨1, 1⟩ := by
  have hopen : Trace (Step (fun r : Record Nat => r.partition < 2))
      (Pool.initial 2 (fun _ => 0) : Pool 2 Nat Unit) _ _ :=
    (Trace.refl.tail (.opens 0 rfl rfl)).tail (.opens 1 rfl rfl)
  have hassigned := (((hopen.tail (.pick 0 rfl rfl)).tail (.pick 1 rfl rfl)).tail
    (.rebalance 0 false (· == 0) rfl)).tail (.rebalance 1 false (· == 1) rfl)
  have hplaced := (hassigned.tail (.fetch 0 false 0 rfl rfl)).tail (.fetch 1 false 1 rfl rfl)
  have hpolled := (hplaced.tail (.pollIdle 0 ⟨0, 0⟩ rfl
    ⟨by decide, fun a ha => by cases ha; rfl, ⟨0, 0⟩, rfl, Nat.le_refl 0,
      fun o _ hlt => absurd hlt (Nat.not_lt_zero o)⟩)).tail
    (.pollIdle 1 ⟨1, 0⟩ rfl
    ⟨by decide, fun a ha => by cases ha; rfl, ⟨0, 0⟩, rfl, Nat.le_refl 0,
      fun o _ hlt => absurd hlt (Nat.not_lt_zero o)⟩)
  have hposted := (hpolled.tail (.post 0 ⟨0, 0⟩ rfl rfl)).tail (.post 1 ⟨1, 0⟩ rfl rfl)
  have hreplied := (((hposted.tail (.reply 1 ⟨1, 0⟩ 2 ⟨true, 1, some ()⟩ rfl rfl)).tail
    (.reply 0 ⟨0, 0⟩ 2 ⟨true, 1, some ()⟩ rfl rfl)).tail (.commit 0 ⟨0, 0⟩ _ rfl)).tail (.commit 1 ⟨1, 0⟩ _ rfl)
  have hacquired := (((hreplied.tail (.task 0 ⟨0, 0⟩ () rfl rfl)).tail (.task 1 ⟨1, 0⟩ () rfl rfl)).tail
    (.acquire 1 ⟨1, 0⟩ () rfl (by decide))).tail (.acquire 0 ⟨0, 0⟩ () rfl (by decide))
  have hsubmitted := (((((hacquired.tail (.count 1 0 rfl)).tail (.count 0 1 rfl)).tail (.start 0 1 rfl)).tail
    (.start 1 0 rfl)).tail (.submitted 1 0 rfl)).tail (.submitted 0 1 rfl)
  have hbusy := ((hsubmitted.tail (.pick 0 rfl rfl)).tail (.rebalance 0 true (· == 0) rfl)).tail
    (.fetch 0 true 0 rfl rfl)
  have hsought := hbusy.tail (.pollBusy 0 ⟨0, 1⟩ rfl
    ⟨by decide, fun a ha => by cases ha; rfl, ⟨1, 1⟩, rfl, Nat.le_refl 1,
      fun o hle hlt => by simp only at hle hlt; omega⟩)
  -- the execution of the other slot ends before the seek
  have hended := (((hsought.tail (.run 0 _ rfl rfl)).tail (.countOut 0 _ rfl rfl)).tail
    (.release 0 _ rfl rfl (by decide))).tail (.set 0 _ rfl rfl)
  have hback := (hended.tail (.seek 0 ⟨0, 1⟩ rfl)).tail (.pick 1 rfl rfl)
  have hnext := ((hback.tail (.pollIdle 1 ⟨1, 1⟩ rfl
    ⟨by decide, fun a ha => by cases ha; rfl, ⟨0, 1⟩, rfl, Nat.le_refl 1,
      fun o hle hlt => by simp only at hle hlt; omega⟩)).tail
    (.post 1 ⟨1, 1⟩ rfl rfl)).tail (.reply 1 ⟨1, 1⟩ 2 ⟨true, 2, some ()⟩ rfl rfl)
  have hagain := ((((hnext.tail (.commit 1 ⟨1, 1⟩ _ rfl)).tail (.task 1 ⟨1, 1⟩ () rfl rfl)).tail
    (.acquire 1 ⟨1, 1⟩ () rfl (by decide))).tail (.count 1 2 rfl)).tail (.start 1 2 rfl)
  exact ⟨_, _, hagain.tail (.submitted 1 2 rfl), rfl, rfl, rfl, rfl, rfl⟩

theorem slots_exclusive_busy : ∃ trace, ∃ pool : Pool 2 Nat Unit,
    Trace (Step (fun r => r.partition < 2)) (Pool.initial 2 (fun _ => 0)) trace pool ∧
      .polledBusy 0 ⟨0, 1⟩ ∈ trace ∧ pool.executions.length = 3 ∧ pool.permits = 0 ∧ pool.unfinished = 2 ∧
      ∀ i, (pool.outstanding i).length ≤ 1 ∧ .full i ∉ trace := by
  obtain ⟨trace, pool, hrun, rfl, hthree, hpermits, hinFlight, -⟩ := busy_run
  obtain ⟨hfull, -, houtstanding, hcount, -⟩ := slots_exclusive _ _ hrun
  refine ⟨_, pool, hrun, by simp, hthree, hpermits, ?_, fun i => ⟨houtstanding i, hfull i⟩⟩
  rw [hinFlight] at hcount
  omega

end Pool

end DurableEngine.Workers
