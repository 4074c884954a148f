/-
  DurableEngine.Campaign.Arrivals

  What every run of the load generator keeps.

  The goroutine of a row and the row itself determine each other: `RowState`
  lists the combinations, with the number of times the request was sent.  The
  slots count the goroutines that hold one.  A run that passes leaves rows that
  meet the checker's rules, all but the one that the scheduled time is not Go's
  zero time.
-/

import DurableEngine.Campaign.Load
import Mathlib

namespace DurableEngine.Campaign

open Lib State

-- ============================================================================
-- Rows
-- ============================================================================

section Since

variable {t t' t0 : ℤ}

theorem since_mono (h : t ≤ t') : since t t0 ≤ since t' t0 := by
  unfold since
  omega

/-- A reading that is not before the scheduled time is not before the offset. -/
theorem offset_le_since (schedule : Schedule) {i : ℕ} (h : t0 + schedule.offset i ≤ t) :
    schedule.offset i ≤ since t t0 := by
  have hrange := schedule.range i
  unfold since
  omega

end Since

namespace Arrival

variable {a : Arrival} {finish status t0 t : ℤ} {data : RawMessage} {err : Option String}

/-- The fields that are set once the sender returned. -/
theorem finished_eq (a : Arrival) (finish status : ℤ) (data : RawMessage) (err : Option String) :
    ∃ outcome error, a.finished finish status data err = { a with
      finishedNS := some finish
      httpStatus := status
      response := if data.valid then data else .json .null
      outcome := outcome
      error := error } ∧ outcome ≠ .notSent := by
  unfold finished
  cases err with
  | some text => exact ⟨.uncertain, text, rfl, by decide⟩
  | none =>
      dsimp only
      split
      · split
        · exact ⟨.accepted, a.error, rfl, by decide⟩
        · exact ⟨.uncertain, _, rfl, by decide⟩
      · split
        · exact ⟨.rejected, a.error, rfl, by decide⟩
        · exact ⟨.uncertain, a.error, rfl, by decide⟩

end Arrival

/-- A goroutine whose call is over. -/
def Sender.left : Sender → Bool
  | .returning | .ended => true
  | _ => false

/-- The state of a row that was planned as `p`: whether the schedule has passed it, its goroutine, the row
    and how often its request was sent. -/
inductive RowState (t0 now : ℤ) (p : Arrival) : Bool → Sender → Arrival → ℕ → Prop where
  | planned : RowState t0 now p false .idle p 0
  | skipped (outcome error) (houtcome : outcome ≠ .notSent ∧ outcome ≠ .accepted) :
      RowState t0 now p true .idle { p with outcome := outcome, error := error } 0
  | spawned (hdue : p.scheduledAt ≤ now) : RowState t0 now p true .spawned p 0
  | late {sender} (hsender : sender.left = true) :
      RowState t0 now p true sender { p with outcome := .missedSendDeadline } 0
  | sending (t) (hdue : p.scheduledAt ≤ t) (hnow : t ≤ now) :
      RowState t0 now p true .sending (p.started t0 t) 1
  | replied (t status data err) (hdue : p.scheduledAt ≤ t) (hnow : t ≤ now) :
      RowState t0 now p true (.replied status data err) (p.started t0 t) 1
  | finished {sender} (t t' status data err) (hsender : sender.left = true) (hdue : p.scheduledAt ≤ t)
      (hle : t ≤ t') (hnow : t' ≤ now) :
      RowState t0 now p true sender ((p.started t0 t).finished (since t' t0) status data err) 1

namespace RowState

variable {t0 now now' : ℤ} {p a : Arrival} {passed : Bool} {sender : Sender} {k : ℕ}

/-- Time goes on. -/
theorem mono (h : RowState t0 now p passed sender a k) (hle : now ≤ now') : RowState t0 now' p passed sender a k := by
  cases h with
  | planned => exact .planned
  | skipped outcome error houtcome => exact .skipped outcome error houtcome
  | spawned hdue => exact .spawned (hdue.trans hle)
  | late hsender => exact .late hsender
  | sending t hdue hnow => exact .sending t hdue (hnow.trans hle)
  | replied t status data err hdue hnow => exact .replied t status data err hdue (hnow.trans hle)
  | finished t t' status data err hsender hdue hle' hnow =>
      exact .finished t t' status data err hsender hdue hle' (hnow.trans hle)

theorem sequence_eq (h : RowState t0 now p passed sender a k) : a.sequence = p.sequence := by
  cases h with
  | finished t t' status data err =>
      obtain ⟨outcome, error, heq, -⟩ := (p.started t0 t).finished_eq (since t' t0) status data err
      rw [heq]
      rfl
  | _ => rfl

theorem sends_le (h : RowState t0 now p passed sender a k) : k ≤ 1 := by
  cases h <;> decide

theorem of_spawned (h : RowState t0 now p passed .spawned a k) : a = p ∧ k = 0 ∧ p.scheduledAt ≤ now := by
  cases h with
  | spawned hdue => exact ⟨rfl, rfl, hdue⟩
  | late hsender => cases hsender
  | finished _ _ _ _ _ hsender => cases hsender

theorem of_sending (h : RowState t0 now p passed .sending a k) (status data err) :
    RowState t0 now p true (.replied status data err) a k := by
  cases h with
  | sending t hdue hnow => exact .replied t status data err hdue hnow
  | late hsender => cases hsender
  | finished _ _ _ _ _ hsender => cases hsender

theorem of_replied {status : ℤ} {data : RawMessage} {err : Option String}
    (h : RowState t0 now p passed (.replied status data err) a k) (hle : now ≤ now') :
    RowState t0 now' p true .returning (a.finished (since now' t0) status data err) k := by
  cases h with
  | replied t _ _ _ hdue hnow => exact .finished t now' status data err rfl hdue (hnow.trans hle) le_rfl
  | late hsender => cases hsender
  | finished _ _ _ _ _ hsender => cases hsender

theorem of_returning (h : RowState t0 now p passed .returning a k) : RowState t0 now p true .ended a k := by
  cases h with
  | late => exact .late rfl
  | finished t t' status data err _ hdue hle hnow => exact .finished t t' status data err rfl hdue hle hnow

end RowState

namespace Load

variable {n : ℕ} {schedule : Schedule} {concurrency : ℕ} {planned : Fin n → Arrival} {t0 : ℤ} {s s' : Load n}
  {trace events : List (LoadEvent n)} {i j : Fin n}

-- ============================================================================
-- The invariant
-- ============================================================================

/-- The first row that the schedule has not passed. -/
def reached (n : ℕ) : Main → ℕ
  | .waiting i | .waited i | .due i => i
  | .returned _ => n

/-- How often the request of a row was sent. -/
def sends (trace : List (LoadEvent n)) (i : Fin n) : ℕ :=
  trace.countP (fun | .sent j _ => j = i)

/-- The goroutines with a slot. -/
def holding (s : Load n) : ℕ := ∑ i, (s.senders i).holds.toNat

/-- The planned row with its scheduled time. -/
def scheduledRow (schedule : Schedule) (planned : Fin n → Arrival) (t0 : ℤ) (i : Fin n) : Arrival :=
  { planned i with scheduledAt := t0 + schedule.offset i }

structure Inv (schedule : Schedule) (concurrency : ℕ) (planned : Fin n → Arrival) (t0 : ℤ)
    (trace : List (LoadEvent n)) (s : Load n) : Prop where
  start : s.t0 = t0
  rows : ∀ i, RowState t0 s.now (scheduledRow schedule planned t0 i) (decide (i.val < reached n s.main))
    (s.senders i) (s.rows i) (sends trace i)
  slots : s.slots = s.holding
  bounded : s.slots ≤ concurrency
  due : ∀ k, s.main = .waited k ∨ s.main = .due k → t0 + schedule.offset k ≤ s.now
  intime : ∀ (i : Fin n) t, .sent i t ∈ trace → i.val + 1 < n → t < t0 + schedule.offset (i + 1)
  returned : ∀ status, s.main = .returned status →
    (∀ i, (s.senders i).holds = false) ∧ status = verdict s.rows

theorem sends_append (trace events : List (LoadEvent n)) (i : Fin n) :
    sends (trace ++ events) i = sends trace i + sends events i :=
  List.countP_append ..

/-- The goroutines with a slot when one of them goes on. -/
theorem holding_setSender (s : Load n) (i : Fin n) (sender : Sender) :
    (s.setSender i sender).holding + (s.senders i).holds.toNat = s.holding + sender.holds.toNat := by
  have hupdate : (fun j => ((s.setSender i sender).senders j).holds.toNat) =
      Function.update (fun j => (s.senders j).holds.toNat) i sender.holds.toNat := by
    funext j
    by_cases hj : j = i
    · subst hj
      simp [setSender]
    · simp [setSender, Function.update_of_ne hj]
  have hrest := Finset.add_sum_erase Finset.univ (fun j => (s.senders j).holds.toNat) (Finset.mem_univ i)
  simp only [holding]
  rw [hupdate, Finset.sum_update_of_mem (Finset.mem_univ i), ← Finset.erase_eq]
  omega

namespace Inv

theorem initial (schedule : Schedule) (concurrency : ℕ) (planned : Fin n → Arrival) (t0 : ℤ) :
    Inv schedule concurrency planned t0 [] (Load.initial schedule planned t0) where
  start := rfl
  rows i := .planned
  slots := (Finset.sum_eq_zero (fun _ _ => rfl)).symm
  bounded := Nat.zero_le _
  due k h := by rcases h with h | h <;> cases h
  intime i t h := nomatch h
  returned status h := nomatch h

/-- The goroutine of one row goes on, or the schedule decides about the row. -/
theorem update (h : Inv schedule concurrency planned t0 trace s) {τ : Sender} {a : Arrival}
    (hstart : s'.t0 = s.t0) (hrows : s'.rows = Function.update s.rows i a)
    (hsenders : s'.senders = Function.update s.senders i τ) (hnow : s.now ≤ s'.now)
    (hreached : ∀ j : Fin n, j ≠ i → (j.val < reached n s'.main ↔ j.val < reached n s.main))
    (hevents : ∀ j : Fin n, j ≠ i → sends events j = 0)
    (hi : RowState t0 s'.now (scheduledRow schedule planned t0 i) (decide (i.val < reached n s'.main)) τ a
      (sends trace i + sends events i))
    (hslots : s'.slots + (s.senders i).holds.toNat = s.slots + τ.holds.toNat)
    (hbounded : s'.slots ≤ concurrency)
    (hdue : ∀ k, s'.main = .waited k ∨ s'.main = .due k → t0 + schedule.offset k ≤ s'.now)
    (hintime : ∀ (j : Fin n) t, .sent j t ∈ events → j.val + 1 < n → t < t0 + schedule.offset (j + 1))
    (hreturned : ∀ status, s'.main ≠ .returned status) :
    Inv schedule concurrency planned t0 (trace ++ events) s' where
  start := hstart.trans h.start
  rows j := by
    rw [sends_append, hrows, hsenders]
    by_cases hj : j = i
    · subst hj
      rwa [Function.update_self, Function.update_self]
    · rw [Function.update_of_ne hj, Function.update_of_ne hj, hevents j hj, Nat.add_zero,
        decide_eq_decide.mpr (hreached j hj)]
      exact (h.rows j).mono hnow
  slots := by
    have hholding := holding_setSender s i τ
    have heq : s'.holding = (s.setSender i τ).holding := by
      rw [holding, hsenders]
      rfl
    rw [heq]
    have hbefore := h.slots
    omega
  bounded := hbounded
  due := hdue
  intime j t hmem hlast := by
    rcases List.mem_append.mp hmem with hmem | hmem
    · exact h.intime j t hmem hlast
    · exact hintime j t hmem hlast
  returned status heq := absurd heq (hreturned status)

/-- The schedule goes on without a decision about a row. -/
theorem advance (h : Inv schedule concurrency planned t0 trace s) (hstart : s'.t0 = s.t0)
    (hrows : s'.rows = s.rows) (hsenders : s'.senders = s.senders) (hslots : s'.slots = s.slots)
    (hnow : s.now ≤ s'.now) (hreached : reached n s'.main = reached n s.main)
    (hdue : ∀ k, s'.main = .waited k ∨ s'.main = .due k → t0 + schedule.offset k ≤ s'.now)
    (hreturned : ∀ status, s'.main = .returned status →
      (∀ i, (s'.senders i).holds = false) ∧ status = verdict s'.rows) :
    Inv schedule concurrency planned t0 (trace ++ []) s' where
  start := hstart.trans h.start
  rows j := by
    rw [List.append_nil, hrows, hsenders, hreached]
    exact (h.rows j).mono hnow
  slots := by rw [hslots, holding, hsenders]; exact h.slots
  bounded := hslots ▸ h.bounded
  due := hdue
  intime j t hmem := h.intime j t (by rwa [List.append_nil] at hmem)
  returned := hreturned

/-- The row that the schedule stands at has no goroutine. -/
theorem planned_at (h : Inv schedule concurrency planned t0 trace s) (hat : reached n s.main = i.val) :
    s.senders i = .idle ∧ s.rows i = scheduledRow schedule planned t0 i ∧ sends trace i = 0 := by
  have hrow := h.rows i
  rw [hat, decide_eq_false (Nat.lt_irrefl _)] at hrow
  generalize s.senders i = sender at hrow ⊢
  generalize s.rows i = a at hrow ⊢
  generalize sends trace i = k at hrow ⊢
  cases hrow
  exact ⟨rfl, rfl, rfl⟩

/-- A row whose goroutine runs has been passed. -/
theorem passed (h : Inv schedule concurrency planned t0 trace s) (hsender : s.senders i ≠ .idle) :
    decide (i.val < reached n s.main) = true := by
  have hrow := h.rows i
  generalize decide (i.val < reached n s.main) = passed at hrow ⊢
  generalize s.senders i = sender at hrow hsender
  generalize s.rows i = a at hrow
  generalize sends trace i = k at hrow
  cases hrow with
  | planned => exact absurd rfl hsender
  | _ => rfl

/-- The schedule gives a row up. -/
theorem skip (h : Inv schedule concurrency planned t0 trace s) {outcome : ArrivalOutcome} {error : String}
    (hat : reached n s.main = i.val) (houtcome : outcome ≠ .notSent ∧ outcome ≠ .accepted) {now : ℤ}
    (hnow : s.now ≤ now) :
    Inv schedule concurrency planned t0 (trace ++ []) ({ s with now := now }.skip i outcome error) := by
  obtain ⟨hsender, hrow, hsends⟩ := h.planned_at hat
  refine h.update (i := i) (τ := .idle) rfl rfl ?_ hnow (fun j hj => ?_) (fun _ _ => rfl) ?_ ?_ h.bounded
    (fun k hk => by rcases hk with hk | hk <;> cases hk) (fun j t hmem => nomatch hmem) (fun status heq => nomatch heq)
  · rw [← hsender, Function.update_eq_self]
    rfl
  · have hne : j.val ≠ i.val := fun heq => hj (Fin.ext heq)
    rw [hat]
    change j.val < i.val + 1 ↔ _
    omega
  · rw [hsends, show decide (i.val < reached n (({ s with now := now } : Load n).skip i outcome error).main) = true
      from decide_eq_true (Nat.lt_succ_self _)]
    simp only [hrow]
    exact .skipped outcome error houtcome
  · rw [hsender]
    rfl

/-- The goroutine of a row goes on; the schedule stays where it is. -/
theorem goes (h : Inv schedule concurrency planned t0 trace s) {sender : Sender} {a : Arrival} (hstart : s'.t0 = s.t0)
    (hrows : s'.rows = Function.update s.rows i a) (hsenders : s'.senders = Function.update s.senders i sender)
    (hnow : s.now ≤ s'.now) (hmain : s'.main = s.main) (hholds : (s.senders i).holds = true)
    (hevents : ∀ j : Fin n, j ≠ i → sends events j = 0)
    (hi : RowState t0 s'.now (scheduledRow schedule planned t0 i) true sender a (sends trace i + sends events i))
    (hslots : s'.slots + 1 = s.slots + sender.holds.toNat)
    (hintime : ∀ (j : Fin n) t, .sent j t ∈ events → j.val + 1 < n → t < t0 + schedule.offset (j + 1)) :
    Inv schedule concurrency planned t0 (trace ++ events) s' := by
  have hidle : s.senders i ≠ .idle := fun heq => by
    rw [heq] at hholds
    cases hholds
  have hat := h.passed hidle
  refine h.update hstart hrows hsenders hnow (fun j _ => by rw [hmain]) hevents ?_ ?_ ?_ (fun k hk => ?_) hintime
    (fun status heq => ?_)
  · rw [hmain, hat]
    exact hi
  · rw [hholds]
    exact hslots
  · have hbounded := h.bounded
    have hle := Bool.toNat_le sender.holds
    omega
  · rw [hmain] at hk
    exact (h.due k hk).trans hnow
  · rw [hmain] at heq
    rw [(h.returned status heq).1 i] at hholds
    cases hholds

/-- The row that a goroutine has is its own. -/
theorem expired_iff (h : Inv schedule concurrency planned t0 trace s) (hseq : ∀ i, (planned i).sequence = i.val)
    (i : Fin n) (t : ℤ) : s.Expired schedule (s.rows i).sequence t ↔
      i.val + 1 < n ∧ t0 + schedule.offset (i + 1) ≤ t := by
  have heq : (s.rows i).sequence = i.val := (h.rows i).sequence_eq.trans (hseq i)
  rw [Expired, dueAt, heq, h.start]

/-- Every step keeps the invariant. -/
theorem step (h : Inv schedule concurrency planned t0 trace s) (hseq : ∀ i, (planned i).sequence = i.val)
    (hstep : Load.Step schedule concurrency s events s') :
    Inv schedule concurrency planned t0 (trace ++ events) s' := by
  cases hstep with
  | cancel i text hmain => exact h.skip (by rw [hmain]; rfl) (by decide) le_rfl
  | wait i t hmain hclock hdue =>
      refine h.advance rfl rfl rfl rfl hclock (by rw [hmain]; rfl) (fun k hk => ?_) (fun status heq => nomatch heq)
      rcases hk with hk | hk
      · obtain rfl : i.val = k := Main.waited.inj hk
        rwa [dueAt, h.start] at hdue
      · cases hk
  | miss i t hmain hclock _ => exact h.skip (by rw [hmain]; rfl) (by decide) hclock
  | due i t hmain hclock _ =>
      refine h.advance rfl rfl rfl rfl hclock (by rw [hmain]; rfl) (fun k hk => ?_) (fun status heq => nomatch heq)
      rcases hk with hk | hk
      · cases hk
      · obtain rfl : i.val = k := Main.due.inj hk
        exact (h.due _ (.inl hmain)).trans hclock
  | full i hmain _ => exact h.skip (by rw [hmain]; rfl) (by decide) le_rfl
  | spawn i hmain hslots =>
      have hat : reached n s.main = i.val := by rw [hmain]; rfl
      obtain ⟨hsender, hrow, hsends⟩ := h.planned_at hat
      refine h.update (i := i) (τ := .spawned) (a := s.rows i) rfl (Function.update_eq_self i s.rows).symm rfl le_rfl
        (fun j hj => ?_) (fun _ _ => rfl) ?_ (by rw [hsender]; rfl) hslots
        (fun k hk => by rcases hk with hk | hk <;> cases hk) (fun j t hmem => nomatch hmem)
        (fun status heq => nomatch heq)
      · have hne : j.val ≠ i.val := fun heq => hj (Fin.ext heq)
        rw [hat]
        change j.val < i.val + 1 ↔ _
        omega
      · rw [hsends, hrow]
        change RowState t0 s.now _ (decide (i.val < i.val + 1)) .spawned _ 0
        rw [decide_eq_true (Nat.lt_succ_self i.val)]
        exact .spawned (h.due i (.inr hmain))
  | join hmain hover =>
      refine h.advance rfl rfl rfl rfl le_rfl (by rw [hmain]; rfl) (fun k hk => ?_) (fun status heq => ?_)
      · rcases hk with hk | hk <;> cases hk
      · exact ⟨hover, (Main.returned.inj heq).symm⟩
  | late i t hsender hclock _ =>
      have hrow := h.rows i
      rw [hsender] at hrow
      obtain ⟨hplanned, hsends, -⟩ := hrow.of_spawned
      refine h.goes (i := i) rfl rfl rfl hclock rfl (by rw [hsender]; rfl) (fun _ _ => rfl) ?_ rfl
        (fun j t hmem => nomatch hmem)
      rw [hsends, hplanned]
      exact .late rfl
  | send i t hsender hclock hexpired =>
      have hrow := h.rows i
      rw [hsender] at hrow
      obtain ⟨hplanned, hsends, hdue⟩ := hrow.of_spawned
      refine h.goes (i := i) rfl rfl rfl hclock rfl (by rw [hsender]; rfl) (fun j hj => ?_) ?_ rfl
        (fun j t' hmem hlast => ?_)
      · simp [sends, Ne.symm hj]
      · have hone : sends [LoadEvent.sent i t] i = 1 := by simp [sends]
        rw [hsends, hone, hplanned, h.start]
        exact .sending t (hdue.trans hclock) le_rfl
      · obtain ⟨rfl, rfl⟩ := LoadEvent.sent.inj (List.mem_singleton.mp hmem)
        rw [h.expired_iff hseq] at hexpired
        exact lt_of_not_ge (fun hle => hexpired ⟨hlast, hle⟩)
  | reply i status data err hsender =>
      have hrow := h.rows i
      rw [hsender] at hrow
      exact h.goes (i := i) rfl (Function.update_eq_self i s.rows).symm rfl le_rfl rfl (by rw [hsender]; rfl)
        (fun _ _ => rfl) (hrow.of_sending status data err) rfl (fun j t hmem => nomatch hmem)
  | finish i status data err t hsender hclock =>
      have hrow := h.rows i
      rw [hsender] at hrow
      refine h.goes (i := i) rfl rfl rfl hclock rfl (by rw [hsender]; rfl) (fun _ _ => rfl) ?_ rfl
        (fun j t hmem => nomatch hmem)
      rw [h.start]
      exact hrow.of_replied hclock
  | release i hsender =>
      have hrow := h.rows i
      rw [hsender] at hrow
      have hheld : 0 < s.slots := by
        have hholding := holding_setSender s i .ended
        rw [hsender, ← h.slots] at hholding
        change _ + 1 = _ + 0 at hholding
        omega
      refine h.goes (i := i) rfl (Function.update_eq_self i s.rows).symm rfl le_rfl rfl (by rw [hsender]; rfl)
        (fun _ _ => rfl) hrow.of_returning ?_ (fun j t hmem => nomatch hmem)
      change s.slots - 1 + 1 = s.slots
      omega

/-- Every run keeps the invariant. -/
theorem run (hseq : ∀ i, (planned i).sequence = i.val)
    (h : Trace (Load.Step schedule concurrency) (Load.initial schedule planned t0) trace s) :
    Inv schedule concurrency planned t0 trace s :=
  h.invariant (.initial schedule concurrency planned t0) (fun _ _ _ _ hinv hstep => hinv.step hseq hstep)

end Inv

-- ============================================================================
-- The rows that a run returns
-- ============================================================================

/-- The calls of the sender that have not returned. -/
def inProgress (s : Load n) : ℕ := ((Finset.univ : Finset (Fin n)).filter (fun i => s.senders i = .sending)).card

theorem inProgress_le (s : Load n) : s.inProgress ≤ s.holding := by
  rw [inProgress, Finset.card_filter, holding]
  refine Finset.sum_le_sum (fun i _ => ?_)
  split
  next heq => rw [heq]; decide
  next => exact Nat.zero_le _

theorem verdict_eq_pass (rows : Fin n → Arrival) : verdict rows = .pass ↔ ∀ i, (rows i).outcome = .accepted := by
  unfold verdict
  split
  next h =>
    obtain ⟨i, hi⟩ := h
    exact ⟨(fun heq => nomatch heq), fun hall => absurd (hall i) hi⟩
  next h => exact ⟨fun _ i => by_contra (fun hi => h ⟨i, hi⟩), fun _ => rfl⟩

end Load

/-- A planned row before its request is sent. -/
structure Unsent (a : Arrival) : Prop where
  sendNS : a.sendNS = none
  sentAt : a.sentAt = none
  finishedNS : a.finishedNS = none
  outcome : a.outcome = .notSent

namespace RowState

variable {t0 now : ℤ} {p a : Arrival} {sender : Sender} {k : ℕ}

/-- A row whose goroutine is over, or was never started. -/
theorem decided (h : RowState t0 now p true sender a k) (hover : sender.holds = false) (hp : Unsent p) :
    a.outcome ≠ .notSent ∧ (a.sendNS.isSome = true ↔ k = 1) ∧ (a.sentAt.isSome = true ↔ k = 1) ∧
      (a.finishedNS.isSome = true ↔ k = 1) := by
  cases h with
  | skipped outcome error houtcome => simp [hp.sendNS, hp.sentAt, hp.finishedNS, houtcome.1]
  | spawned hdue => cases hover
  | late hsender => simp [hp.sendNS, hp.sentAt, hp.finishedNS]
  | sending t hdue hnow => cases hover
  | replied t status data err hdue hnow => cases hover
  | finished t t' status data err hsender hdue hle hnow =>
      obtain ⟨outcome, error, heq, hne⟩ := (p.started t0 t).finished_eq (since t' t0) status data err
      rw [heq]
      exact ⟨hne, by simp [Arrival.started], by simp [Arrival.started], by simp⟩

/-- An accepted row meets the checker's rules when its scheduled time is not the zero time. -/
theorem complete (h : RowState t0 now p true sender a k) (haccepted : a.outcome = .accepted) (hp : Unsent p)
    {schedule : Schedule} {rate : ℚ} {i : ℕ} (hrate : 0 < rate) (hns : p.scheduledNS = schedule.offset i)
    (hat : p.scheduledAt = t0 + schedule.offset i) (hrequest : p.request.valid = true) :
    Complete schedule rate i a ↔ t0 + schedule.offset i ≠ 0 := by
  cases h with
  | skipped outcome error houtcome => exact absurd haccepted houtcome.2
  | spawned hdue => rw [hp.outcome] at haccepted; cases haccepted
  | late hsender => cases haccepted
  | sending t hdue hnow => exact absurd (hp.outcome.symm.trans haccepted) (by decide)
  | replied t status data err hdue hnow => exact absurd (hp.outcome.symm.trans haccepted) (by decide)
  | finished t t' status data err hsender hdue hle hnow =>
      obtain ⟨outcome, error, heq, -⟩ := (p.started t0 t).finished_eq (since t' t0) status data err
      rw [heq, ← hat]
      refine ⟨fun hcomplete => hcomplete.scheduledAt, fun hzero => ⟨hrate, hns, hzero, ?_, ?_, hrequest, ?_⟩⟩
      · refine ⟨since t t0, rfl, since t' t0, rfl, ?_, since_mono hle, rfl⟩
        exact hns.trans_le (offset_le_since schedule (hat ▸ hdue))
      · exact Option.some_ne_none t
      · dsimp only
        split
        next hvalid => exact hvalid
        next => rfl

end RowState

namespace Load

theorem plan_eq_some {c : Config} {schedule : Schedule} {planned : Fin c.count → Arrival}
    (h : plan c schedule = some planned) : 0 < c.rate ∧ ∀ i, planned i = plannedRow c schedule i := by
  unfold plan at h
  split at h
  next hvalid =>
    obtain rfl := Option.some.inj h
    simp only [Config.validate, Bool.and_eq_true, decide_eq_true_eq] at hvalid
    exact ⟨hvalid.1.1.1.1.1, fun i => rfl⟩
  next => cases h

/-- What every run of the load generator keeps, and the rows that it returns. -/
theorem run_bounded {c : Config} {schedule : Schedule} {planned : Fin c.count → Arrival}
    (hplan : plan c schedule = some planned) {t0 : ℤ} {trace : List (LoadEvent c.count)} {s : Load c.count}
    (h : Trace (Load.Step schedule c.concurrency) (Load.initial schedule planned t0) trace s) :
    s.inProgress ≤ c.concurrency ∧
    (∀ i, sends trace i ≤ 1) ∧
    (∀ (i : Fin c.count) t, .sent i t ∈ trace → i.val + 1 < c.count → t < t0 + schedule.offset (i + 1)) ∧
    ∀ status, s.main = .returned status →
      (∀ i, (s.rows i).outcome ≠ .notSent ∧ ((s.rows i).sendNS.isSome = true ↔ sends trace i = 1) ∧
        ((s.rows i).sentAt.isSome = true ↔ sends trace i = 1) ∧
        ((s.rows i).finishedNS.isSome = true ↔ sends trace i = 1)) ∧
      (status = .pass ↔ ∀ i, (s.rows i).outcome = .accepted) ∧
      (status = .pass → ∀ i : Fin c.count,
        Complete schedule c.rate i (s.rows i) ↔ t0 + schedule.offset i ≠ 0) := by
  obtain ⟨hrate, hrow⟩ := plan_eq_some hplan
  have hinv := Inv.run (fun i => congrArg Arrival.sequence (hrow i)) h
  refine ⟨(inProgress_le s).trans (hinv.slots ▸ hinv.bounded), fun i => (hinv.rows i).sends_le, hinv.intime,
    fun status hreturned => ?_⟩
  obtain ⟨hover, rfl⟩ := hinv.returned status hreturned
  have hunsent : ∀ i, Unsent (scheduledRow schedule planned t0 i) := fun i => by
    rw [scheduledRow, hrow i]
    exact ⟨rfl, rfl, rfl, rfl⟩
  have hrows : ∀ i, RowState t0 s.now (scheduledRow schedule planned t0 i) true (s.senders i) (s.rows i)
      (sends trace i) := fun i => by
    have hi := hinv.rows i
    rwa [hreturned, reached, decide_eq_true i.isLt] at hi
  refine ⟨fun i => (hrows i).decided (hover i) (hunsent i), verdict_eq_pass s.rows, fun hpass i => ?_⟩
  have haccepted := (verdict_eq_pass s.rows).mp hpass i
  exact (hrows i).complete haccepted (hunsent i) hrate (congrArg Arrival.scheduledNS (hrow i)) rfl
    (by rw [scheduledRow, hrow i]; exact requestOf_shallow c i)

-- ============================================================================
-- Two campaigns
-- ============================================================================

/-- A campaign of one request. -/
def soloConfig : Config where
  bounded := true
  namespace_ := "dur053-test"
  runID := "test"
  arm := "short"
  seed := 530001
  rate := 10
  count := 1
  concurrency := 1
  cpuUnits := 1
  timeout := 5000000000

def soloSchedule : Schedule where
  offset _ := 0
  monotone _ _ _ := le_rfl
  range _ := by decide

def soloPlan (i : Fin 1) : Arrival := plannedRow soloConfig soloSchedule i

/-- The acceptance of the request. -/
def soloReply : RawMessage := .json (.obj [("workflow", .obj [("workflow_id", .str (keyOf soloConfig 0))])])

/-- The accepted row. -/
def soloRow (t0 : ℤ) : Arrival :=
  ((scheduledRow soloSchedule soloPlan t0 0).started t0 t0).finished (since t0 t0) 201 soloReply none

theorem solo_run (t0 : ℤ) : ∃ s, Trace (Load.Step soloSchedule 1) (Load.initial soloSchedule soloPlan t0)
    [.sent 0 t0] s ∧ s.main = .returned .pass ∧ s.rows 0 = soloRow t0 := by
  have hin : ∀ (s : Load 1) k t, ¬ s.Expired soloSchedule k t := fun s k t h => by
    have hlt := h.1
    omega
  have hsent := ((((@Trace.refl _ _ (Load.Step soloSchedule 1) (Load.initial soloSchedule soloPlan t0)).tail
    (.wait 0 t0 rfl le_rfl (le_of_eq (Int.add_zero t0)))).tail
    (.due 0 t0 rfl le_rfl (hin _ _ _))).tail (.spawn 0 rfl Nat.one_pos)).tail (.send 0 t0 rfl le_rfl (hin _ _ _))
  have hreplied := ((hsent.tail (.reply 0 201 soloReply none rfl)).tail
    (.finish 0 201 soloReply none t0 rfl le_rfl)).tail (.release 0 rfl)
  have hreturned := hreplied.tail (.join rfl (fun i => by rw [Subsingleton.elim i 0]; rfl))
  refine ⟨_, hreturned, ?_, rfl⟩
  refine congrArg Main.returned ((verdict_eq_pass _).mpr (fun i => ?_))
  rw [Subsingleton.elim i 0]
  rfl

theorem solo_planned : plan soloConfig soloSchedule = some soloPlan := by
  have hvalid : soloConfig.validate = true := by decide +kernel
  exact if_pos hvalid

/-- A campaign of five requests, two of them at a time. -/
def busyConfig : Config := { soloConfig with count := 5, concurrency := 2 }

def busySchedule : Schedule where
  offset i := 100000000 * (min i 4 : ℕ)
  monotone i j hij := by
    have hmin : (min i 4 : ℕ) ≤ min j 4 := by omega
    simp only
    omega
  range i := by
    have hmin : (min i 4 : ℕ) ≤ 4 := by omega
    omega

def busyPlan (i : Fin 5) : Arrival := plannedRow busyConfig busySchedule i

/-- The acceptance of a row's request. -/
def busyReply (i : ℕ) : RawMessage := .json (.obj [("workflow", .obj [("workflow_id", .str (keyOf busyConfig i))])])

theorem busy_planned : plan busyConfig busySchedule = some busyPlan := by
  have hvalid : busyConfig.validate = true := by decide +kernel
  exact if_pos hvalid

/-- The first two requests overlap, and the third row finds no slot.  The goroutine of the fourth row reads the
    clock when the last row is due, and that one is sent while the second request is under way. -/
theorem busy_run : ∃ s, Trace (Load.Step busySchedule 2) (Load.initial busySchedule busyPlan 1)
    [.sent 0 1, .sent 1 100000001, .sent 4 400000002] s ∧ s.main = .returned .fail ∧
    (List.finRange 5).map (fun i => (s.rows i).outcome) =
      [.accepted, .uncertain, .capacityMissed, .missedSendDeadline, .accepted] := by
  have hfirst := ((((@Trace.refl _ _ (Load.Step busySchedule 2) (Load.initial busySchedule busyPlan 1)).tail
    (.wait 0 1 rfl (by decide) (by decide))).tail
    (.due 0 1 rfl (by decide) (fun h => absurd h.2 (by decide)))).tail (.spawn 0 rfl (by decide))).tail
    (.send 0 1 rfl (by decide) (fun h => absurd h.2 (by decide)))
  have hsecond := (((hfirst.tail (.wait 1 100000001 rfl (by decide) (by decide))).tail
    (.due 1 100000001 rfl (by decide) (fun h => absurd h.2 (by decide)))).tail (.spawn 1 rfl (by decide))).tail
    (.send 1 100000001 rfl (by decide) (fun h => absurd h.2 (by decide)))
  have hfull := ((hsecond.tail (.wait 2 200000001 rfl (by decide) (by decide))).tail
    (.due 2 200000001 rfl (by decide) (fun h => absurd h.2 (by decide)))).tail (.full 2 rfl (by decide))
  have haccepted := ((hfull.tail (.reply 0 201 (busyReply 0) none rfl)).tail
    (.finish 0 201 _ none 300000000 rfl (by decide))).tail (.release 0 rfl)
  have hlate := ((((haccepted.tail (.wait 3 300000001 rfl (by decide) (by decide))).tail
    (.due 3 300000001 rfl (by decide) (fun h => absurd h.2 (by decide)))).tail (.spawn 3 rfl (by decide))).tail
    (.late 3 400000001 rfl (by decide) ⟨by decide, by decide⟩)).tail (.release 3 rfl)
  have hlast := ((((hlate.tail (.wait 4 400000002 rfl (by decide) (by decide))).tail
    (.due 4 400000002 rfl (by decide) (fun h => absurd h.1 (by decide)))).tail (.spawn 4 rfl (by decide))).tail
    (.send 4 400000002 rfl (by decide) (fun h => absurd h.1 (by decide)))).tail (.reply 1 0 .empty (some "EOF") rfl)
  have hover := ((((hlast.tail (.reply 4 201 (busyReply 4) none rfl)).tail
    (.finish 1 0 _ _ 500000000 rfl (by decide))).tail (.finish 4 201 _ none 500000000 rfl (by decide))).tail
    (.release 1 rfl)).tail (.release 4 rfl)
  refine ⟨_, hover.tail (.join rfl (fun i => ?_)), ?_, ?_⟩
  · fin_cases i <;> rfl
  · refine congrArg Main.returned ?_
    exact if_pos ⟨1, by decide⟩
  · decide +kernel

/-- A run that fails with rows of every kind, and one that passes. -/
theorem run_bounded_busy :
    (∃ trace, ∃ s : Load 5, Trace (Load.Step busySchedule 2) (Load.initial busySchedule busyPlan 1) trace s ∧
      s.main = .returned .fail ∧ (∀ i, sends trace i ≤ 1) ∧ .sent 1 100000001 ∈ trace ∧
      (∀ i, (s.rows i).sentAt.isSome = true ↔ sends trace i = 1) ∧ (s.rows 3).outcome = .missedSendDeadline) ∧
    ∃ s : Load 1, s.main = .returned .pass ∧ Complete soloSchedule 10 0 (s.rows 0) := by
  constructor
  · obtain ⟨s, hrun, hmain, hrows⟩ := busy_run
    obtain ⟨-, hsends, -, hreturned⟩ := run_bounded busy_planned hrun
    have hmissed : (s.rows 3).outcome = .missedSendDeadline := by
      have hat := congrArg (fun outcomes => outcomes[3]?) hrows
      simpa using hat
    exact ⟨_, s, hrun, hmain, hsends, by decide, fun i => ((hreturned _ hmain).1 i).2.2.1, hmissed⟩
  · obtain ⟨s, hrun, hmain, -⟩ := solo_run 1
    have hpass := ((run_bounded solo_planned hrun).2.2.2 .pass hmain).2.2 rfl (0 : Fin 1)
    exact ⟨s, hmain, hpass.mpr (by decide)⟩

/-- At a clock that starts at the zero time a run passes with a row that the checker refuses. -/
theorem zero_time_refused : ¬ ∀ (c : Config) (schedule : Schedule) (planned : Fin c.count → Arrival) (t0 : ℤ)
    (trace : List (LoadEvent c.count)) (s : Load c.count), plan c schedule = some planned →
      Trace (Load.Step schedule c.concurrency) (Load.initial schedule planned t0) trace s →
      s.main = .returned .pass → ∀ i : Fin c.count, Complete schedule c.rate i (s.rows i) := by
  intro h
  obtain ⟨s, hrun, hmain, hrow⟩ := solo_run 0
  have hcomplete := h soloConfig soloSchedule soloPlan 0 _ s solo_planned hrun hmain (0 : Fin 1)
  rw [hrow] at hcomplete
  exact hcomplete.scheduledAt rfl

end Load

end DurableEngine.Campaign
