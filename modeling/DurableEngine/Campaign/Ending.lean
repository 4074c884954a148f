/-
  DurableEngine.Campaign.Ending

  Every run of the load generator ends.

  A row costs at most seven steps: three of the schedule and four of its own
  goroutine.  A goroutine that is not over has a step, so a run stops only where
  `RunWithClock` returned.
-/

import DurableEngine.Campaign.Arrivals
import DurableEngine.Lib.Measure

namespace DurableEngine.Campaign

open Lib

/-- The steps that the goroutine of a row has left. -/
def Sender.remaining : Sender → ℕ
  | .spawned => 4
  | .sending => 3
  | .replied .. => 2
  | .returning => 1
  | .idle | .ended => 0

/-- The steps that the schedule and the goroutines it has not started have left. -/
def Main.remaining (n : ℕ) : Main → ℕ
  | .waiting i => 7 * (n - i) + 1
  | .waited i => 7 * (n - i)
  | .due i => 7 * (n - i) - 1
  | .returned _ => 0

namespace Load

variable {n : ℕ} {schedule : Schedule} {concurrency : ℕ} {planned : Fin n → Arrival} {t0 : ℤ} {s s' : Load n}
  {trace events : List (LoadEvent n)}

def remaining (s : Load n) : ℕ := s.main.remaining n + ∑ i, (s.senders i).remaining

theorem remaining_initial : (Load.initial schedule planned t0).remaining = 7 * n + 1 := by
  simp [remaining, Load.initial, Main.remaining, Sender.remaining]

/-- The goroutine of a row goes on. -/
theorem remaining_lt_of_goes {i : Fin n} {sender : Sender} (hmain : s'.main = s.main)
    (hsenders : s'.senders = Function.update s.senders i sender)
    (hless : sender.remaining < (s.senders i).remaining) : s'.remaining < s.remaining := by
  have hsum := sum_update_add Sender.remaining s.senders i sender
  rw [remaining, remaining, hmain, hsenders]
  omega

/-- The schedule goes on and starts no goroutine. -/
theorem remaining_lt_of_advance (hsenders : s'.senders = s.senders)
    (hless : s'.main.remaining n < s.main.remaining n) : s'.remaining < s.remaining := by
  rw [remaining, remaining, hsenders]
  exact Nat.add_lt_add_right hless _

/-- Every step is one of those that are left. -/
theorem Step.remaining_lt (h : Load.Step schedule concurrency s events s') : s'.remaining < s.remaining := by
  cases h with
  | cancel i text hmain | miss i _ hmain | full i hmain =>
      refine remaining_lt_of_advance rfl ?_
      rw [hmain]
      have hi := i.isLt
      simp only [skip, Main.remaining]
      omega
  | wait i t hmain =>
      refine remaining_lt_of_advance rfl ?_
      rw [hmain]
      exact Nat.lt_succ_self _
  | due i t hmain =>
      refine remaining_lt_of_advance rfl ?_
      rw [hmain]
      have hi := i.isLt
      simp only [Main.remaining]
      omega
  | join hmain =>
      refine remaining_lt_of_advance rfl ?_
      rw [hmain]
      exact Nat.succ_pos _
  | spawn i hmain =>
      have hsum := sum_update_add Sender.remaining s.senders i .spawned
      have hi := i.isLt
      simp only [remaining, setSender, hmain, Main.remaining, Sender.remaining] at hsum ⊢
      omega
  | late i t hsender => exact remaining_lt_of_goes (i := i) rfl rfl (by rw [hsender]; decide)
  | send i t hsender => exact remaining_lt_of_goes (i := i) rfl rfl (by rw [hsender]; decide)
  | reply i status data err hsender =>
      exact remaining_lt_of_goes (i := i) rfl rfl (by rw [hsender]; exact Nat.lt_succ_self 2)
  | finish i status data err t hsender =>
      exact remaining_lt_of_goes (i := i) rfl rfl (by rw [hsender]; exact Nat.lt_succ_self 1)
  | release i hsender => exact remaining_lt_of_goes (i := i) rfl rfl (by rw [hsender]; decide)

-- ============================================================================
-- Where a run can stop
-- ============================================================================

/-- The schedule stands at a row, or past the last one. -/
def Standing (n : ℕ) : Main → Prop
  | .waiting i => i ≤ n
  | .waited i | .due i => i < n
  | .returned _ => True

theorem Step.standing (h : Load.Step schedule concurrency s events s') (hs : Standing n s.main) :
    Standing n s'.main := by
  cases h with
  | cancel i | miss i | full i | spawn i => exact i.isLt
  | wait i | due i => exact i.isLt
  | join => trivial
  | _ => exact hs

/-- A goroutine that is not over has a step. -/
theorem exists_step_of_holds {i : Fin n} (h : (s.senders i).holds = true) :
    ∃ events s', Load.Step schedule concurrency s events s' := by
  cases hsender : s.senders i with
  | spawned =>
      by_cases hexpired : s.Expired schedule (s.rows i).sequence s.now
      · exact ⟨_, _, .late i s.now hsender le_rfl hexpired⟩
      · exact ⟨_, _, .send i s.now hsender le_rfl hexpired⟩
  | sending => exact ⟨_, _, .reply i 0 (.json .null) none hsender⟩
  | replied status data err => exact ⟨_, _, .finish i status data err s.now hsender le_rfl⟩
  | returning => exact ⟨_, _, .release i hsender⟩
  | idle | ended =>
      rw [hsender] at h
      cases h

/-- The schedule has a step, or waits for goroutines that have one, until the call returns. -/
theorem exists_step (hs : Standing n s.main) (hreturned : ∀ status, s.main ≠ .returned status) :
    ∃ events s', Load.Step schedule concurrency s events s' := by
  cases hmain : s.main with
  | waiting i =>
      rw [hmain] at hs
      obtain hlt | rfl := Nat.lt_or_eq_of_le (show i ≤ n from hs)
      · exact ⟨_, _, .wait ⟨i, hlt⟩ (max s.now (s.dueAt schedule i)) hmain (le_max_left _ _) (le_max_right _ _)⟩
      · by_cases hover : ∀ i, (s.senders i).holds = false
        · exact ⟨_, _, .join hmain hover⟩
        · obtain ⟨i, hi⟩ := not_forall.mp hover
          exact exists_step_of_holds (by simpa using hi)
  | waited i =>
      rw [hmain] at hs
      by_cases hexpired : s.Expired schedule i s.now
      · exact ⟨_, _, .miss ⟨i, hs⟩ s.now hmain le_rfl hexpired⟩
      · exact ⟨_, _, .due ⟨i, hs⟩ s.now hmain le_rfl hexpired⟩
  | due i =>
      rw [hmain] at hs
      by_cases hslots : s.slots < concurrency
      · exact ⟨_, _, .spawn ⟨i, hs⟩ hmain hslots⟩
      · exact ⟨_, _, .full ⟨i, hs⟩ hmain hslots⟩
  | returned status => exact absurd hmain (hreturned status)

/-- A call that returned left no goroutine. -/
theorem no_step_of_returned {status : Status} (hmain : s.main = .returned status)
    (hover : ∀ i, (s.senders i).holds = false) : ¬ Load.Step schedule concurrency s events s' := by
  intro h
  cases h with
  | cancel i text hat | wait i t hat | miss i t hat | due i t hat | full i hat | spawn i hat | join hat =>
      rw [hmain] at hat
      cases hat
  | late i t hat | send i t hat | reply i _ _ _ hat | finish i _ _ _ t hat | release i hat =>
      have hi := hover i
      rw [hat] at hi
      cases hi

/-- A run of the load generator takes seven steps for a row at most, and one to return.  It stops nowhere
    else than at the return, and nothing happens after that. -/
theorem run_ends {c : Config} {schedule : Schedule} {planned : Fin c.count → Arrival}
    (hplan : plan c schedule = some planned) (t0 : ℤ) :
    (∀ (f : ℕ → Load c.count) k, f 0 = Load.initial schedule planned t0 →
      Follows (Load.Step schedule c.concurrency) f k → k ≤ 7 * c.count + 1) ∧
    ∀ trace s, Trace (Load.Step schedule c.concurrency) (Load.initial schedule planned t0) trace s →
      ((∃ status, s.main = .returned status) ↔
        ∀ events s', ¬ Load.Step schedule c.concurrency s events s') := by
  refine ⟨fun f k hstart hrun => ?_, fun trace s hrun => ⟨?_, fun hstuck => ?_⟩⟩
  · have hle := hrun.measure_le (μ := remaining) (fun _ _ _ hstep => hstep.remaining_lt)
    rw [hstart, remaining_initial] at hle
    exact (Nat.le_add_right k _).trans hle
  · rintro ⟨status, hmain⟩ events s'
    have hinv := Inv.run (fun i => congrArg Arrival.sequence ((plan_eq_some hplan).2 i)) hrun
    exact no_step_of_returned hmain (hinv.returned status hmain).1
  · by_contra hnot
    have hstanding := hrun.keeps (I := fun s => Standing c.count s.main) (Nat.zero_le _)
      (fun _ _ _ hs hstep => hstep.standing hs)
    obtain ⟨events, s', hstep⟩ := exists_step hstanding (fun status hmain => hnot ⟨status, hmain⟩)
    exact hstuck events s' hstep

/-- The campaign of five rows, one of which finds both slots busy. -/
theorem run_ends_busy : ∃ trace s, Trace (Load.Step busySchedule 2) (Load.initial busySchedule busyPlan 1) trace s ∧
    s.main = .returned .fail ∧ (∃ i, (s.rows i).outcome = .capacityMissed) ∧
    ∀ events s', ¬ Load.Step busySchedule 2 s events s' := by
  obtain ⟨s, hrun, hmain, hrows⟩ := busy_run
  have hfull : (s.rows 2).outcome = .capacityMissed := by
    have hat := congrArg (fun outcomes => outcomes[2]?) hrows
    simpa using hat
  exact ⟨_, s, hrun, hmain, ⟨2, hfull⟩, ((run_ends busy_planned 1).2 _ s hrun).mp ⟨_, hmain⟩⟩

end Load

end DurableEngine.Campaign
