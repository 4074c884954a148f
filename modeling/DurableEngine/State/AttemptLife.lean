/-
  DurableEngine.State.AttemptLife

  The life of one attempt row.  `AttemptStep` lists what a committed operation
  can do to it, and `AttemptShape` what every stored attempt looks like: it is
  current as long as it is dispatchable or claimed, a worker holds it from its
  claim on, it has a result exactly in the states a worker reports, and its
  outcome is unknown exactly when a claimed effect was abandoned.
-/

import DurableEngine.State.CommitGraph

namespace DurableEngine.State

open Lib

/-- What one committed operation does to an attempt row. -/
inductive AttemptStep : Option Attempt → Option Attempt → Prop where
  | same (o : Option Attempt) : AttemptStep o o
  | created (key : AttemptKey) (effectClass : EffectClass) (deadline : Int)
      (effectKey scope : Option String) :
      AttemptStep none (some (freshAttempt key effectClass deadline effectKey scope))
  | claimed (a : Attempt) (token workerID requestID : String) (deadline : Int)
      (dispatchable : a.isCurrent = true ∧ a.state = .dispatchable)
      (named : token ≠ "" ∧ workerID ≠ "" ∧ requestID ≠ "") :
      AttemptStep (some a) (some { a with
        state := .claimed
        claimToken := some token
        workerID := some workerID
        workerRequestID := some requestID
        heartbeatDeadline := some deadline })
  | extended (a : Attempt) (deadline : Int) :
      AttemptStep (some a) (some { a with heartbeatDeadline := some deadline })
  | recorded (a : Attempt) (outcome : AttemptState) (document : Jsonb)
      (terminal : outcome.isTerminal = true) (isClaimed : a.isCurrent = true ∧ a.state = .claimed) :
      AttemptStep (some a) (some { a with
        state := outcome
        outcomeDisposition := if outcome = .succeeded then .knownSuccess else .none
        result := some document
        isCurrent := false })
  | timedOut (a : Attempt) (isClaimed : a.isCurrent = true ∧ a.state = .claimed) :
      AttemptStep (some a) (some { a with
        state := .timedOut
        isCurrent := false
        outcomeDisposition :=
          if a.effectClass = .nonCooperating then .outcomeUnknown else a.outcomeDisposition })
  | canceled (a : Attempt) : AttemptStep (some a) (some a.cancel)

/-- An update of the row whose key satisfies `c`. -/
theorem AttemptStep.of_modify {o : Option Attempt} {c : Prop} [Decidable c] {f : Attempt → Attempt}
    (h : ∀ a, o = some a → c → AttemptStep (some a) (some (f a))) :
    AttemptStep o (if c then o.map f else o) := by
  split
  · rename_i hc
    cases ho : o with
    | none => exact .same none
    | some a => exact h a ho hc
  · exact .same o

theorem AttemptStep.of_insert {t t' : Table Attempt.key} {key : AttemptKey}
    {effectClass : EffectClass} {deadline : Int} {effectKey scope : Option String}
    {o : Option Attempt} (h : Inserted t (freshAttempt key effectClass deadline effectKey scope) t') (k : AttemptKey)
    (hne : k ≠ key → AttemptStep o (t.get k)) (hnone : k = key → o = none) :
    AttemptStep o (t'.get k) := by
  rw [Table.get_insert h]
  split
  · rename_i hk
    rw [hnone hk]
    exact .created key effectClass deadline effectKey scope
  · rename_i hk
    exact hne hk

/-- What a committed operation does to the attempt row of a key. -/
theorem Change.attemptStep {db db' : DB} {α : Type} {op : Op α} (h : Change db op db')
    (k : AttemptKey) : AttemptStep (db.attempts.get k) (db'.attempts.get k) := by
  cases h with
  | idle rows =>
      rw [rows.attempts]
      exact .same _
  | created c | consumed c | timerScheduled c | advanced c | approvalRequested c | approvalGranted c
  | approvalRejected c =>
      rw [c.attempts]
      exact .same _
  | owner c =>
      rw [c.attempts, moveOwnedNode_attempts]
      exact .of_modify (fun a _ _ => .canceled a)
  | attemptCreated c =>
      exact .of_insert c.attempts k (fun _ => .same _)
        (fun hk => hk ▸ (Table.insert?_eq_some_iff.mp c.attempts).1)
  | claimed c =>
      rw [c.attempts, DB.get_modifyAttempt]
      refine .of_modify (fun b hb hk => .claimed b _ _ _ _ ?_ c.named)
      rw [hk, c.attempt, Option.some.injEq] at hb
      exact hb ▸ c.dispatchable
  | extended c | redispatched c =>
      rw [c.attempts, DB.get_modifyAttempt]
      exact .of_modify (fun a _ _ => .extended a _)
  | recorded c =>
      rw [c.attempts, DB.get_modifyAttempt]
      refine .of_modify (fun b hb hk => .recorded b _ _ c.outcome ?_)
      rw [hk, c.attempt, Option.some.injEq] at hb
      exact hb ▸ c.isClaimed
  | expired c =>
      rw [c.attempts, DB.get_modifyAttempt]
      refine .of_modify (fun b hb hk => ?_)
      rw [hk, c.attempt, Option.some.injEq] at hb
      subst hb
      have hstep := AttemptStep.timedOut _ c.isClaimed
      rwa [if_pos c.effectClass] at hstep
  | replaced c =>
      have hnone := (Table.insert?_eq_some_iff.mp c.attempts).1
      refine .of_insert c.attempts k (fun hk => ?_) (fun hk => ?_)
      · rw [DB.get_modifyAttempt]
        refine .of_modify (fun b hb hk => ?_)
        rw [hk, c.attempt, Option.some.injEq] at hb
        subst hb
        have hstep := AttemptStep.timedOut _ c.isClaimed
        rwa [if_neg c.effectClass] at hstep
      · rw [DB.get_modifyAttempt] at hnone
        subst hk
        split at hnone
        · exact Option.map_eq_none_iff.mp hnone
        · exact hnone
  | canceled c =>
      rw [c.attempts k]
      cases ha : db.attempts.get k with
      | none => exact .same none
      | some a =>
          rw [Option.map_some]
          split
          · exact .canceled a
          · exact .same (some a)

-- ============================================================================
-- The shape of an attempt
-- ============================================================================

/-- A worker was given the attempt, under a token and for a request of its own. -/
def Attempt.held (a : Attempt) : Prop :=
  ∃ token worker request, a.claimToken = some token ∧ a.workerID = some worker ∧
    a.workerRequestID = some request ∧ token ≠ "" ∧ worker ≠ "" ∧ request ≠ ""

/-- No worker was given the attempt. -/
def Attempt.unheld (a : Attempt) : Prop :=
  a.claimToken = none ∧ a.workerID = none ∧ a.workerRequestID = none

/-- The attempt of an effect was taken from the worker that held it: whether the effect
    happened is not known. -/
def Attempt.abandoned (a : Attempt) : Prop :=
  a.state = .timedOut ∧ a.effectClass = .nonCooperating ∨
    a.state = .canceled ∧ a.held ∧ a.effectClass ≠ .pure

/-- What holds of every stored attempt. -/
structure AttemptShape (a : Attempt) : Prop where
  current : a.isCurrent = true ↔ a.state = .dispatchable ∨ a.state = .claimed
  result : a.result.isSome = a.state.isTerminal
  held : a.state = .claimed ∨ a.state = .timedOut ∨ a.state.isTerminal = true → a.held
  unheld : a.state = .dispatchable → a.unheld
  either : a.held ∨ a.unheld
  unknown : a.outcomeDisposition = .outcomeUnknown ↔ a.abandoned
  deadline : a.heartbeatDeadline.isSome = true

theorem Attempt.held.not_unheld {a : Attempt} (h : a.held) : ¬ a.unheld := by
  rintro ⟨hnone, -, -⟩
  obtain ⟨token, worker, request, htoken, -⟩ := h
  rw [hnone] at htoken
  cases htoken

theorem AttemptShape.token {a : Attempt} (h : AttemptShape a)
    (hs : a.state = .claimed ∨ a.state.isTerminal = true) : a.claimToken.isSome = true := by
  obtain ⟨token, worker, request, htoken, -⟩ := h.held (hs.imp_right .inr)
  rw [htoken]
  rfl

/-- An attempt that is current has no unknown outcome. -/
theorem AttemptShape.known {a : Attempt} (h : AttemptShape a)
    (hs : a.state = .dispatchable ∨ a.state = .claimed) :
    a.outcomeDisposition ≠ .outcomeUnknown := by
  intro hunknown
  rcases h.unknown.mp hunknown with ⟨ht, -⟩ | ⟨ht, -⟩ <;> rcases hs with hs | hs <;>
    exact absurd (ht.symm.trans hs) (by decide)

theorem AttemptShape.cancel {a : Attempt} (h : AttemptShape a) : AttemptShape a.cancel := by
  unfold Attempt.cancel
  split
  · rename_i hcur
    have hstate := h.current.mp hcur
    have hresult : a.result.isSome = false := by
      rcases hstate with hs | hs <;> rw [h.result, hs] <;> rfl
    refine ⟨by simp, hresult, by simp [AttemptState.isTerminal], (fun hs => nomatch hs), h.either, ?_,
      h.deadline⟩
    -- the disposition is decided by whether a worker held the attempt
    have hheld : a.state = .claimed ↔ a.held := by
      refine ⟨fun hs => h.held (.inl hs), fun hh => ?_⟩
      rcases hstate with hs | hs
      · exact absurd (h.unheld hs) hh.not_unheld
      · exact hs
    simp only [Attempt.abandoned, reduceCtorEq, false_and, true_and, false_or]
    split
    · rename_i hc
      exact ⟨fun _ => ⟨hheld.mp hc.1, hc.2⟩, fun _ => rfl⟩
    · rename_i hc
      exact ⟨fun hn => (nomatch hn), fun hh => absurd ⟨hheld.mpr hh.1, hh.2⟩ hc⟩
  · exact h

theorem AttemptStep.shape {o o' : Option Attempt} (hs : AttemptStep o o')
    (h : ∀ a, o = some a → AttemptShape a) : ∀ a, o' = some a → AttemptShape a := by
  intro a ha
  cases hs with
  | same => exact h a ha
  | created key effectClass deadline effectKey scope =>
      cases ha
      exact ⟨by simp [freshAttempt], rfl, by simp [freshAttempt, AttemptState.isTerminal],
        fun _ => ⟨rfl, rfl, rfl⟩, .inr ⟨rfl, rfl, rfl⟩, by simp [freshAttempt, Attempt.abandoned], rfl⟩
  | claimed b token workerID requestID deadline hdisp hnamed =>
      cases ha
      have hb := h b rfl
      refine ⟨by simp [hdisp.1], ?_, fun _ => ⟨_, _, _, rfl, rfl, rfl, hnamed⟩, (fun hs => nomatch hs),
        .inl ⟨_, _, _, rfl, rfl, rfl, hnamed⟩, ?_, rfl⟩
      · simp only [hb.result, hdisp.2]
        rfl
      · simp [Attempt.abandoned, hb.known (.inl hdisp.2)]
  | extended b deadline =>
      cases ha
      have hb := h b rfl
      exact ⟨hb.current, hb.result, hb.held, hb.unheld, hb.either, hb.unknown, rfl⟩
  | recorded b outcome document hterm hclaimed =>
      cases ha
      have hb := h b rfl
      refine ⟨?_, by simp [hterm], fun _ => hb.held (.inl hclaimed.2), fun hs => ?_, hb.either, ?_,
        hb.deadline⟩
      · cases outcome <;> simp_all [AttemptState.isTerminal]
      · simp only at hs
        rw [hs] at hterm
        cases hterm
      · have hlive : outcome ≠ .timedOut ∧ outcome ≠ .canceled := by
          cases outcome <;> simp_all [AttemptState.isTerminal]
        simp only [Attempt.abandoned, hlive, false_and, or_false, iff_false]
        split <;> simp
  | timedOut b hclaimed =>
      cases ha
      have hb := h b rfl
      have hheld := hb.held (.inl hclaimed.2)
      refine ⟨by simp, ?_, fun _ => hheld, (fun hs => nomatch hs), hb.either, ?_, hb.deadline⟩
      · simp only [hb.result, hclaimed.2]
        rfl
      · simp only [Attempt.abandoned, reduceCtorEq, false_and, true_and, or_false]
        split
        · rename_i hclass
          exact ⟨fun _ => hclass, fun _ => rfl⟩
        · rename_i hclass
          exact ⟨fun hu => absurd hu (hb.known (.inr hclaimed.2)), fun hc => absurd hc hclass⟩
  | canceled b =>
      cases ha
      exact (h b rfl).cancel

theorem Reachable.attemptShape {env : Env} {db : DB} (h : Reachable env db) {a : Attempt}
    {k : AttemptKey} (ha : db.attempts.get k = some a) : AttemptShape a := by
  have hall : ∀ k a, db.attempts.get k = some a → AttemptShape a := by
    refine h.induction (I := fun db => ∀ k a, db.attempts.get k = some a → AttemptShape a)
      (fun _ _ _ hget => nomatch hget) ?_
    intro db db' hi hs
    cases hs with
    | tick d => exact hi
    | commit amb op r hrun =>
        exact fun k => ((Op.run_commit hrun).change.attemptStep k).shape (hi k)
  exact hall k a ha

end DurableEngine.State
