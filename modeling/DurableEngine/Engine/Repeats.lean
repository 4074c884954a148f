/-
  DurableEngine.Engine.Repeats

  When a node whose effect does not cooperate gets a further attempt.

  The store alone would also give one to a node whose last attempt succeeded,
  because an owner transition may take a finished node back to waiting.
  Scheduler passes issue no such transition: in runs of the system every
  earlier attempt failed and was to be retried.
-/

import DurableEngine.Engine.Nodes
import DurableEngine.State.Ambiguity

namespace DurableEngine.Engine

open Lib State

-- ============================================================================
-- Success is the last attempt
-- ============================================================================

/-- An attempt that succeeded is the one its node points to, or the node has succeeded with it,
    or the workflow has ended; and no attempt follows it. -/
structure SuccessLast (db : DB) (k : NodeKey) : Prop where
  released : ∀ m a, db.attempts.get ⟨k, m⟩ = some a → a.state = .succeeded →
    db.pointer k = some m ∨ db.over k ∨ ∃ n, db.nodes.get k = some n ∧ n.state = .succeeded
  last : ∀ m m' a a', db.attempts.get ⟨k, m⟩ = some a → db.attempts.get ⟨k, m'⟩ = some a' →
    m < m' → a.state ≠ .succeeded

/-- Only a claimed attempt becomes a success. -/
theorem succeeded_of_step {a a' : Attempt} (h : AttemptStep (some a) (some a'))
    (hs : a'.state = .succeeded) : a.state = .succeeded ∨ a.isCurrent = true := by
  cases h with
  | same => exact .inl hs
  | claimed => cases hs
  | extended => exact .inl hs
  | recorded _ outcome document terminal isClaimed => exact .inr isClaimed.1
  | timedOut => cases hs
  | canceled =>
      unfold Attempt.cancel at hs
      split at hs
      · cases hs
      · exact .inl hs

section Step

variable {env : Env} {db db' : DB} {α : Type} {op : Op α} {k : NodeKey}

theorem SuccessLast.change (h : SuccessLast db k) (hreach : Reachable env db)
    (hshaped : NodesShaped db) (hok : Allowed α op db) (hc : Change db op db') :
    SuccessLast db' k := by
  obtain ⟨N, hN⟩ := hreach.generation k
  have hnode : (∃ n, db.nodes.get k = some n ∧ n.state = .succeeded) →
      ∃ n, db'.nodes.get k = some n ∧ n.state = .succeeded := by
    rintro ⟨n, hn, hs⟩
    have hmove := Allowed.nodeMove hok hc hshaped hreach.generation k
    rw [hn] at hmove
    obtain ⟨n', hn', hkept⟩ := hmove.kept (hshaped k n hn) (by rw [hs]; rfl)
    exact ⟨n', hn', hkept.state.trans hs⟩
  -- a success that existed before, or the attempt the node points to
  have hsuccess : ∀ m a a', db.attempts.get ⟨k, m⟩ = some a → db'.attempts.get ⟨k, m⟩ = some a' →
      a'.state = .succeeded → a.state = .succeeded ∨ db.pointer k = some m := by
    intro m a a' ha ha' hs
    have hstep := hc.attemptStep ⟨k, m⟩
    rw [ha, ha'] at hstep
    exact (succeeded_of_step hstep hs).imp id (hN.current m a ha)
  have hlast : ∀ m m' a a' b, db.attempts.get ⟨k, m⟩ = some a → db.attempts.get ⟨k, m'⟩ = some b →
      db'.attempts.get ⟨k, m⟩ = some a' → m < m' → a'.state ≠ .succeeded := by
    intro m m' a a' b ha hb ha' hlt hs
    rcases hsuccess m a a' ha ha' hs with hold | hptr
    · exact h.last m m' a b ha hb hlt hold
    · have hm := (hN.pointer m hptr).1
      have hm' := ((hN.numbers m').mp ⟨b, hb⟩).2
      omega
  have hnoNew : NoNewAttempt db db' k → ∀ m m' a a', db'.attempts.get ⟨k, m⟩ = some a →
      db'.attempts.get ⟨k, m'⟩ = some a' → m < m' → a.state ≠ .succeeded := by
    intro noNew m m' a a' ha ha' hlt
    obtain ⟨a₀, ha₀⟩ := noNew m a ha
    obtain ⟨b, hb⟩ := noNew m' a' ha'
    exact hlast m m' a₀ a b ha₀ hb ha hlt
  cases hc.pointerMove hreach.generation k with
  | keep pointer noNew =>
      refine ⟨fun m a' ha' hs => ?_, hnoNew noNew⟩
      obtain ⟨a, ha⟩ := noNew m a' ha'
      rcases hsuccess m a a' ha ha' hs with hold | hptr
      · rcases h.released m a ha hold with hptr | ho | hn
        · exact .inl (pointer.trans hptr)
        · exact .inr (.inl (hc.over ho))
        · exact .inr (.inr (hnode hn))
      · exact .inl (pointer.trans hptr)
  | ended isOver noNew => exact ⟨fun _ _ _ _ => .inr (.inl isOver), hnoNew noNew⟩
  | consumed m₀ b before attempt outcome attempts =>
      refine ⟨fun m a ha hs => ?_, hnoNew (.of_eq attempts k)⟩
      rw [attempts] at ha
      rcases h.released m a ha hs with hptr | ho | hn
      · cases before.symm.trans hptr
        cases attempt.symm.trans ha
        rcases outcome with ⟨-, hn⟩ | hs'
        · exact .inr (.inr hn)
        · exact absurd (hs.symm.trans hs') (by decide)
      · exact .inr (.inl (hc.over ho))
      · exact .inr (.inr (hnode hn))
  | created N' before generation live waiting after new =>
      have hnone : ∀ m a, db.attempts.get ⟨k, m⟩ = some a → a.state ≠ .succeeded := by
        intro m a ha hs
        rcases h.released m a ha hs with hptr | ho | ⟨n, hn, hs'⟩
        · rw [before] at hptr
          cases hptr
        · exact live ho
        · obtain ⟨n', hn', hwaiting⟩ := waiting
          cases hn.symm.trans hn'
          exact absurd (hs'.symm.trans hwaiting) (by decide)
      refine ⟨fun m a ha hs => ?_, fun m m' a a' ha ha' hlt => ?_⟩
      · by_cases hm : m = N' + 1
        · exact .inl (by rw [hm]; exact after)
        · exact absurd hs (hnone m a (new m a ha hm))
      · by_cases hm : m = N' + 1
        · have hle := ((generation.numbers m').mp ⟨a', new m' a' ha' (by omega)⟩).2
          omega
        · exact hnone m a (new m a ha hm)
  | replaced m₀ b before attempt isCurrent effectClass after timedOut new =>
      have hm₀ := (hN.pointer m₀ before).1
      have hnone : ∀ m a, db'.attempts.get ⟨k, m⟩ = some a → m ≠ m₀ + 1 → a.state ≠ .succeeded := by
        intro m a ha hm
        obtain ⟨a₀, ha₀⟩ := new m a ha hm
        have hle := ((hN.numbers m).mp ⟨a₀, ha₀⟩).2
        by_cases heq : m = m₀
        · subst heq
          rw [timedOut a ha]
          decide
        · exact hlast m m₀ a₀ a b ha₀ attempt ha (by omega)
      refine ⟨fun m a ha hs => ?_, fun m m' a a' ha ha' hlt => ?_⟩
      · by_cases hm : m = m₀ + 1
        · exact .inl (by rw [hm]; exact after)
        · exact absurd hs (hnone m a ha hm)
      · refine hnone m a ha ?_
        rintro rfl
        obtain ⟨a₀, ha₀⟩ := new m' a' ha' (by omega)
        have hle := ((hN.numbers m').mp ⟨a₀, ha₀⟩).2
        omega

end Step

theorem reachable_successLast {env : Env} {C : ∀ α : Type, Op α → DB → Prop} {db : DB}
    (h : State.ReachableIf env (Sys.Both C) db) (k : NodeKey) : SuccessLast db k := by
  refine h.induction (I := fun db => SuccessLast db k)
    (fun _ => ⟨fun _ _ hget => (nomatch hget), fun _ _ _ _ hget => (nomatch hget)⟩) ?_
  intro db db' hreach hi hs
  cases hs with
  | tick _ d => exact ⟨hi.released, hi.last⟩
  | commit amb op a hrun hmeets =>
      exact hi.change hreach.reachable (reachable_nodesShaped hreach) hmeets.1
        (Op.run_commit hrun).change

-- ============================================================================
-- Ambiguous effects
-- ============================================================================

/-- What the store guarantees for nodes whose effect does not cooperate, whoever calls it: after
    an attempt timed out or was canceled nothing more is done for the node, and a further
    attempt is preceded by recorded results only. -/
structure EffectsGuarded (env : Env) (db : DB) : Prop where
  lost : ∀ k a, db.attempts.get k = some a →
    db.effectClassOf k.node = some .nonCooperating → a.state = .timedOut ∨ a.state = .canceled →
    ∀ db', Relation.ReflTransGen (State.Step env) db db' → NotRepeated env db db' k
  earlier : ∀ k m m' a a', db.effectClassOf k = some .nonCooperating →
    db.attempts.get ⟨k, m⟩ = some a → db.attempts.get ⟨k, m'⟩ = some a' → m < m' →
    a.result.isSome = true ∧ (a.state = .succeeded ∨ a.state = .failedRetryable)

/-- Every attempt of such a node before another one has a recorded failure to be retried. -/
def OnlyRetried (db : DB) : Prop :=
  ∀ k m m' a a', db.effectClassOf k = some .nonCooperating →
    db.attempts.get ⟨k, m⟩ = some a → db.attempts.get ⟨k, m'⟩ = some a' → m < m' →
    a.result.isSome = true ∧ a.state = .failedRetryable

theorem effectsGuarded {env : Env} {db : DB} (h : Reachable env db) : EffectsGuarded env db where
  lost k a ha hclass hs db' hrun := by
    have hcls : a.effectClass = .nonCooperating :=
      Option.some.inj ((h.effectClass ha).symm.trans hclass)
    exact h.notRepeated hrun ha (hs.symm.imp id (fun ht => ⟨ht, hcls⟩))
  earlier k m m' a a' hclass ha ha' hlt := by
    have hcls : a.effectClass = .nonCooperating :=
      Option.some.inj ((h.effectClass ha).symm.trans hclass)
    have hreported := (h.reportedAt k).earlier m m' a a' ha ha' hlt hcls
    exact ⟨(h.attemptShape ha).result.trans hreported.isTerminal, hreported⟩

/-- An effect that may have happened is not repeated: not by any sequence of store operations,
    and in runs of the system a further attempt only follows failures to be retried. -/
theorem ambiguous_effect_not_repeated {env : Env} {db : DB} (h : Reachable env db) :
    EffectsGuarded env db ∧ ∀ s, Sys.Reachable env s → s.db = db → OnlyRetried db := by
  refine ⟨effectsGuarded h, fun s hs heq k m m' a a' hclass ha ha' hlt => ?_⟩
  obtain ⟨hresult, hstate⟩ := (effectsGuarded h).earlier k m m' a a' hclass ha ha' hlt
  refine ⟨hresult, hstate.resolve_left ?_⟩
  subst heq
  exact (reachable_successLast (Sys.ReachableIf.store hs) k).last m m' a a' ha ha' hlt

/-- The solo definition with an effect that does not cooperate. -/
def effectDefinition : DefinitionInput := { soloDefinition with
  effectClasses := .json (.obj [("a", .str "NON_COOPERATING_EFFECT")]) }

/-- The effect is dispatched and claimed. -/
def effectScript : List Action := .call (.createDefinition effectDefinition) ::
  (soloScript.drop 1).take 3 ++ ([
  .call (.createAttempt ⟨soloLease, "w", "a", 0, 2, .nonCooperating, "", "", 0, "scheduler"⟩),
  .call (.claimAttempt ⟨1, "w", "a", 0, "worker", "request", 0⟩)] : List Action)

/-- The deadline of the claimed effect passes and the attempt times out. -/
theorem ambiguous_effect_timed_out :
    ∃ db a, Reachable .plain db ∧ db.attempts.get ⟨⟨"w", "a", 0⟩, 1⟩ = some a ∧
      a.state = .timedOut ∧ a.claimToken.isSome = true ∧
      ∀ db', Relation.ReflTransGen (State.Step .plain) db db' →
        NotRepeated .plain db db' ⟨⟨"w", "a", 0⟩, 1⟩ := by
  have hrun : (runScript? .plain 0 (effectScript ++ ([.tick 60000000000,
      .call (.acquireLease 0 (uuidOf 8 0) 1000),
      .call (.timeoutAttempt ⟨⟨0, uuidOf 8 0, 2⟩, "w", "a", 0, 1, 3, "scheduler", 0⟩)] : List Action))
      (DB.init 0)).any (fun db => db.effectClassOf ⟨"w", "a", 0⟩ = some .nonCooperating &&
        (db.attempts.get ⟨⟨"w", "a", 0⟩, 1⟩).any (fun a => a.state = .timedOut &&
          a.claimToken.isSome)) = true := by
    decide +kernel
  obtain ⟨db, hdb, hcheck⟩ := (Option.any_eq_true _ _).mp hrun
  simp only [Bool.and_eq_true, decide_eq_true_eq, Option.any_eq_true] at hcheck
  obtain ⟨hclass, a, ha, hstate, htoken⟩ := hcheck
  have hreach := reachable_of_runScript? hdb
  exact ⟨db, a, hreach, ha, hstate, htoken,
    (ambiguous_effect_not_repeated hreach).1.lost _ a ha hclass (.inl hstate)⟩

/-- An owner transition takes the node back after its success, and it gets a second attempt. -/
theorem succeeded_effect_repeated :
    ∃ db a a', Reachable .plain db ∧ db.effectClassOf ⟨"w", "a", 0⟩ = some .nonCooperating ∧
      db.attempts.get ⟨⟨"w", "a", 0⟩, 1⟩ = some a ∧ a.state = .succeeded ∧
      db.attempts.get ⟨⟨"w", "a", 0⟩, 2⟩ = some a' := by
  have hrun : (runScript? .plain 0 (effectScript ++ ([
      .call (.recordResultReceipt ⟨"w", "a", 0, 1, uuidOf 3 5, .succeeded, .json (.obj []), "", ""⟩),
      .call (.consumeResult ⟨soloLease, "w", "a", 0, 1, 4, .runnable, none, "scheduler"⟩),
      .call (.applyOwnerTransition ⟨soloLease, "w", 5, .waitingActivity, "scheduler",
        "ACTIVITY_SCHEDULED", "a", 0, some .waitingActivity, none⟩),
      .call (.createAttempt ⟨soloLease, "w", "a", 0, 6, .nonCooperating, "", "", 0, "scheduler"⟩)] : List Action))
      (DB.init 0)).any (fun db => db.effectClassOf ⟨"w", "a", 0⟩ = some .nonCooperating &&
        (db.attempts.get ⟨⟨"w", "a", 0⟩, 1⟩).any (fun a => a.state = .succeeded) &&
        (db.attempts.get ⟨⟨"w", "a", 0⟩, 2⟩).isSome) = true := by
    decide +kernel
  obtain ⟨db, hdb, hcheck⟩ := (Option.any_eq_true _ _).mp hrun
  simp only [Bool.and_eq_true, decide_eq_true_eq, Option.any_eq_true] at hcheck
  obtain ⟨⟨hclass, a, ha, hstate⟩, hsecond⟩ := hcheck
  obtain ⟨a', ha'⟩ := Option.isSome_iff_exists.mp hsecond
  exact ⟨db, a, a', reachable_of_runScript? hdb, hclass, ha, hstate, ha'⟩

end DurableEngine.Engine
