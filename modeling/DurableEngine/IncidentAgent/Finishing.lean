/-
  DurableEngine.IncidentAgent.Finishing

  Which crashes of an approval can be repaired.

  `approve` and `resume` go on from `WAITING_APPROVAL` only.  A crash before the
  run is dispatched is repaired by another approval; one between the dispatch
  and `COMPLETED` leaves a state that both of them pass over.
-/

import DurableEngine.IncidentAgent.Restraint
import Mathlib

namespace DurableEngine.IncidentAgent

open Lib Lib.Durable

variable {py : Python} {w : InvestigationWorkflow} {s t u v : Store} {i j k : Incident} {e : Event} {p : Proposal}
  {n : Nat}

-- ============================================================================
-- The property
-- ============================================================================

/-- A call of `approve` or `resume`. -/
def Request.Continues : Request → Prop
  | .approve _ | .resume _ => True
  | _ => False

/-- A whole call of `approve` or `resume`. -/
def Continues (w : InvestigationWorkflow) (s t : Store) : Prop :=
  ∃ r : Request, r.Continues ∧ t = lastOf s (r.states w s)

/-- The run is completed with one effect, and its row has the effect's receipt. -/
def Store.Done (s : Store) : Prop :=
  ∃ i e, s.incident = some i ∧ i.state = .completed ∧ s.effects = [e] ∧ i.receipt = some e.receipt

/-- Some calls of `approve` and `resume` complete the run. -/
def Finishable (w : InvestigationWorkflow) (s : Store) : Prop :=
  ∃ t, Relation.ReflTransGen (Continues w) s t ∧ t.Done

/-- `resume` writes nothing although the run is approved, and the proposal's effect is not there or its
    receipt is not in the row. -/
def Stranded (w : InvestigationWorkflow) (s : Store) : Prop :=
  s.approval = some .approved ∧ (∀ inv, (resume w inv s).states = []) ∧
    ∀ i p, s.incident = some i → i.proposal = some p →
      s.effectOf (Store.effectKey s.runID p.canonicalArgumentHash) = none ∨ i.receipt = none

-- ============================================================================
-- Grants
-- ============================================================================

/-- The texts of a grant were stored as SQLite takes them, and its hashes are one. -/
def GrantStored (s : Store) : Prop :=
  ∀ g, s.grant = some g → g.resourceID.encodable = true ∧ g.argumentHash = g.proposalHash

theorem GrantStored.frame (h : GrantStored s) (hframe : Frame s t) : GrantStored t :=
  fun g hg => h g (hframe.grant ▸ hg)

theorem GrantStored.applied {key : String} {r : Receipt} (h : GrantStored s) : GrantStored (s.applied key p r) := by
  intro g hg
  obtain ⟨g', hg', rfl⟩ := Option.map_eq_some_iff.mp hg
  obtain ⟨hencodable, hhash⟩ := h g' hg'
  split
  · exact ⟨hencodable, hhash⟩
  · exact ⟨hencodable, hhash⟩

theorem GrantStored.dispatching (h : GrantStored s) :
    ∀ u ∈ s.dispatching py i p, GrantStored u := by
  intro u hu
  unfold Store.dispatching at hu
  rcases List.mem_cons.mp hu with rfl | hu
  · exact h
  rcases List.mem_cons.mp hu with rfl | hu
  · exact h
  have hsent : GrantStored (s.sent i p) := h
  split at hu
  · exact nomatch hu
  · exact hsent.frame (frame_finishing rfl u hu)
  · rcases List.mem_cons.mp hu with rfl | hu
    · exact hsent.applied
    · exact hsent.applied.frame (frame_finishing rfl u hu)

theorem GrantStored.approving {actor : String} (h : GrantStored s) :
    ∀ u ∈ s.approving py i p actor, GrantStored u := by
  intro u hu
  unfold Store.approving at hu
  rcases List.mem_cons.mp hu with rfl | hu
  · exact h
  rcases List.mem_cons.mp hu with rfl | hu
  · exact h
  split at hu
  · rename_i hencodable
    have hgranted : GrantStored ((s.noted i actor).granted i.noted p) := by
      intro g hg
      obtain rfl := Option.some.inj hg
      exact ⟨hencodable, rfl⟩
    rcases List.mem_cons.mp hu with rfl | hu
    · exact hgranted
    · exact hgranted.dispatching u hu
  · exact nomatch hu

theorem GrantStored.step {events : List (Store × Store)} (h : GrantStored s) (hstep : w.Step s events t) :
    GrantStored t := by
  cases hstep with
  | call r n =>
      cases r with
      | start caseID => exact h.frame (frame_take frame_start n)
      | investigate inv => exact h.frame (frame_investigate n)
      | reject actor => exact h.frame (frame_take frame_reject n)
      | resume inv =>
          show GrantStored (lastOf s ((resume w inv s).states.take n))
          rcases resume_cases w inv s with ⟨i, -, -, hstates⟩ | ⟨i, p, -, -, -, -, hstates⟩ | hstates
          · rw [hstates]
            exact h.frame (frame_investigate n)
          · rw [hstates]
            exact lastOf_of_forall h (fun u hu => h.dispatching u (List.mem_of_mem_take hu))
          · rw [hstates, List.take_nil]
            exact h
      | approve actor =>
          show GrantStored (lastOf s ((approve w actor s).states.take n))
          rcases approve_cases w actor s with ⟨i, p, -, -, -, hstates⟩ | ⟨i, hi, -, -, hstates⟩ | hstates
          · rw [hstates]
            exact lastOf_of_forall h (fun u hu => h.approving u (List.mem_of_mem_take hu))
          · rw [hstates]
            apply lastOf_of_forall h
            intro u hu
            rcases List.mem_cons.mp (List.mem_of_mem_take hu) with rfl | hu
            · exact h
            · rw [List.mem_singleton.mp hu]
              exact h
          · rw [hstates, List.take_nil]
            exact h

theorem grantStored_run {runID : String} {trace : List (Store × Store)}
    (h : Lib.Trace w.Step (Store.empty runID) trace s) : GrantStored s :=
  h.keeps (fun _ hg => (nomatch hg)) (fun _ _ _ hs hstep => hs.step hstep)

-- ============================================================================
-- Dispatches
-- ============================================================================

/-- The only effect of the run is that of `p`, or there is none. -/
def OnlyEffect (s : Store) (p : Proposal) : Prop :=
  s.effects = [] ∨ ∃ e, s.effects = [e] ∧ e.effectKey = Store.effectKey s.runID p.canonicalArgumentHash

/-- The proposal can be approved to the end: SQLite stores its resource, it still has its own hash, and
    no other effect stands beside it. -/
structure Approvable (py : Python) (s : Store) (p : Proposal) : Prop where
  encodable : p.targetResourceID.encodable = true
  hash : canonicalProposalHash py p = some p.canonicalArgumentHash
  only : OnlyEffect s p

/-- How many commits a dispatch makes before the run is completed, given the receipt of an earlier effect. -/
def commitsToComplete : Option Receipt → Nat
  | none => 6
  | some _ => 5

/-- The run is dispatched and not completed. -/
def Store.Stuck (s : Store) : Prop := ∃ i, s.incident = some i ∧ (i.state = .dispatched ∨ i.state = .verifying)

theorem finishing_take (t : Store) (k : Incident) (r : Receipt) (n : Nat) :
    (lastOf t ((t.finishing k r).take n)).effects = t.effects ∧
      (lastOf t ((t.finishing k r).take n)).runID = t.runID ∧
      (n = 0 ∨
        (n = 1 ∨ n = 2) ∧ (lastOf t ((t.finishing k r).take n)).Stuck ∨
        3 ≤ n ∧ ∃ l, (lastOf t ((t.finishing k r).take n)).incident = some l ∧ l.state = .completed ∧
          l.receipt = some r ∧ l.proposal = k.proposal) := by
  rcases n with _ | _ | _ | _ | n
  · exact ⟨rfl, rfl, Or.inl rfl⟩
  · exact ⟨rfl, rfl, Or.inr (Or.inl ⟨Or.inl rfl, _, rfl, Or.inr rfl⟩)⟩
  · exact ⟨rfl, rfl, Or.inr (Or.inl ⟨Or.inr rfl, _, rfl, Or.inr rfl⟩)⟩
  · exact ⟨rfl, rfl, Or.inr (Or.inr ⟨by omega, _, rfl, rfl, rfl, rfl⟩)⟩
  · refine ⟨?_, ?_, Or.inr (Or.inr ⟨by omega, ?_⟩)⟩
    · simp [Store.finishing]
      rfl
    · simp [Store.finishing]
      rfl
    · refine ⟨{ k.checked r with state := .completed, revision := k.revision + 2 }, ?_, rfl, rfl, rfl⟩
      simp [Store.finishing]
      rfl

/-- What a passed check says of a stored grant's proposal. -/
theorem hash_of_checkEffect {r : Option Receipt} (h : GrantStored s) (hcheck : checkEffect py s i p = .ok r) :
    p.targetResourceID.encodable = true ∧ canonicalProposalHash py p = some p.canonicalArgumentHash ∧
      r = s.effectOf (Store.effectKey s.runID p.canonicalArgumentHash) := by
  obtain ⟨g, hg, -, hproposal, hresource, hhash, hr, -⟩ := checkEffect_ok hcheck
  obtain ⟨hencodable, hsame⟩ := h g hg
  exact ⟨hresource ▸ hencodable, by rw [hhash, hsame, hproposal], hr⟩

theorem effectOf_eq_some {key : String} {r : Receipt} (h : s.effectOf key = some r) :
    ∃ e ∈ s.effects, e.effectKey = key ∧ e.receipt = r := by
  obtain ⟨e, he, hr⟩ := Option.map_eq_some_iff.mp h
  have hkey := List.find?_some he
  exact ⟨e, List.mem_of_find?_eq_some he, of_decide_eq_true hkey, hr⟩

theorem OnlyEffect.receipt {r : Receipt} (h : OnlyEffect s p)
    (heffect : s.effectOf (Store.effectKey s.runID p.canonicalArgumentHash) = some r) :
    ∃ e, s.effects = [e] ∧ e.receipt = r := by
  obtain ⟨e, he, -, hr⟩ := effectOf_eq_some heffect
  rcases h with hnone | ⟨e', hone, -⟩
  · rw [hnone] at he
    exact nomatch he
  · rw [hone, List.mem_singleton] at he
    exact ⟨e', hone, he ▸ hr⟩

theorem OnlyEffect.nil (h : OnlyEffect s p)
    (heffect : s.effectOf (Store.effectKey s.runID p.canonicalArgumentHash) = none) : s.effects = [] := by
  rcases h with hnone | ⟨e, hone, hkey⟩
  · exact hnone
  · exact absurd hkey (Store.effectOf_eq_none.mp heffect e (hone ▸ List.mem_singleton_self e))

/-- The row holds the proposal and a receipt, and the proposal's effect is there. -/
def Store.Recorded (s : Store) (p : Proposal) : Prop :=
  s.effectOf (Store.effectKey s.runID p.canonicalArgumentHash) ≠ none ∧
    ∃ i, s.incident = some i ∧ i.proposal = some p ∧ i.receipt ≠ none

/-- A dispatch cut off after `n` commits: nothing has happened, the run is stuck, or it is completed. -/
theorem dispatching_stage (py : Python) (s : Store) (i : Incident) (p : Proposal) (n : Nat) :
    n = 0 ∨
    ((lastOf s ((s.dispatching py i p).take n)).Stuck ∧ 1 ≤ n ∧
      ∀ r, checkEffect py (s.sent i p) i.sent p = .ok r → n < commitsToComplete r) ∨
    ∃ r, checkEffect py (s.sent i p) i.sent p = .ok r ∧ commitsToComplete r ≤ n ∧
      (∃ l, (lastOf s ((s.dispatching py i p).take n)).incident = some l ∧ l.state = .completed) ∧
        (i.proposal = some p → (lastOf s ((s.dispatching py i p).take n)).Recorded p) ∧
        ((lastOf s ((s.dispatching py i p).take n)).Done ↔ OnlyEffect s p) := by
  have hpositive : ∀ r : Option Receipt, 2 < commitsToComplete r := by
    intro r
    cases r with
    | none => exact (show 2 < 6 by omega)
    | some r => exact (show 2 < 5 by omega)
  rcases n with _ | _ | n
  · exact Or.inl rfl
  · exact Or.inr (Or.inl ⟨⟨_, rfl, Or.inl rfl⟩, Nat.le_refl _, fun r _ => Nat.lt_trans (by omega) (hpositive r)⟩)
  · right
    unfold Store.dispatching
    rw [List.take_succ_cons, List.take_succ_cons, lastOf_cons, lastOf_cons]
    have hsent : (s.sent i p).Stuck := ⟨_, rfl, Or.inl rfl⟩
    cases hcheck : checkEffect py (s.sent i p) i.sent p with
    | error e =>
        rw [List.take_nil]
        exact Or.inl ⟨hsent, by omega, fun r hr => (nomatch hr)⟩
    | ok r =>
        obtain ⟨-, -, -, -, -, -, hr, -⟩ := checkEffect_ok hcheck
        cases r with
        | some r =>
            obtain ⟨heffects, hrun, hzero | ⟨hlow, hstuck⟩ | ⟨hlong, l, hl, hdone, hreceipt, hproposal⟩⟩ :=
              finishing_take (s.sent i p) i.sent r n
            · subst hzero
              refine Or.inl ⟨hsent, by omega, fun r' hr' => ?_⟩
              cases hr'
              exact hpositive (some r)
            · refine Or.inl ⟨hstuck, by omega, fun r' hr' => ?_⟩
              cases hr'
              show n + 2 < 5
              omega
            · refine Or.inr ⟨some r, rfl, ?_, ⟨l, hl, hdone⟩, fun hp => ⟨?_, l, hl, ?_, ?_⟩, ?_⟩
              · show 5 ≤ n + 2
                omega
              · unfold Store.effectOf
                rw [heffects, hrun]
                show s.effectOf (Store.effectKey s.runID p.canonicalArgumentHash) ≠ none
                intro hnone
                have hsome : some r = s.effectOf (Store.effectKey s.runID p.canonicalArgumentHash) := hr
                rw [hnone] at hsome
                exact nomatch hsome
              · exact hproposal.trans hp
              · rw [hreceipt]
                nofun
              · obtain ⟨e, he, hkey, hsame⟩ := effectOf_eq_some hr.symm
                constructor
                · rintro ⟨l', e', -, -, hone, -⟩
                  rw [heffects] at hone
                  have hone' : s.effects = [e'] := hone
                  have hmem : e ∈ s.effects := he
                  rw [hone', List.mem_singleton] at hmem
                  exact Or.inr ⟨e', hone', hmem ▸ hkey⟩
                · intro honly
                  obtain ⟨e', hone, hsame'⟩ := OnlyEffect.receipt honly hr.symm
                  exact ⟨l, e', hl, hdone, heffects.trans hone, by rw [hreceipt, hsame']⟩
        | none =>
            rcases n with _ | n
            · refine Or.inl ⟨hsent, by omega, fun r' hr' => ?_⟩
              cases hr'
              exact hpositive none
            · let a := (s.sent i p).applied (Store.effectKey s.runID p.canonicalArgumentHash) p p.receipt
              have hfresh : ∀ e ∈ s.effects, e.effectKey ≠ Store.effectKey s.runID p.canonicalArgumentHash :=
                Store.effectOf_eq_none.mp hr.symm
              have happlied : a.effects = s.effects ++ [⟨Store.effectKey s.runID p.canonicalArgumentHash,
                  p.targetResourceID, p.canonicalArgumentHash, p.receipt⟩] := by
                show (if s.effects.any _ = true then s.effects else s.effects ++ _) = _
                rw [if_neg]
                rw [List.any_eq_true]
                rintro ⟨e, he, hkey⟩
                exact hfresh e he (of_decide_eq_true hkey)
              dsimp only
              rw [List.take_succ_cons, lastOf_cons]
              obtain ⟨heffects, hrun, hzero | ⟨hlow, hstuck⟩ | ⟨hlong, l, hl, hdone, hreceipt, hproposal⟩⟩ :=
                finishing_take a i.sent p.receipt n
              · subst hzero
                refine Or.inl ⟨⟨_, rfl, Or.inl rfl⟩, by omega, fun r' hr' => ?_⟩
                cases hr'
                exact (show 3 < 6 by omega)
              · refine Or.inl ⟨hstuck, by omega, fun r' hr' => ?_⟩
                cases hr'
                show n + 1 + 2 < 6
                omega
              · refine Or.inr ⟨none, rfl, ?_, ⟨l, hl, hdone⟩, fun hp => ⟨?_, l, hl, ?_, ?_⟩, ?_⟩
                · show 6 ≤ n + 1 + 2
                  omega
                · intro hnone
                  have hall := Store.effectOf_eq_none.mp hnone
                  rw [heffects, hrun, happlied] at hall
                  exact hall _ (List.mem_append_right _ (List.mem_singleton_self _)) rfl
                · exact hproposal.trans hp
                · rw [hreceipt]
                  nofun
                · constructor
                  · rintro ⟨l', e', -, -, hone, -⟩
                    rw [heffects, happlied] at hone
                    left
                    have hlength := congrArg List.length hone
                    rw [List.length_append, List.length_singleton, List.length_singleton] at hlength
                    exact List.length_eq_zero_iff.mp (by omega)
                  · intro honly
                    have hnone := honly.nil hr.symm
                    refine ⟨l, ⟨Store.effectKey s.runID p.canonicalArgumentHash, p.targetResourceID,
                      p.canonicalArgumentHash, p.receipt⟩, hl, hdone, heffects.trans (happlied.trans ?_), hreceipt⟩
                    rw [hnone, List.nil_append]

theorem dispatching_length : (s.dispatching py i p).length ≤ 7 := by
  unfold Store.dispatching
  split <;> simp [Store.finishing]

/-- A whole dispatch. -/
theorem lastOf_dispatching :
    lastOf s (s.dispatching py i p) = lastOf s ((s.dispatching py i p).take 7) := by
  rw [List.take_of_length_le dispatching_length]

-- ============================================================================
-- Whole calls
-- ============================================================================

/-- Neither `approve` nor `resume` writes anything to a run that is dispatched or completed. -/
theorem continues_ended (hi : s.incident = some i)
    (hstate : i.state ≠ .waitingApproval ∧ i.state ≠ .interrupted) (h : Continues w s t) : t = s := by
  obtain ⟨r, hr, rfl⟩ := h
  cases r with
  | start caseID => exact hr.elim
  | investigate inv => exact hr.elim
  | reject actor => exact hr.elim
  | approve actor =>
      have hstates : (approve w actor s).states = [] := by
        apply approve_other
        intro j hj
        obtain rfl : i = j := by simpa [hi] using hj
        exact hstate.1
      show lastOf s (approve w actor s).states = s
      rw [hstates, lastOf_nil]
  | resume inv =>
      show lastOf s (resume w inv s).states = s
      rcases resume_cases w inv s with ⟨j, hj, hinterrupted, -⟩ | ⟨j, p, hj, hwaiting, -⟩ | hstates
      · obtain rfl : i = j := by simpa [hi] using hj
        exact absurd hinterrupted hstate.2
      · obtain rfl : i = j := by simpa [hi] using hj
        exact absurd hwaiting hstate.1
      · rw [hstates, lastOf_nil]

theorem Store.Stuck.state (h : s.Stuck) :
    ∃ i, s.incident = some i ∧ (i.state ≠ .waitingApproval ∧ i.state ≠ .interrupted) ∧ i.state ≠ .completed := by
  obtain ⟨i, hi, hstate⟩ := h
  rcases hstate with hstate | hstate <;> exact ⟨i, hi, by rw [hstate]; exact ⟨nofun, nofun⟩, by rw [hstate]; nofun⟩

/-- A run that waits for its approval as `s` does. -/
structure Waits (s : Store) (q : Option Proposal) (u : Store) : Prop where
  runID : u.runID = s.runID
  effects : u.effects = s.effects
  grant : GrantStored u
  incident : ∃ k, u.incident = some k ∧ k.state = .waitingApproval ∧ k.proposal = q

/-- What calls of `approve` and `resume` make of a run that waits: it goes on waiting, gets stuck, or is
    completed, with one effect only if its proposal could be approved to the end. -/
inductive Onward (py : Python) (s : Store) (q : Option Proposal) (u : Store) : Prop where
  | waits (h : Waits s q u)
  | stuck (h : u.Stuck)
  | completed (h : ∃ l, u.incident = some l ∧ l.state = .completed)
      (approvable : u.Done → ∃ p, q = some p ∧ Approvable py s p)

theorem OnlyEffect.congr (hrun : t.runID = s.runID) (heffects : t.effects = s.effects) :
    OnlyEffect t p ↔ OnlyEffect s p := by
  unfold OnlyEffect
  rw [hrun, heffects]

theorem Approvable.congr (hrun : t.runID = s.runID) (heffects : t.effects = s.effects) :
    Approvable py t p ↔ Approvable py s p :=
  ⟨fun h => ⟨h.encodable, h.hash, (OnlyEffect.congr hrun heffects).mp h.only⟩,
    fun h => ⟨h.encodable, h.hash, (OnlyEffect.congr hrun heffects).mpr h.only⟩⟩

theorem onward_dispatching {q : Option Proposal} (h : Waits s q u) (hp : q = some p) :
    Onward py s q (lastOf u (u.dispatching py k p)) := by
  rw [lastOf_dispatching]
  rcases dispatching_stage py u k p 7 with
    hzero | ⟨hstuck, -⟩ | ⟨r, hcheck, -, hcompleted, -, hdone⟩
  · omega
  · exact .stuck hstuck
  · refine .completed hcompleted (fun hd => ⟨p, hp, ?_⟩)
    have hsent : GrantStored (u.sent k p) := h.grant
    obtain ⟨hencodable, hhash, -⟩ := hash_of_checkEffect hsent hcheck
    exact ⟨hencodable, hhash, (OnlyEffect.congr h.runID h.effects).mp (hdone.mp hd)⟩

theorem Waits.noted {q : Option Proposal} (h : Waits s q u) (hk : u.incident = some k) (actor : String) :
    Waits s q (u.noted k actor) := by
  obtain ⟨k', hk', hstate, hproposal⟩ := h.incident
  obtain rfl : k = k' := by simpa [hk] using hk'
  exact ⟨h.runID, h.effects, h.grant, k.noted, rfl, hstate, hproposal⟩

theorem Waits.granted {q : Option Proposal} (h : Waits s q u) (hk : u.incident = some k)
    (hencodable : p.targetResourceID.encodable = true) (actor : String) :
    Waits s q ((u.noted k actor).granted k.noted p) := by
  obtain ⟨k', hk', hstate, hproposal⟩ := (h.noted hk actor).incident
  refine ⟨h.runID, h.effects, fun g hg => ?_, k', hk', hstate, hproposal⟩
  obtain rfl := Option.some.inj hg
  exact ⟨hencodable, rfl⟩

theorem Onward.step {q : Option Proposal} (h : Onward py s q u) (hpy : w.py = py) (hstep : Continues w u v) :
    Onward py s q v := by
  cases h with
  | stuck hstuck =>
      obtain ⟨i, hi, hstate, -⟩ := hstuck.state
      rw [continues_ended hi hstate hstep]
      exact .stuck hstuck
  | completed hcompleted happrovable =>
      obtain ⟨l, hl, hstate⟩ := hcompleted
      rw [continues_ended hl (by rw [hstate]; exact ⟨nofun, nofun⟩) hstep]
      exact .completed ⟨l, hl, hstate⟩ happrovable
  | waits h =>
      obtain ⟨k, hk, hstate, hproposal⟩ := h.incident
      obtain ⟨r, hr, rfl⟩ := hstep
      subst hpy
      cases r with
      | start caseID => exact hr.elim
      | investigate inv => exact hr.elim
      | reject actor => exact hr.elim
      | resume inv =>
          show Onward w.py s q (lastOf u (resume w inv u).states)
          rcases resume_cases w inv u with ⟨j, hj, hinterrupted, -⟩ | ⟨j, p, hj, -, -, hp, hstates⟩ | hstates
          · obtain rfl : k = j := by simpa [hk] using hj
            rw [hstate] at hinterrupted
            exact nomatch hinterrupted
          · obtain rfl : k = j := by simpa [hk] using hj
            rw [hstates]
            exact onward_dispatching h (hproposal.symm.trans hp)
          · rw [hstates, lastOf_nil]
            exact .waits h
      | approve actor =>
          show Onward w.py s q (lastOf u (approve w actor u).states)
          rcases approve_cases w actor u with ⟨j, p, hj, -, hp, hstates⟩ | ⟨j, hj, -, -, hstates⟩ | hstates
          · obtain rfl : k = j := by simpa [hk] using hj
            rw [hstates, Store.approving, lastOf_cons, lastOf_cons]
            split
            · rename_i hencodable
              rw [lastOf_cons]
              exact onward_dispatching (h.granted hk hencodable actor) (hproposal.symm.trans hp)
            · rw [lastOf_nil]
              exact .waits (h.noted hk actor)
          · obtain rfl : k = j := by simpa [hk] using hj
            rw [hstates, lastOf_cons, lastOf_cons, lastOf_nil]
            exact .waits (h.noted hk actor)
          · rw [hstates, lastOf_nil]
            exact .waits h

theorem Onward.calls {q : Option Proposal} (h : Onward w.py s q u) (hpath : Relation.ReflTransGen (Continues w) u v) :
    Onward w.py s q v := by
  induction hpath with
  | refl => exact h
  | tail _ hstep ih => exact ih.step rfl hstep

theorem resume_waiting {inv : Investigation} (hi : s.incident = some i) (hstate : i.state = .waitingApproval)
    (happroval : s.approval = some .approved) (hp : i.proposal = some p) :
    (resume w inv s).states = s.dispatching w.py i p := by
  rw [resume, run_row_bind hi, if_neg (by rw [hstate]; decide), dispatch_run hi hstate happroval hp]

/-- An approval of a run that waits with a proposal that can be approved to the end completes it. -/
theorem done_of_approvable (hk : u.incident = some k) (hstate : k.state = .waitingApproval)
    (hp : k.proposal = some p) (h : Approvable w.py u p) (actor : String) :
    (lastOf u (approve w actor u).states).Done := by
  rw [approve_run hk hstate hp, Store.approving, if_pos h.encodable, lastOf_cons, lastOf_cons, lastOf_cons,
    lastOf_dispatching]
  have hcheck : checkEffect w.py (((u.noted k actor).granted k.noted p).sent k.noted p) k.noted.sent p =
      .ok (u.effectOf (Store.effectKey u.runID p.canonicalArgumentHash)) :=
    checkEffect_granted (s := u) actor h.hash
  rcases dispatching_stage w.py ((u.noted k actor).granted k.noted p) k.noted p 7 with
    hzero | ⟨-, -, hlong⟩ | ⟨r, -, -, -, -, hdone⟩
  · omega
  · have hseven := hlong _ hcheck
    cases h' : u.effectOf (Store.effectKey u.runID p.canonicalArgumentHash) with
    | none =>
        rw [h'] at hseven
        exact absurd hseven (show ¬ 7 < 6 by omega)
    | some receipt =>
        rw [h'] at hseven
        exact absurd hseven (show ¬ 7 < 5 by omega)
  · apply hdone.mpr
    exact (OnlyEffect.congr (s := u) rfl rfl).mpr h.only

/-- A run that waits can be finished exactly when its proposal can be approved to the end. -/
theorem finishable_waiting {q : Option Proposal} (h : Waits s q u) :
    Finishable w u ∧ ¬ Stranded w u ↔ ∃ p, q = some p ∧ Approvable w.py s p := by
  obtain ⟨k, hk, hstate, hproposal⟩ := h.incident
  constructor
  · rintro ⟨⟨t, hpath, hdone⟩, -⟩
    obtain ⟨l, e, hl, hcompleted, -⟩ := id hdone
    cases (Onward.waits h : Onward w.py s q u).calls hpath with
    | waits ht =>
        obtain ⟨l', hl', hwaiting, -⟩ := ht.incident
        obtain rfl : l = l' := by simpa [hl] using hl'
        rw [hcompleted] at hwaiting
        exact nomatch hwaiting
    | stuck ht =>
        obtain ⟨l', hl', -, hnot⟩ := ht.state
        obtain rfl : l = l' := by simpa [hl] using hl'
        exact absurd hcompleted hnot
    | completed _ happrovable => exact happrovable hdone
  · rintro ⟨p, hq, happrovable⟩
    have hp : k.proposal = some p := hproposal.trans hq
    constructor
    · refine ⟨_, Relation.ReflTransGen.single ⟨.approve "", trivial, rfl⟩, ?_⟩
      exact done_of_approvable hk hstate hp ((Approvable.congr h.runID h.effects).mpr happrovable) ""
    · rintro ⟨happroval, hnothing, -⟩
      have hstates := hnothing ⟨false, none, none, none, none, none⟩
      rw [resume_waiting hk hstate happroval hp] at hstates
      exact nomatch hstates

/-- A run that is stuck cannot be finished. -/
theorem not_finishable_of_stuck (h : u.Stuck) : ¬ Finishable w u := by
  rintro ⟨t, hpath, hdone⟩
  obtain ⟨l, e, hl, hcompleted, -⟩ := id hdone
  cases (Onward.stuck h : Onward w.py u none u).calls hpath with
  | waits ht =>
      obtain ⟨l', hl', hwaiting, -⟩ := ht.incident
      obtain rfl : l = l' := by simpa [hl] using hl'
      rw [hcompleted] at hwaiting
      exact nomatch hwaiting
  | stuck ht =>
      obtain ⟨l', hl', -, hnot⟩ := ht.state
      obtain rfl : l = l' := by simpa [hl] using hl'
      exact absurd hcompleted hnot
  | completed _ happrovable =>
      obtain ⟨p, hp, -⟩ := happrovable hdone
      exact nomatch hp

theorem not_stranded_of_recorded (hrecorded : u.Recorded p) : ¬ Stranded w u := by
  rintro ⟨-, -, hnone⟩
  obtain ⟨heffect, l, hl, hp, hreceipt⟩ := hrecorded
  rcases hnone l p hl hp with hnone | hnone
  · exact heffect hnone
  · exact hreceipt hnone

/-- A completed run needs no further call. -/
theorem finishable_completed (hcompleted : ∃ l, u.incident = some l ∧ l.state = .completed)
    (hrecorded : u.Recorded p) : Finishable w u ∧ ¬ Stranded w u ↔ u.Done := by
  constructor
  · rintro ⟨⟨t, hpath, hdone⟩, -⟩
    obtain ⟨l, hl, hstate⟩ := hcompleted
    have hsame : t = u := by
      clear hdone
      induction hpath with
      | refl => rfl
      | tail _ hstep ih =>
          subst ih
          exact continues_ended hl (by rw [hstate]; exact ⟨nofun, nofun⟩) hstep
    exact hsame ▸ hdone
  · exact fun hdone => ⟨⟨u, .refl, hdone⟩, not_stranded_of_recorded hrecorded⟩

-- ============================================================================
-- Crashes
-- ============================================================================

/-- A dispatch of a run that waits, cut off after `n` commits. -/
theorem finishable_dispatching (h : Waits s (some p) u) (hk : u.incident = some k) (n : Nat) :
    Finishable w (lastOf u ((u.dispatching w.py k p).take n)) ∧
        ¬ Stranded w (lastOf u ((u.dispatching w.py k p).take n)) ↔
      Approvable w.py s p ∧
        (n = 0 ∨ ∃ r, checkEffect w.py (u.sent k p) k.sent p = .ok r ∧ commitsToComplete r ≤ n) := by
  obtain ⟨k', hk', -, hp⟩ := h.incident
  obtain rfl : k = k' := by simpa [hk] using hk'
  rcases dispatching_stage w.py u k p n with
    rfl | ⟨hstuck, hn, hshort⟩ | ⟨r, hcheck, hlong, hcompleted, hrecorded, hdone⟩
  · rw [List.take_zero, lastOf_nil, finishable_waiting h]
    constructor
    · rintro ⟨p', hp', happrovable⟩
      cases hp'
      exact ⟨happrovable, Or.inl rfl⟩
    · exact fun happrovable => ⟨p, rfl, happrovable.1⟩
  · constructor
    · exact fun hfinish => absurd hfinish.1 (not_finishable_of_stuck hstuck)
    · rintro ⟨-, hzero | ⟨r, hcheck, hlong⟩⟩
      · omega
      · have := hshort r hcheck
        omega
  · rw [finishable_completed hcompleted (hrecorded hp), hdone, OnlyEffect.congr h.runID h.effects]
    have hsent : GrantStored (u.sent k p) := h.grant
    obtain ⟨hencodable, hhash, -⟩ := hash_of_checkEffect hsent hcheck
    exact ⟨fun honly => ⟨⟨hencodable, hhash, honly⟩, Or.inr ⟨r, hcheck, hlong⟩⟩, fun happrovable => happrovable.1.only⟩

/-- An approval that crashes after `n` commits can be finished exactly when its proposal can be approved
    to the end and the crash comes before the dispatch or after `COMPLETED`. -/
theorem approve_finishable (hgrant : GrantStored s) (hi : s.incident = some i) (hstate : i.state = .waitingApproval)
    (actor : String) (n : Nat) :
    Finishable w (lastOf s ((approve w actor s).states.take n)) ∧
        ¬ Stranded w (lastOf s ((approve w actor s).states.take n)) ↔
      ∃ p, i.proposal = some p ∧ Approvable w.py s p ∧ (n ≤ 3 ∨
        3 + commitsToComplete (s.effectOf (Store.effectKey s.runID p.canonicalArgumentHash)) ≤ n) := by
  have hwaits : Waits s i.proposal s := ⟨rfl, rfl, hgrant, i, hi, hstate, rfl⟩
  have happroved : Waits s i.proposal { s with approval := some .approved } := ⟨rfl, rfl, hgrant, i, hi, hstate, rfl⟩
  have hnoted := hwaits.noted hi actor
  cases hp : i.proposal with
  | none =>
      rw [hp] at hwaits happroved hnoted
      rw [approve_nothing hi hstate hp]
      have hnever : ∀ u, Waits s none u → ¬ (Finishable w u ∧ ¬ Stranded w u) := by
        intro u hu hfinish
        obtain ⟨p, hp, -⟩ := (finishable_waiting hu).mp hfinish
        exact nomatch hp
      have hlast : Waits s none
          (lastOf s ([{ s with approval := some .approved }, s.noted i actor].take n)) := by
        apply lastOf_of_forall hwaits
        intro u hu
        rcases List.mem_cons.mp (List.mem_of_mem_take hu) with rfl | hu
        · exact happroved
        · rw [List.mem_singleton.mp hu]
          exact hnoted
      constructor
      · exact fun hfinish => absurd hfinish (hnever _ hlast)
      · rintro ⟨p, hp, -⟩
        exact nomatch hp
  | some p =>
      rw [hp] at hwaits happroved hnoted
      rw [approve_run hi hstate hp]
      have hfirst : ∀ u, Waits s (some p) u → n ≤ 3 →
          (Finishable w u ∧ ¬ Stranded w u ↔
            ∃ p', some p = some p' ∧ Approvable w.py s p' ∧ (n ≤ 3 ∨
              3 + commitsToComplete (s.effectOf (Store.effectKey s.runID p'.canonicalArgumentHash)) ≤ n)) := by
        intro u hu hn
        rw [finishable_waiting hu]
        constructor
        · rintro ⟨p', hp', happrovable⟩
          exact ⟨p', hp', happrovable, Or.inl hn⟩
        · rintro ⟨p', hp', happrovable, -⟩
          exact ⟨p', hp', happrovable⟩
      rcases n with _ | _ | n
      · exact hfirst s hwaits (by omega)
      · exact hfirst _ happroved (by omega)
      · rw [Store.approving, List.take_succ_cons, List.take_succ_cons, lastOf_cons, lastOf_cons]
        by_cases hencodable : p.targetResourceID.encodable = true
        · rw [if_pos hencodable]
          have hgranted := hwaits.granted hi hencodable actor
          rcases n with _ | n
          · exact hfirst _ hnoted (by omega)
          · rw [List.take_succ_cons, lastOf_cons, finishable_dispatching (k := i.noted) hgranted rfl n]
            have hcheck : canonicalProposalHash w.py p = some p.canonicalArgumentHash →
                checkEffect w.py (((s.noted i actor).granted i.noted p).sent i.noted p) i.noted.sent p =
                  .ok (s.effectOf (Store.effectKey s.runID p.canonicalArgumentHash)) :=
              checkEffect_granted (s := s) actor
            constructor
            · rintro ⟨happrovable, hzero | ⟨r, hr, hlong⟩⟩
              · exact ⟨p, rfl, happrovable, Or.inl (by omega)⟩
              · rw [hcheck happrovable.hash] at hr
                cases hr
                exact ⟨p, rfl, happrovable, Or.inr (by omega)⟩
            · rintro ⟨p', hp', happrovable, hn⟩
              cases hp'
              refine ⟨happrovable, ?_⟩
              rcases hn with hn | hn
              · exact Or.inl (by omega)
              · exact Or.inr ⟨_, hcheck happrovable.hash, by omega⟩
        · rw [if_neg hencodable, List.take_nil, lastOf_nil, finishable_waiting hnoted]
          constructor
          · rintro ⟨p', hp', happrovable⟩
            cases hp'
            exact absurd happrovable.encodable hencodable
          · rintro ⟨p', hp', happrovable, -⟩
            cases hp'
            exact absurd happrovable.encodable hencodable

/-- A `resume` that crashes after `n` commits can be finished exactly when the proposal can be approved to
    the end, and nothing was written or the effect went through to `COMPLETED`. -/
theorem resume_finishable (hgrant : GrantStored s) (hi : s.incident = some i) (hstate : i.state = .waitingApproval)
    (inv : Investigation) (n : Nat) :
    Finishable w (lastOf s ((resume w inv s).states.take n)) ∧
        ¬ Stranded w (lastOf s ((resume w inv s).states.take n)) ↔
      ∃ p, i.proposal = some p ∧ Approvable w.py s p ∧ (s.approval ≠ some .approved ∨ n = 0 ∨
        ∃ r, checkEffect w.py s { i with revision := i.revision + 1 } p = .ok r ∧ commitsToComplete r ≤ n) := by
  have hwaits : Waits s i.proposal s := ⟨rfl, rfl, hgrant, i, hi, hstate, rfl⟩
  by_cases hdispatch : ∃ p, s.approval = some .approved ∧ i.proposal = some p
  · obtain ⟨p, happroval, hp⟩ := hdispatch
    rw [hp] at hwaits
    rw [resume_waiting hi hstate happroval hp, finishable_dispatching hwaits hi n]
    constructor
    · rintro ⟨happrovable, hn⟩
      exact ⟨p, hp, happrovable, Or.inr hn⟩
    · rintro ⟨p', hp', happrovable, hnot | hn⟩
      · exact absurd happroval hnot
      · obtain rfl := Option.some.inj (hp.symm.trans hp')
        exact ⟨happrovable, hn⟩
  · have hstates : (resume w inv s).states = [] := by
      rcases resume_cases w inv s with ⟨j, hj, hinterrupted, -⟩ | ⟨j, p, hj, -, happroval, hp, -⟩ | hstates
      · obtain rfl : i = j := by simpa [hi] using hj
        rw [hstate] at hinterrupted
        exact nomatch hinterrupted
      · obtain rfl : i = j := by simpa [hi] using hj
        exact absurd ⟨p, happroval, hp⟩ hdispatch
      · exact hstates
    rw [hstates, List.take_nil, lastOf_nil, finishable_waiting hwaits]
    constructor
    · rintro ⟨p, hp, happrovable⟩
      exact ⟨p, hp, happrovable, Or.inl (fun happroval => hdispatch ⟨p, happroval, hp⟩)⟩
    · rintro ⟨p, hp, happrovable, -⟩
      exact ⟨p, hp, happrovable⟩

/-- Which crashes of `approve` and `resume` leave a run that can be finished. -/
theorem crash_finishable_iff (w : InvestigationWorkflow) {runID : String} {trace : List (Store × Store)}
    (h : Lib.Trace w.Step (Store.empty runID) trace s) (hi : s.incident = some i)
    (hstate : i.state = .waitingApproval) (n : Nat) :
    (∀ actor, Finishable w (lastOf s ((approve w actor s).states.take n)) ∧
        ¬ Stranded w (lastOf s ((approve w actor s).states.take n)) ↔
      ∃ p, i.proposal = some p ∧ Approvable w.py s p ∧ (n ≤ 3 ∨
        3 + commitsToComplete (s.effectOf (Store.effectKey s.runID p.canonicalArgumentHash)) ≤ n)) ∧
    ∀ inv, Finishable w (lastOf s ((resume w inv s).states.take n)) ∧
        ¬ Stranded w (lastOf s ((resume w inv s).states.take n)) ↔
      ∃ p, i.proposal = some p ∧ Approvable w.py s p ∧ (s.approval ≠ some .approved ∨ n = 0 ∨
        ∃ r, checkEffect w.py s { i with revision := i.revision + 1 } p = .ok r ∧ commitsToComplete r ≤ n) :=
  ⟨fun actor => approve_finishable (grantStored_run h) hi hstate actor n,
    fun inv => resume_finishable (grantStored_run h) hi hstate inv n⟩

theorem restart_approvable : Approvable plainPython waitingStore restartProposal :=
  ⟨by decide, restart_hash, Or.inl rfl⟩

theorem crash_finishable_granted :
    Finishable plainWorkflow (lastOf waitingStore ((approve plainWorkflow "human" waitingStore).states.take 3)) := by
  obtain ⟨trace, hrun⟩ := waiting_run
  exact (((crash_finishable_iff plainWorkflow hrun waiting_incident rfl 3).1 "human").mpr
    ⟨restartProposal, waiting_proposal, restart_approvable, Or.inl (Nat.le_refl 3)⟩).1

/-- An approval that crashes right after `DISPATCHED` can never be finished. -/
theorem dispatched_unfinishable :
    ∃ trace, Lib.Trace plainWorkflow.Step (Store.empty "run") trace waitingStore ∧
      ¬ (Finishable plainWorkflow (lastOf waitingStore ((approve plainWorkflow "human" waitingStore).states.take 4)) ∧
        ¬ Stranded plainWorkflow
          (lastOf waitingStore ((approve plainWorkflow "human" waitingStore).states.take 4))) := by
  obtain ⟨trace, hrun⟩ := waiting_run
  refine ⟨trace, hrun, fun hfinish => ?_⟩
  obtain ⟨p, hp, -, hn | hn⟩ :=
    (approve_finishable (grantStored_run hrun) waiting_incident rfl "human" 4).mp hfinish
  · omega
  · have hnone : waitingStore.effectOf (Store.effectKey waitingStore.runID p.canonicalArgumentHash) = none := rfl
    rw [hnone] at hn
    exact absurd hn (show ¬ 3 + 6 ≤ 4 by omega)

end DurableEngine.IncidentAgent
