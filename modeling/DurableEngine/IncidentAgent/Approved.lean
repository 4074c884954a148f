/-
  DurableEngine.IncidentAgent.Approved

  Which effects an incident run applies.

  An effect is only ever written for a proposal that was approved while the run
  waited with it: the grant carries the proposal's hash, and its revision window
  closes before another proposal can take its place.  That a run has one effect
  and that an abstention or a rejection comes with none is not so: an
  investigation that starts again after the effect knows nothing of it.
-/

import DurableEngine.IncidentAgent.Investigations
import DurableEngine.Lib.Trace

namespace DurableEngine.IncidentAgent

open Lib Lib.Durable

variable {py : Python} {w : InvestigationWorkflow} {s t u : Store} {i j : Incident} {e : Event} {p : Proposal}
  {trace more : List (Store × Store)}

-- ============================================================================
-- Approvals
-- ============================================================================

/-- The commit of an `approval_granted` event while the run waits with the proposal `p`. -/
def Approves (p : Proposal) (c : Store × Store) : Prop :=
  ∃ i actor, c.1.incident = some i ∧ i.state = .waitingApproval ∧ i.proposal = some p ∧
    c.2 = c.1.recorded i (.approvalGranted actor)

/-- The run's grant is for an approved proposal, which the row holds as long as the grant can be used. -/
def GrantApproved (trace : List (Store × Store)) (s : Store) : Prop :=
  ∀ g, s.grant = some g → ∃ i p, s.incident = some i ∧ (∃ c ∈ trace, Approves p c) ∧
    g.argumentHash = p.canonicalArgumentHash ∧ g.workflowRevision ≤ i.revision ∧
    (i.revision ≤ g.workflowRevision + 1 → i.proposal = some p)

/-- The run's effects are those of approved proposals. -/
def EffectsApproved (py : Python) (trace : List (Store × Store)) (s : Store) : Prop :=
  ∀ e ∈ s.effects, ∃ p, (∃ c ∈ trace, Approves p c) ∧ canonicalProposalHash py p = some e.argumentHash

/-- What holds of a run at all times. -/
structure Approved (py : Python) (trace : List (Store × Store)) (s : Store) : Prop where
  grant : GrantApproved trace s
  effects : EffectsApproved py trace s

theorem Approved.mono (h : Approved py trace s) (hsub : ∀ c ∈ trace, c ∈ more) : Approved py more s := by
  refine ⟨fun g hg => ?_, fun e he => ?_⟩
  · obtain ⟨i, p, hi, ⟨c, hc, happroves⟩, hrest⟩ := h.grant g hg
    exact ⟨i, p, hi, ⟨c, hsub c hc, happroves⟩, hrest⟩
  · obtain ⟨p, ⟨c, hc, happroves⟩, hhash⟩ := h.effects e he
    exact ⟨p, ⟨c, hsub c hc, happroves⟩, hhash⟩

theorem Approved.frame (h : Approved py trace s) (hframe : Frame s t) : Approved py trace t := by
  refine ⟨fun g hg => ?_, fun e he => h.effects e (hframe.effects ▸ he)⟩
  obtain ⟨i, p, hi, hc, hhash, hrevision, hproposal⟩ := h.grant g (hframe.grant ▸ hg)
  obtain ⟨j, hj, hle, hnew⟩ := hframe.incident i hi
  refine ⟨j, p, hj, hc, hhash, by omega, fun hwindow => ?_⟩
  rcases hnew with hsame | hlater
  · exact hsame.trans (hproposal (by omega))
  · omega

-- ============================================================================
-- Dispatches
-- ============================================================================

/-- What the checks of an effect have found. -/
theorem checkEffect_ok {r : Option Receipt} (h : checkEffect py s i p = .ok r) :
    ∃ g, s.grant = some g ∧ g.effectKey = Store.effectKey s.runID p.canonicalArgumentHash ∧
      g.proposalHash = p.canonicalArgumentHash ∧ g.resourceID = p.targetResourceID ∧
      canonicalProposalHash py p = some g.argumentHash ∧
      r = s.effectOf (Store.effectKey s.runID p.canonicalArgumentHash) ∧
      (r = none → i.revision = g.workflowRevision ∨ i.revision = g.workflowRevision + 1) := by
  unfold checkEffect at h
  dsimp only at h
  cases hgrant : s.grantOf (Store.effectKey s.runID p.canonicalArgumentHash) with
  | none => simp [hgrant] at h
  | some g =>
      obtain ⟨hg, hkey⟩ : s.grant = some g ∧ g.effectKey = Store.effectKey s.runID p.canonicalArgumentHash := by
        simpa [Store.grantOf, Option.filter_eq_some_iff] using hgrant
      refine ⟨g, hg, hkey, ?_⟩
      rw [hgrant] at h
      dsimp only at h
      split at h
      · exact nomatch h
      · rename_i hproposal
        split at h
        · exact nomatch h
        · rename_i hresource
          cases hhash : canonicalProposalHash py p with
          | none => simp [hhash] at h
          | some hash =>
              rw [hhash] at h
              dsimp only at h
              split at h
              · exact nomatch h
              · rename_i hargument
                refine ⟨not_not.mp hproposal, not_not.mp hresource, by rw [not_not.mp hargument], ?_⟩
                cases heffect : s.effectOf (Store.effectKey s.runID p.canonicalArgumentHash) with
                | some receipt =>
                    rw [heffect] at h
                    obtain rfl := Except.ok.inj h
                    exact ⟨rfl, nofun⟩
                | none =>
                    rw [heffect] at h
                    dsimp only at h
                    split at h
                    · exact nomatch h
                    · rename_i hwindow
                      obtain rfl := Except.ok.inj h
                      exact ⟨rfl, fun _ => by omega⟩

theorem frame_finishing {r : Receipt} (hi : s.incident = some i) : ∀ u ∈ s.finishing i r, Frame s u := by
  have hfirst : Frame s (s.moved i .verifying (some r)) := Frame.moved hi
  have hsecond : Frame s (s.checked i r) := hfirst.trans (Frame.recorded rfl)
  have hthird : Frame s ((s.checked i r).moved (i.checked r) .completed (some r)) :=
    hsecond.trans (Frame.moved rfl)
  intro u hu
  simp only [Store.finishing, List.mem_cons, List.not_mem_nil, or_false] at hu
  rcases hu with rfl | rfl | rfl | rfl
  · exact hfirst
  · exact hsecond
  · exact hthird
  · exact hthird.trans (Frame.recorded rfl)

theorem frame_sent (hi : s.incident = some i) : Frame s (s.sent i p) :=
  (Frame.moved hi).trans (Frame.recorded rfl)

/-- The effect of an approved run is that of the approved proposal. -/
theorem Approved.applied (h : Approved py trace s) (hi : s.incident = some i) (hp : i.proposal = some p)
    (hcheck : checkEffect py s i p = .ok none) :
    Approved py trace (s.applied (Store.effectKey s.runID p.canonicalArgumentHash) p p.receipt) := by
  obtain ⟨g, hg, -, -, -, hhash, -, hwindow⟩ := checkEffect_ok hcheck
  obtain ⟨i', p', hi', hc, hargument, -, hproposal⟩ := h.grant g hg
  obtain rfl : i = i' := by simpa [hi] using hi'
  obtain rfl : p = p' := by
    have hsame := hproposal (by have := hwindow rfl; omega)
    rw [hp, Option.some.injEq] at hsame
    exact hsame
  constructor
  · intro g' hg'
    obtain ⟨g₁, hg₁, rfl⟩ : ∃ g₁, s.grant = some g₁ ∧
        (if g₁.effectKey = Store.effectKey s.runID p.canonicalArgumentHash then
          { g₁ with state := .dispatched } else g₁) = g' := by
      simpa [Store.applied, Option.map_eq_some_iff] using hg'
    obtain ⟨i₁, p₁, hi₁, hc₁, hrest⟩ := h.grant g₁ hg₁
    refine ⟨i₁, p₁, hi₁, hc₁, ?_⟩
    split
    · exact hrest
    · exact hrest
  · intro e he
    unfold Store.applied at he
    dsimp only at he
    split at he
    · exact h.effects e he
    · rcases List.mem_append.mp he with he | he
      · exact h.effects e he
      · rw [List.mem_singleton.mp he]
        exact ⟨p, hc, hargument ▸ hhash⟩

theorem Approved.dispatching (h : Approved py trace s) (hi : s.incident = some i) (hp : i.proposal = some p) :
    ∀ u ∈ s.dispatching py i p, Approved py trace u := by
  have hsent : Approved py trace (s.sent i p) := h.frame (frame_sent hi)
  intro u hu
  unfold Store.dispatching at hu
  rcases List.mem_cons.mp hu with rfl | hu
  · exact h.frame (Frame.moved hi)
  rcases List.mem_cons.mp hu with rfl | hu
  · exact hsent
  split at hu
  · exact nomatch hu
  · exact hsent.frame (frame_finishing rfl u hu)
  · rename_i hcheck
    have happlied := hsent.applied Store.sent_incident hp hcheck
    rcases List.mem_cons.mp hu with rfl | hu
    · exact happlied
    · exact happlied.frame (frame_finishing rfl u hu)

theorem Approved.approving (h : Approved py trace s) (hi : s.incident = some i)
    (hstate : i.state = .waitingApproval) (hp : i.proposal = some p) (actor : String) :
    ∀ u ∈ s.approving py i p actor,
      Approved py (trace ++ [({ s with approval := some .approved }, s.noted i actor)]) u := by
  have hmore : ∀ c ∈ trace, c ∈ trace ++ [({ s with approval := some .approved }, s.noted i actor)] :=
    fun c hc => List.mem_append_left _ hc
  have hfirst : Frame s { s with approval := some .approved } :=
    ⟨rfl, rfl, rfl, fun i' hi' => ⟨i', hi', Nat.le_refl _, Or.inl rfl⟩⟩
  have hnoted : Frame s (s.noted i actor) := hfirst.trans (Frame.recorded hi)
  intro u hu
  unfold Store.approving at hu
  rcases List.mem_cons.mp hu with rfl | hu
  · exact (h.frame hfirst).mono hmore
  rcases List.mem_cons.mp hu with rfl | hu
  · exact (h.frame hnoted).mono hmore
  split at hu
  · -- the grant is for the proposal that the event before it approves
    have hgranted : Approved py (trace ++ [({ s with approval := some .approved }, s.noted i actor)])
        ((s.noted i actor).granted i.noted p) := by
      refine ⟨fun g hg => ?_, ((h.frame hnoted).mono hmore).effects⟩
      obtain rfl := Option.some.inj hg
      refine ⟨i.noted, p, rfl, ⟨_, List.mem_append_right _ (List.mem_singleton_self _), ?_⟩, rfl, Nat.le_refl _,
        fun _ => hp⟩
      exact ⟨i, actor, hi, hstate, hp, rfl⟩
    rcases List.mem_cons.mp hu with rfl | hu
    · exact hgranted
    · exact hgranted.dispatching rfl hp u hu
  · exact nomatch hu

-- ============================================================================
-- Steps
-- ============================================================================

theorem frame_take {states : List Store} (h : ∀ u ∈ states, Frame s u) (n : Nat) :
    Frame s (lastOf s (states.take n)) :=
  lastOf_of_forall (Frame.refl s) (fun u hu => h u (List.mem_of_mem_take hu))

theorem frame_created {caseID : String} : Frame s (s.created caseID) := by
  unfold Store.created
  cases hi : s.incident with
  | some i => exact Frame.refl s
  | none => exact ⟨rfl, rfl, rfl, fun i hi' => by simp [hi] at hi'⟩

theorem frame_start {caseID : String} : ∀ u ∈ (start w caseID s).states, Frame s u := by
  have hholds : Holds (Frame s) (start w caseID) s (fun _ _ => True) := by
    apply Holds.ite (fun _ => Holds.raise)
    intro _
    apply Holds.bind (Holds.commit (Q := fun _ => Frame s) frame_created frame_created)
    intro _ t ht
    apply Holds.bind (Holds.read (Q := fun _ => Frame s) ht)
    intro r u hu
    apply Holds.ite
    · intro _
      apply holds_event
      intro i hi
      exact ⟨hu.trans (Frame.recorded hi), trivial⟩
    · exact fun _ => Holds.pure trivial
  exact hholds.states

theorem investigate_none {inv : Investigation} (hs : s.incident = none) : (investigate w inv s).states = [] := by
  have hgather : gather w inv s = ⟨[], .error (.workflowError s!"unknown incident run: {s.runID}")⟩ := by
    rw [gather, run_row_none_bind hs]
  rw [investigate_states, hgather]
  rfl

theorem frame_investigate {inv : Investigation} (n : Nat) :
    Frame s (lastOf s ((investigate w inv s).states.take n)) := by
  cases hs : s.incident with
  | none =>
      rw [investigate_none hs, List.take_nil]
      exact Frame.refl s
  | some i => exact (investigate_take hs n).1

theorem frame_reject {actor : String} : ∀ u ∈ (reject w actor s).states, Frame s u := by
  by_cases h : ∃ i, s.incident = some i ∧ i.state = .waitingApproval
  · obtain ⟨i, hi, hstate⟩ := h
    have hfirst : Frame s { s with approval := some .rejected } :=
      ⟨rfl, rfl, rfl, fun i' hi' => ⟨i', hi', Nat.le_refl _, Or.inl rfl⟩⟩
    have hsecond : Frame s ({ s with approval := some .rejected }.moved i .rejected none) :=
      hfirst.trans (Frame.moved hi)
    rw [reject_run hi hstate]
    intro u hu
    simp only [Store.rejecting, List.mem_cons, List.not_mem_nil, or_false] at hu
    rcases hu with rfl | rfl | rfl
    · exact hfirst
    · exact hsecond
    · exact hsecond.trans (Frame.recorded rfl)
  · rw [reject_other (fun i hi hstate => h ⟨i, hi, hstate⟩)]
    exact fun u hu => nomatch hu

/-- `resume` investigates, dispatches or writes nothing. -/
theorem resume_cases (w : InvestigationWorkflow) (inv : Investigation) (s : Store) :
    (∃ i, s.incident = some i ∧ i.state = .interrupted ∧
      (resume w inv s).states = (investigate w { inv with interruptAfterLogs := false } s).states) ∨
    (∃ i p, s.incident = some i ∧ i.state = .waitingApproval ∧ s.approval = some .approved ∧
      i.proposal = some p ∧ (resume w inv s).states = s.dispatching w.py i p) ∨
    (resume w inv s).states = [] := by
  cases hi : s.incident with
  | none =>
      right
      right
      rw [resume, run_row_none_bind hi]
  | some i =>
      rw [resume, run_row_bind hi]
      by_cases hstate : i.state = .interrupted
      · left
        exact ⟨i, rfl, hstate, by rw [if_pos hstate]⟩
      · right
        rw [if_neg hstate]
        by_cases hwaiting :
            ∃ i p, s.incident = some i ∧ i.state = .waitingApproval ∧ s.approval = some .approved ∧ i.proposal = some p
        · obtain ⟨i', p, hi', hwait, happroval, hp⟩ := hwaiting
          left
          exact ⟨i', p, hi ▸ hi', hwait, happroval, hp, dispatch_run hi' hwait happroval hp⟩
        · right
          exact dispatch_idle hwaiting

/-- `approve` approves, stops at a run without a proposal or writes nothing. -/
theorem approve_cases (w : InvestigationWorkflow) (actor : String) (s : Store) :
    (∃ i p, s.incident = some i ∧ i.state = .waitingApproval ∧ i.proposal = some p ∧
      (approve w actor s).states = s.approving w.py i p actor) ∨
    (∃ i, s.incident = some i ∧ i.state = .waitingApproval ∧ i.proposal = none ∧
      (approve w actor s).states = [{ s with approval := some .approved }, s.noted i actor]) ∨
    (approve w actor s).states = [] := by
  by_cases h : ∃ i, s.incident = some i ∧ i.state = .waitingApproval
  · obtain ⟨i, hi, hstate⟩ := h
    cases hp : i.proposal with
    | some p =>
        left
        exact ⟨i, p, hi, hstate, hp, approve_run hi hstate hp⟩
    | none =>
        right
        left
        exact ⟨i, hi, hstate, hp, approve_nothing hi hstate hp⟩
  · right
    right
    exact approve_other (fun i hi hstate => h ⟨i, hi, hstate⟩)

theorem frame_noted (actor : String) (hi : s.incident = some i) :
    Frame s { s with approval := some .approved } ∧ Frame s (s.noted i actor) := by
  have hfirst : Frame s { s with approval := some .approved } :=
    ⟨rfl, rfl, rfl, fun i' hi' => ⟨i', hi', Nat.le_refl _, Or.inl rfl⟩⟩
  exact ⟨hfirst, hfirst.trans (Frame.recorded hi)⟩

/-- Every effect of a run is that of an approved proposal: what one call does. -/
theorem Approved.step {events : List (Store × Store)} {s' : Store} (h : Approved w.py trace s)
    (hstep : w.Step s events s') : Approved w.py (trace ++ events) s' := by
  cases hstep with
  | call r n =>
      have hmore : ∀ {more : List (Store × Store)}, ∀ c ∈ trace, c ∈ trace ++ more :=
        fun c hc => List.mem_append_left _ hc
      have hkept : Frame s (lastOf s ((r.states w s).take n)) →
          Approved w.py (trace ++ changes s ((r.states w s).take n)) (lastOf s ((r.states w s).take n)) :=
        fun hframe => (h.frame hframe).mono hmore
      cases r with
      | start caseID => exact hkept (frame_take frame_start n)
      | investigate inv => exact hkept (frame_investigate n)
      | reject actor => exact hkept (frame_take frame_reject n)
      | resume inv =>
          show Approved w.py (trace ++ changes s ((resume w inv s).states.take n))
            (lastOf s ((resume w inv s).states.take n))
          rcases resume_cases w inv s with ⟨i, -, -, hstates⟩ | ⟨i, p, hi, -, -, hp, hstates⟩ | hstates
          · rw [hstates]
            exact (h.frame (frame_investigate n)).mono hmore
          · rw [hstates]
            apply Approved.mono _ hmore
            apply lastOf_of_forall h
            exact fun u hu => h.dispatching hi hp u (List.mem_of_mem_take hu)
          · rw [hstates, List.take_nil]
            exact h.mono hmore
      | approve actor =>
          show Approved w.py (trace ++ changes s ((approve w actor s).states.take n))
            (lastOf s ((approve w actor s).states.take n))
          rcases approve_cases w actor s with ⟨i, p, hi, hstate, hp, hstates⟩ | ⟨i, hi, -, -, hstates⟩ | hstates
          · rw [hstates]
            -- the commits after the approval's event have it in the trace
            obtain hn | hn | ⟨m, rfl⟩ : n = 0 ∨ n = 1 ∨ ∃ m, n = m + 2 := by
              rcases n with _ | _ | m
              · exact Or.inl rfl
              · exact Or.inr (Or.inl rfl)
              · exact Or.inr (Or.inr ⟨m, rfl⟩)
            · subst hn
              exact h.mono hmore
            · subst hn
              exact (h.frame (frame_noted actor hi).1).mono hmore
            · obtain ⟨rest, hrest⟩ : ∃ rest, s.approving w.py i p actor =
                  { s with approval := some .approved } :: s.noted i actor :: rest := ⟨_, rfl⟩
              have hall := h.approving hi hstate hp actor
              rw [hrest] at hall ⊢
              rw [List.take_succ_cons, List.take_succ_cons, lastOf_cons, lastOf_cons, changes_cons, changes_cons]
              have hlast : Approved w.py (trace ++ [({ s with approval := some .approved }, s.noted i actor)])
                  (lastOf (s.noted i actor) (rest.take m)) := by
                apply lastOf_of_forall
                · exact (h.frame (frame_noted actor hi).2).mono hmore
                · intro u hu
                  apply hall u
                  exact List.mem_cons_of_mem _ (List.mem_cons_of_mem _ (List.mem_of_mem_take hu))
              apply hlast.mono
              intro c hc
              rcases List.mem_append.mp hc with hc | hc
              · exact List.mem_append_left _ hc
              · rw [List.mem_singleton.mp hc]
                apply List.mem_append_right
                exact List.mem_cons_of_mem _ List.mem_cons_self
          · rw [hstates]
            apply Approved.mono _ hmore
            apply h.frame
            apply frame_take
            intro u hu
            rcases List.mem_cons.mp hu with rfl | hu
            · exact (frame_noted actor hi).1
            · rw [List.mem_singleton.mp hu]
              exact (frame_noted actor hi).2
          · rw [hstates, List.take_nil]
            exact h.mono hmore

end DurableEngine.IncidentAgent
