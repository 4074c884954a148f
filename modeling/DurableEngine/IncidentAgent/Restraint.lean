/-
  DurableEngine.IncidentAgent.Restraint

  How many effects an incident run applies, and what it ends with.

  A run that crashed after its effect may be investigated again.  It keeps to
  one effect, and ends neither abstained nor rejected with it, exactly as long
  as no call after the effect abstains, rejects or dispatches another proposal.
-/

import DurableEngine.IncidentAgent.Approved

namespace DurableEngine.IncidentAgent

open Lib Lib.Durable

variable {py : Python} {w : InvestigationWorkflow} {s t u : Store} {i j : Incident} {e : Event} {p : Proposal}
  {trace more : List (Store × Store)} {n : Nat}

-- ============================================================================
-- The property
-- ============================================================================

/-- At most one effect, and none in a run that is rejected or has abstained. -/
structure Store.Quiet (s : Store) : Prop where
  one : s.effects.length ≤ 1
  restraint : ∀ i, s.incident = some i → i.state = .rejected ∨ i.state = .abstained → s.effects = []

/-- The checks of the effect pass for `p`, which no effect carries: `revision` is the run's. -/
def Dispatches (py : Python) (s : Store) (i : Incident) (revision : Nat) (p : Proposal) : Prop :=
  checkEffect py s { i with revision := revision } p = .ok none

/-- A call, cut off after `n` commits, that does not touch what an effect of the run stands for: it
    commits no abstention, no rejection and no effect of another proposal. -/
def Restrained (w : InvestigationWorkflow) (s : Store) (r : Request) (n : Nat) : Prop :=
  s.effects ≠ [] →
    match r with
    | .start _ => True
    | .investigate inv => ¬ Abstains w inv s n
    | .approve actor => ∀ i p, s.incident = some i → i.state = .waitingApproval → i.proposal = some p →
        p.targetResourceID.encodable = true →
        Dispatches w.py ((s.noted i actor).granted i.noted p) i (i.revision + 2) p → n ≤ 5
    | .reject _ => ∀ i, s.incident = some i → i.state = .waitingApproval → n ≤ 1
    | .resume inv => ∀ i, s.incident = some i →
        (i.state = .interrupted → ¬ Abstains w { inv with interruptAfterLogs := false } s n) ∧
        (i.state = .waitingApproval → s.approval = some .approved → ∀ p, i.proposal = some p →
          Dispatches w.py s i (i.revision + 1) p → n ≤ 2)

/-- A step of a restrained call. -/
inductive InvestigationWorkflow.RestrainedStep (w : InvestigationWorkflow) (s : Store) :
    List (Store × Store) → Store → Prop
  | call (r : Request) (n : Nat) (h : Restrained w s r n) :
      w.RestrainedStep s (changes s ((r.states w s).take n)) (lastOf s ((r.states w s).take n))

theorem InvestigationWorkflow.RestrainedStep.step {events : List (Store × Store)} (h : w.RestrainedStep s events t) :
    w.Step s events t := by
  cases h with
  | call r n _ => exact .call r n

-- ============================================================================
-- Dispatches
-- ============================================================================

theorem dispatches_iff : Dispatches py s i (i.revision + 1) p ↔ checkEffect py (s.sent i p) i.sent p = .ok none :=
  Iff.rfl

/-- What a dispatch cut off after `n` commits has done to the effects. -/
theorem dispatching_take (py : Python) (p : Proposal) (hi : s.incident = some i) (hstate : i.state = .waitingApproval) (n : Nat) :
    (lastOf s ((s.dispatching py i p).take n)).Open ∧
      ((¬ Dispatches py s i (i.revision + 1) p ∨ n ≤ 2) ∧
          (lastOf s ((s.dispatching py i p).take n)).effects = s.effects ∨
        Dispatches py s i (i.revision + 1) p ∧ 3 ≤ n ∧ ∃ effect : Effect,
          (∀ e ∈ s.effects, e.effectKey ≠ effect.effectKey) ∧
          (lastOf s ((s.dispatching py i p).take n)).effects = s.effects ++ [effect]) := by
  have hopen : s.Open := by
    intro k hk
    obtain rfl : i = k := by simpa [hi] using hk
    rw [hstate]
    exact ⟨by decide, by decide⟩
  have hmoved : ∀ {t : Store} {k : Incident} {state : WorkflowState} {r : Option Receipt},
      state ≠ .abstained → state ≠ .rejected → (t.moved k state r).Open := by
    intro t k state r habstained hrejected l hl
    obtain rfl := Option.some.inj hl
    exact ⟨habstained, hrejected⟩
  have hsent : (s.sent i p).Open := by
    intro l hl
    obtain rfl := Option.some.inj hl
    exact ⟨by simp, by simp⟩
  have hfinish : ∀ (t : Store) (k : Incident) (r : Receipt) (m : Nat), t.Open →
      (lastOf t ((t.finishing k r).take m)).Open ∧ (lastOf t ((t.finishing k r).take m)).effects = t.effects := by
    intro t k r m ht
    apply lastOf_of_forall (I := fun u : Store => u.Open ∧ u.effects = t.effects) ⟨ht, rfl⟩
    intro u hu
    have hu' := List.mem_of_mem_take hu
    simp only [Store.finishing, List.mem_cons, List.not_mem_nil, or_false] at hu'
    rcases hu' with rfl | rfl | rfl | rfl
    · exact ⟨hmoved (by simp) (by simp), rfl⟩
    · exact ⟨fun l hl => Option.some.inj hl ▸ ⟨by simp, by simp⟩, rfl⟩
    · exact ⟨hmoved (by simp) (by simp), rfl⟩
    · exact ⟨fun l hl => Option.some.inj hl ▸ ⟨by simp, by simp⟩, rfl⟩
  rw [dispatches_iff]
  obtain rfl | rfl | ⟨m, rfl⟩ : n = 0 ∨ n = 1 ∨ ∃ m, n = m + 2 := by
    rcases n with _ | _ | m
    · exact Or.inl rfl
    · exact Or.inr (Or.inl rfl)
    · exact Or.inr (Or.inr ⟨m, rfl⟩)
  · exact ⟨hopen, Or.inl ⟨Or.inr (by omega), rfl⟩⟩
  · exact ⟨hmoved (by simp) (by simp), Or.inl ⟨Or.inr (by omega), rfl⟩⟩
  · unfold Store.dispatching
    rw [List.take_succ_cons, List.take_succ_cons, lastOf_cons, lastOf_cons]
    split
    · rename_i hcheck
      rw [List.take_nil, lastOf_nil, hcheck]
      exact ⟨hsent, Or.inl ⟨Or.inl (by simp), rfl⟩⟩
    · rename_i r hcheck
      obtain ⟨hopen', heffects⟩ := hfinish (s.sent i p) i.sent r m hsent
      rw [hcheck]
      exact ⟨hopen', Or.inl ⟨Or.inl (by simp), heffects⟩⟩
    · rename_i hcheck
      rw [hcheck]
      cases m with
      | zero => exact ⟨hsent, Or.inl ⟨Or.inr (by omega), rfl⟩⟩
      | succ m =>
          obtain ⟨-, -, -, -, -, -, hnone, -⟩ := checkEffect_ok hcheck
          have hfresh := Store.effectOf_eq_none.mp hnone.symm
          have happlied : ((s.sent i p).applied (Store.effectKey s.runID p.canonicalArgumentHash) p
              p.receipt).effects = s.effects ++ [⟨Store.effectKey s.runID p.canonicalArgumentHash,
                p.targetResourceID, p.canonicalArgumentHash, p.receipt⟩] := by
            unfold Store.applied
            dsimp only
            rw [if_neg]
            · rfl
            · rw [List.any_eq_true]
              rintro ⟨e, he, hkey⟩
              exact hfresh e he (of_decide_eq_true hkey)
          obtain ⟨hopen', heffects⟩ := hfinish ((s.sent i p).applied
            (Store.effectKey s.runID p.canonicalArgumentHash) p p.receipt) i.sent p.receipt m hsent
          dsimp only
          rw [List.take_succ_cons, lastOf_cons]
          exact ⟨hopen', Or.inr ⟨rfl, by omega, ⟨Store.effectKey s.runID p.canonicalArgumentHash,
            p.targetResourceID, p.canonicalArgumentHash, p.receipt⟩, hfresh, heffects.trans happlied⟩⟩

/-- A fresh grant for a proposal that has its own hash passes the checks of the effect. -/
theorem checkEffect_granted (actor : String) (hhash : canonicalProposalHash py p = some p.canonicalArgumentHash) :
    checkEffect py ((s.noted i actor).granted i.noted p) { i with revision := i.revision + 2 } p =
      .ok (s.effectOf (Store.effectKey s.runID p.canonicalArgumentHash)) := by
  have hgrant : ((s.noted i actor).granted i.noted p).grantOf (Store.effectKey s.runID p.canonicalArgumentHash) =
      ((s.noted i actor).granted i.noted p).grant := by
    simp [Store.grantOf, Store.granted, Store.noted, Store.recorded, Option.filter]
  have heffect : ((s.noted i actor).granted i.noted p).effectOf (Store.effectKey s.runID p.canonicalArgumentHash) =
      s.effectOf (Store.effectKey s.runID p.canonicalArgumentHash) := rfl
  have hwindow : ¬ (i.revision + 2 ≠ i.noted.revision ∧ i.revision + 2 ≠ i.noted.revision + 1) := by
    intro h
    exact h.2 rfl
  have hrun : ((s.noted i actor).granted i.noted p).runID = s.runID := rfl
  unfold checkEffect
  dsimp only
  rw [hrun, hgrant]
  show (if p.canonicalArgumentHash ≠ p.canonicalArgumentHash then _
    else if p.targetResourceID ≠ p.targetResourceID then _ else _) = _
  rw [if_neg (not_not.mpr rfl), if_neg (not_not.mpr rfl), hhash]
  dsimp only
  show (if p.canonicalArgumentHash ≠ p.canonicalArgumentHash then _ else _) = _
  rw [if_neg (not_not.mpr rfl), heffect]
  cases s.effectOf (Store.effectKey s.runID p.canonicalArgumentHash) with
  | some receipt => rfl
  | none => exact if_neg hwindow

theorem dispatches_granted (actor : String) (hhash : canonicalProposalHash py p = some p.canonicalArgumentHash)
    (hfresh : ∀ e ∈ s.effects, e.effectKey ≠ Store.effectKey s.runID p.canonicalArgumentHash) :
    Dispatches py ((s.noted i actor).granted i.noted p) i (i.revision + 2) p := by
  unfold Dispatches
  rw [checkEffect_granted actor hhash, Store.effectOf_eq_none.mpr hfresh]

/-- What an approval cut off after `n` commits has done to the effects. -/
theorem approving_take (py : Python) (p : Proposal) (hi : s.incident = some i) (hstate : i.state = .waitingApproval) (actor : String) (n : Nat) :
    (lastOf s ((s.approving py i p actor).take n)).Open ∧
      ((p.targetResourceID.encodable = true →
          Dispatches py ((s.noted i actor).granted i.noted p) i (i.revision + 2) p → n ≤ 5) ∧
          (lastOf s ((s.approving py i p actor).take n)).effects = s.effects ∨
        p.targetResourceID.encodable = true ∧
          Dispatches py ((s.noted i actor).granted i.noted p) i (i.revision + 2) p ∧ 6 ≤ n ∧ ∃ effect : Effect,
          (∀ e ∈ s.effects, e.effectKey ≠ effect.effectKey) ∧
          (lastOf s ((s.approving py i p actor).take n)).effects = s.effects ++ [effect]) := by
  have hopen : ∀ t : Store, (∀ k, t.incident = some k → k.state = .waitingApproval) → t.Open := by
    intro t ht k hk
    rw [ht k hk]
    exact ⟨nofun, nofun⟩
  have hopen₀ : s.Open := hopen s (fun k hk => by
    obtain rfl : i = k := by simpa [hi] using hk
    exact hstate)
  have hopen₁ : Store.Open { s with approval := some .approved } := hopen₀
  have hopen₂ : (s.noted i actor).Open := hopen _ (fun k hk => by
    obtain rfl := Option.some.inj hk
    exact hstate)
  unfold Store.approving
  obtain rfl | rfl | ⟨m, rfl⟩ : n = 0 ∨ n = 1 ∨ ∃ m, n = m + 2 := by
    rcases n with _ | _ | m
    · exact Or.inl rfl
    · exact Or.inr (Or.inl rfl)
    · exact Or.inr (Or.inr ⟨m, rfl⟩)
  · exact ⟨hopen₀, Or.inl ⟨fun _ _ => by omega, rfl⟩⟩
  · exact ⟨hopen₁, Or.inl ⟨fun _ _ => by omega, rfl⟩⟩
  · rw [List.take_succ_cons, List.take_succ_cons, lastOf_cons, lastOf_cons]
    split
    · rename_i hencodable
      cases m with
      | zero => exact ⟨hopen₂, Or.inl ⟨fun _ _ => by omega, rfl⟩⟩
      | succ m =>
          have hgranted : ((s.noted i actor).granted i.noted p).incident = some i.noted := rfl
          rw [List.take_succ_cons, lastOf_cons]
          obtain ⟨hend, hcases⟩ := dispatching_take py p hgranted hstate m
          refine ⟨hend, ?_⟩
          rcases hcases with ⟨hnot, heffects⟩ | ⟨hdispatches, hm, effect, hfresh, heffects⟩
          · refine Or.inl ⟨fun _ hdispatches => ?_, heffects⟩
            rcases hnot with hnot | hm
            · exact absurd hdispatches hnot
            · omega
          · exact Or.inr ⟨hencodable, hdispatches, by omega, effect, hfresh, heffects⟩
    · rename_i hencodable
      rw [List.take_nil, lastOf_nil]
      exact ⟨hopen₂, Or.inl ⟨fun h => absurd h hencodable, rfl⟩⟩

-- ============================================================================
-- Steps
-- ============================================================================

theorem Store.Quiet.of_open (hopen : t.Open) (hone : t.effects.length ≤ 1) : t.Quiet := by
  refine ⟨hone, fun i hi hstate => ?_⟩
  rcases hstate with hstate | hstate
  · exact absurd hstate (hopen i hi).2
  · exact absurd hstate (hopen i hi).1

theorem Store.Quiet.of_empty (h : t.effects = []) : t.Quiet := ⟨by rw [h]; exact Nat.zero_le 1, fun _ _ _ => h⟩

/-- A run with an effect is open. -/
theorem Store.Quiet.isOpen (h : s.Quiet) (heffects : s.effects ≠ []) : s.Open := by
  intro i hi
  constructor
  · exact fun hstate => heffects (h.restraint i hi (Or.inr hstate))
  · exact fun hstate => heffects (h.restraint i hi (Or.inl hstate))

/-- A call that keeps the effects, and keeps a run with effects open. -/
theorem Store.Quiet.frame (h : s.Quiet) (hframe : Frame s t) (hopen : s.effects ≠ [] → t.Open) : t.Quiet := by
  by_cases heffects : s.effects = []
  · exact .of_empty (hframe.effects.trans heffects)
  · exact .of_open (hopen heffects) (hframe.effects ▸ h.one)

/-- A call that writes at most an effect, and only into a run without one. -/
theorem Store.Quiet.grow {e : Effect} (h : s.Quiet) (hopen : t.Open)
    (hgrow : t.effects = s.effects ∨ s.effects = [] ∧ t.effects = s.effects ++ [e]) : t.Quiet := by
  apply Store.Quiet.of_open hopen
  rcases hgrow with hsame | ⟨hnone, hone⟩
  · rw [hsame]
    exact h.one
  · rw [hone, hnone]
    exact Nat.le_refl 1

theorem open_start {caseID : String} (hopen : s.Open) : ∀ u ∈ (start w caseID s).states, u.Open := by
  have hcreated : (s.created caseID).Open := by
    unfold Store.created
    cases hi : s.incident with
    | some i => exact hopen
    | none =>
        intro j hj
        obtain rfl := Option.some.inj hj
        exact ⟨nofun, nofun⟩
  have hholds : Holds Store.Open (start w caseID) s (fun _ _ => True) := by
    apply Holds.ite (fun _ => Holds.raise)
    intro _
    apply Holds.bind (Holds.commit (Q := fun _ => Store.Open) hcreated hcreated)
    intro _ t ht
    apply Holds.bind (Holds.read (Q := fun _ => Store.Open) ht)
    intro r u hu
    apply Holds.ite
    · intro _
      apply holds_event
      intro i hi
      exact ⟨hu.recorded hi, trivial⟩
    · exact fun _ => Holds.pure trivial
  exact hholds.states

theorem open_investigate {inv : Investigation} (hopen : s.Open) (h : ¬ Abstains w inv s n) :
    (lastOf s ((investigate w inv s).states.take n)).Open := by
  cases hs : s.incident with
  | none =>
      rw [investigate_none hs, List.take_nil]
      exact hopen
  | some i => exact (investigate_take hs n).2 hopen h

/-- A restrained call keeps the run quiet. -/
theorem Store.Quiet.call {r : Request} (h : s.Quiet) (hr : Restrained w s r n) :
    (lastOf s ((r.states w s).take n)).Quiet := by
  cases r with
  | start caseID =>
      apply h.frame (frame_take frame_start n)
      intro heffects
      exact lastOf_of_forall (h.isOpen heffects)
        (fun u hu => open_start (h.isOpen heffects) u (List.mem_of_mem_take hu))
  | investigate inv =>
      apply h.frame (frame_investigate n)
      exact fun heffects => open_investigate (h.isOpen heffects) (hr heffects)
  | reject actor =>
      apply h.frame (frame_take frame_reject n)
      intro heffects
      have hopen := h.isOpen heffects
      show (lastOf s ((reject w actor s).states.take n)).Open
      by_cases hwaiting : ∃ i, s.incident = some i ∧ i.state = .waitingApproval
      · obtain ⟨i, hi, hstate⟩ := hwaiting
        have hn : n ≤ 1 := hr heffects i hi hstate
        rw [reject_run hi hstate]
        obtain rfl | rfl : n = 0 ∨ n = 1 := by omega
        · exact hopen
        · exact hopen
      · rw [reject_other (fun i hi hstate => hwaiting ⟨i, hi, hstate⟩), List.take_nil]
        exact hopen
  | resume inv =>
      show (lastOf s ((resume w inv s).states.take n)).Quiet
      rcases resume_cases w inv s with ⟨i, hi, hstate, hstates⟩ | ⟨i, p, hi, hstate, happroval, hp, hstates⟩ | hstates
      · rw [hstates]
        apply h.frame (frame_investigate n)
        intro heffects
        exact open_investigate (h.isOpen heffects) ((hr heffects i hi).1 hstate)
      · rw [hstates]
        obtain ⟨hopen, hcases⟩ := dispatching_take w.py p hi hstate n
        rcases hcases with ⟨-, hsame⟩ | ⟨hdispatches, hn, effect, -, hgrow⟩
        · exact .of_open hopen (hsame ▸ h.one)
        · refine h.grow (e := effect) hopen (Or.inr ⟨?_, hgrow⟩)
          by_contra heffects
          have := (hr heffects i hi).2 hstate happroval p hp hdispatches
          omega
      · rw [hstates, List.take_nil]
        exact h
  | approve actor =>
      show (lastOf s ((approve w actor s).states.take n)).Quiet
      rcases approve_cases w actor s with ⟨i, p, hi, hstate, hp, hstates⟩ | ⟨i, hi, hstate, -, hstates⟩ | hstates
      · rw [hstates]
        obtain ⟨hopen, hcases⟩ := approving_take w.py p hi hstate actor n
        rcases hcases with ⟨-, hsame⟩ | ⟨hencodable, hdispatches, hn, effect, -, hgrow⟩
        · exact .of_open hopen (hsame ▸ h.one)
        · refine h.grow (e := effect) hopen (Or.inr ⟨?_, hgrow⟩)
          by_contra heffects
          have := hr heffects i p hi hstate hp hencodable hdispatches
          omega
      · rw [hstates]
        apply h.frame
        · apply frame_take
          intro u hu
          rcases List.mem_cons.mp hu with rfl | hu
          · exact (frame_noted actor hi).1
          · rw [List.mem_singleton.mp hu]
            exact (frame_noted actor hi).2
        · intro heffects
          have hopen := h.isOpen heffects
          apply lastOf_of_forall hopen
          intro u hu
          rcases List.mem_cons.mp (List.mem_of_mem_take hu) with rfl | hu
          · exact hopen
          · rw [List.mem_singleton.mp hu]
            exact Store.Open.recorded (s := { s with approval := some .approved }) hopen hi
      · rw [hstates, List.take_nil]
        exact h

/-- Fewer commits of a restrained call are restrained. -/
theorem Restrained.mono {r : Request} {m : Nat} (h : Restrained w s r n) (hle : m ≤ n) : Restrained w s r m := by
  have habstains : ∀ {inv : Investigation}, ¬ Abstains w inv s n → ¬ Abstains w inv s m := by
    rintro inv hnot ⟨evidence, d, hresult, hd, hab, hm⟩
    exact hnot ⟨evidence, d, hresult, hd, hab, by omega⟩
  intro heffects
  have h' := h heffects
  cases r with
  | start caseID => trivial
  | investigate inv => exact habstains h'
  | approve actor =>
      intro i p hi hstate hp hencodable hdispatches
      exact hle.trans (h' i p hi hstate hp hencodable hdispatches)
  | reject actor => exact fun i hi hstate => hle.trans (h' i hi hstate)
  | resume inv =>
      intro i hi
      refine ⟨fun hstate => habstains ((h' i hi).1 hstate), fun hstate happroval p hp hdispatches => ?_⟩
      exact hle.trans ((h' i hi).2 hstate happroval p hp hdispatches)

/-- A call that is not restrained breaks the property. -/
theorem not_quiet_of_unrestrained {r : Request} (h : ¬ Restrained w s r n) :
    ¬ (lastOf s ((r.states w s).take n)).Quiet := by
  have heffects : s.effects ≠ [] := fun hnone => h (fun hsome => absurd hnone hsome)
  have hcall := fun h' => h (fun _ => h')
  have habstains : ∀ {inv : Investigation}, Abstains w inv s n →
      ¬ (lastOf s ((investigate w inv s).states.take n)).Quiet := by
    intro inv habs hquiet
    cases hs : s.incident with
    | none =>
        obtain ⟨evidence, d, hresult, -⟩ := habs
        rw [gather, run_row_none_bind hs] at hresult
        cases hresult
    | some i =>
        obtain ⟨j, hj, hstate⟩ := abstained_of_abstains hs habs
        apply heffects
        have hframe : Frame s (lastOf s ((investigate w inv s).states.take n)) := frame_investigate n
        rw [← hframe.effects]
        exact hquiet.restraint j hj (Or.inr hstate)
  have hgrow : ∀ {t : Store} {effect : Effect}, t.effects = s.effects ++ [effect] → ¬ t.Quiet := by
    intro t effect ht hquiet
    have hone := hquiet.one
    rw [ht, List.length_append, List.length_singleton] at hone
    exact heffects (List.length_eq_zero_iff.mp (by omega))
  cases r with
  | start caseID => exact absurd trivial hcall
  | investigate inv => exact habstains (not_not.mp hcall)
  | reject actor =>
      change ¬ _ at hcall
      simp only [not_forall, not_le] at hcall
      obtain ⟨i, hi, hstate, hn⟩ := hcall
      intro hquiet
      apply heffects
      have hframe : Frame s (lastOf s ((reject w actor s).states.take n)) := frame_take frame_reject n
      rw [← hframe.effects]
      have hlast : ∃ j, (lastOf s ((reject w actor s).states.take n)).incident = some j ∧ j.state = .rejected := by
        rw [reject_run hi hstate]
        rcases n with _ | _ | _ | n
        · omega
        · omega
        · exact ⟨_, rfl, rfl⟩
        · exact ⟨{ i with state := .rejected, revision := i.revision + 1 }, by simp [Store.rejecting], rfl⟩
      obtain ⟨j, hj, hrejected⟩ := hlast
      exact hquiet.restraint j hj (Or.inl hrejected)
  | resume inv =>
      show ¬ (lastOf s ((resume w inv s).states.take n)).Quiet
      change ¬ _ at hcall
      simp only [not_forall, not_and_or] at hcall
      obtain ⟨i, hi, ⟨hstate, habs⟩ | ⟨hstate, happroval, p, hp, hdispatches, hn⟩⟩ := hcall
      · have hstates : (resume w inv s).states =
            (investigate w { inv with interruptAfterLogs := false } s).states := by
          rw [resume, run_row_bind hi, if_pos hstate]
        rw [hstates]
        exact habstains (not_not.mp habs)
      · have hstates : (resume w inv s).states = s.dispatching w.py i p := by
          rw [resume, run_row_bind hi, if_neg (by rw [hstate]; decide), dispatch_run hi hstate happroval hp]
        rw [hstates]
        rcases (dispatching_take w.py p hi hstate n).2 with
          ⟨hnot, -⟩ | ⟨-, -, effect, -, hmore⟩
        · rcases hnot with hnot | hle
          · exact absurd hdispatches hnot
          · omega
        · exact hgrow hmore
  | approve actor =>
      show ¬ (lastOf s ((approve w actor s).states.take n)).Quiet
      change ¬ _ at hcall
      simp only [not_forall, not_le] at hcall
      obtain ⟨i, p, hi, hstate, hp, hencodable, hdispatches, hn⟩ := hcall
      rw [approve_run hi hstate hp]
      rcases (approving_take w.py p hi hstate actor n).2 with
        ⟨hnot, -⟩ | ⟨-, -, -, effect, -, hmore⟩
      · have := hnot hencodable hdispatches
        omega
      · exact hgrow hmore

-- ============================================================================
-- Runs
-- ============================================================================

/-- Every effect carries the recomputed hash of a proposal that was approved while the run waited with it. -/
theorem effects_approved {runID : String} (h : Lib.Trace w.Step (Store.empty runID) trace s) :
    EffectsApproved w.py trace s := by
  have happroved : Approved w.py trace s := by
    apply h.invariant (I := Approved w.py)
    · exact ⟨fun g hg => (nomatch hg), fun e he => (nomatch he)⟩
    · exact fun _ _ _ _ hs hstep => hs.step hstep
  exact happroved.effects

theorem restrained_run {runID : String} (h : Lib.Trace w.RestrainedStep (Store.empty runID) trace s) :
    s.Quiet ∧ ∀ c ∈ trace, c.2.Quiet := by
  apply h.invariant (I := fun trace s => s.Quiet ∧ ∀ c ∈ trace, c.2.Quiet)
  · exact ⟨.of_empty rfl, fun c hc => nomatch hc⟩
  · rintro trace events s s' ⟨hs, htrace⟩ ⟨r, n, hr⟩
    refine ⟨hs.call hr, fun c hc => ?_⟩
    rcases List.mem_append.mp hc with hc | hc
    · exact htrace c hc
    · obtain ⟨m, hm, hlast⟩ := mem_changes hc
      rw [List.length_take] at hm
      rw [hlast, List.take_take, Nat.min_eq_left (by omega)]
      exact hs.call (hr.mono (by omega))

/-- Effects are approved in every run.  A run of restrained calls has one effect at the most and none
    when it is rejected or has abstained, after each of its commits; and a call that is not restrained
    ends that. -/
theorem effects_gated (w : InvestigationWorkflow) (runID : String) :
    (∀ trace s, Lib.Trace w.Step (Store.empty runID) trace s → EffectsApproved w.py trace s) ∧
    (∀ trace s, Lib.Trace w.RestrainedStep (Store.empty runID) trace s → s.Quiet ∧ ∀ c ∈ trace, c.2.Quiet) ∧
    ∀ trace s r n, Lib.Trace w.Step (Store.empty runID) trace s → ¬ Restrained w s r n →
      ¬ (lastOf s ((r.states w s).take n)).Quiet :=
  ⟨fun _ _ h => effects_approved h, fun _ _ h => restrained_run h, fun _ _ _ _ _ h => not_quiet_of_unrestrained h⟩

-- ============================================================================
-- A run that abstains after its effect
-- ============================================================================

/-- An interpreter whose `str` knows strings only, and whose tables know ASCII only. -/
def plainPython : Python where
  str v := match v with
    | .str s => s
    | _ => []
  str_str _ := rfl
  tables := asciiTables
  stack := 1000

def plainWorkflow : InvestigationWorkflow := ⟨plainPython, ["case"]⟩

def logEvidence : PyStr := .ofString "log-1"

/-- `{"action": "restart", "service": "api"}` -/
def restartValue : Items :=
  [(.str (.ofString "action"), .str (.ofString "restart")), (.str (.ofString "service"), .str (.ofString "api"))]

/-- An investigation with one piece of evidence, and a decision that cites it. -/
def plainInvestigation (proposal : PyValue) : Investigation where
  interruptAfterLogs := false
  logs := some ⟨[], [logEvidence]⟩
  metrics := some ⟨[], []⟩
  search := some ⟨[], []⟩
  again := none
  decision := some ⟨[logEvidence], [], true, proposal⟩

def restartText : List Char := PyValue.text (.spaced true) (.dict restartValue)

def restartHash : String :=
  Sha256.hexSum (String.ofList (PyValue.text (.compact true) (.dict
    [(.str (.ofString "action"), .str (.ofString "restart")), (.str (.ofString "target"), .str (.ofString "api")),
      (.str (.ofString "arguments"), .dict [])])))

def restartProposal : Proposal := ⟨.ofString "restart", .ofString "api", [], restartHash⟩

theorem restart_clean : (redact asciiTables (PyStr.ofString (String.ofList restartText))).count = 0 := by
  decide +kernel

theorem restart_hash : canonicalProposalHash plainPython restartProposal = some restartHash := rfl

/-- The run after `start`, and its row and store when its investigation has the evidence. -/
def startedStore : Store :=
  ((Store.empty "run").created "case").recorded ⟨"case", .accepted, 0, none, [], none, none⟩ .incidentAccepted

def gatheredIncident : Incident := ⟨"case", .investigating, 5, none, [], none, none⟩

def gatheredStore : Store where
  runID := "run"
  incident := some gatheredIncident
  timeline := [.incidentAccepted, .investigationStarted, .mcpToolCall .queryLogs ⟨[], [logEvidence]⟩,
    .mcpToolCall .queryMetrics ⟨[], []⟩, .mcpToolCall .searchRunbooks ⟨[], []⟩]
  approval := none
  grant := none
  effects := []

def plainDecision (proposal : PyValue) : Decision := ⟨[logEvidence], [], true, proposal⟩

/-- The run before its approval. -/
def waitingIncident : Incident :=
  { gatheredIncident.proposed plainPython (plainDecision (.dict restartValue)) restartProposal with revision := 8 }

def waitingStore : Store :=
  gatheredStore.proposed plainPython gatheredIncident (plainDecision (.dict restartValue)) restartProposal

theorem waiting_incident : waitingStore.incident = some waitingIncident := rfl

theorem waiting_proposal : waitingIncident.proposal = some restartProposal := rfl

/-- A run reaches the approval of its proposal. -/
theorem waiting_run : ∃ trace, Lib.Trace plainWorkflow.Step (Store.empty "run") trace waitingStore := by
  have hstart : plainWorkflow.Step (Store.empty "run") _ startedStore :=
    InvestigationWorkflow.Step.call (.start "case") 2
  have htext : PyValue.dumps (.spaced true) plainPython.stack (.dict restartValue) = some restartText := rfl
  have hproposal : proposalFromDict plainPython restartValue = some restartProposal := rfl
  have hconclude : ∃ a b c, (conclude plainPython [logEvidence] (some (plainDecision (.dict restartValue)))
      gatheredStore).states = [a, b, c, waitingStore] :=
    conclude_proposes (by decide) rfl rfl rfl htext restart_clean hproposal rfl rfl rfl
  obtain ⟨a, b, c, hconclude⟩ := hconclude
  have hstates : (investigate plainWorkflow (plainInvestigation (.dict restartValue)) startedStore).states =
      (gather plainWorkflow (plainInvestigation (.dict restartValue)) startedStore).states ++
        [a, b, c, waitingStore] := by
    rw [investigate_states]
    congr 1
  have hlast : lastOf startedStore ((Request.states plainWorkflow startedStore
      (.investigate (plainInvestigation (.dict restartValue)))).take 9) = waitingStore := by
    show lastOf startedStore
      ((investigate plainWorkflow (plainInvestigation (.dict restartValue)) startedStore).states.take 9) = waitingStore
    rw [hstates]
    rfl
  have hinvestigate := InvestigationWorkflow.Step.call (w := plainWorkflow) (s := startedStore)
    (.investigate (plainInvestigation (.dict restartValue))) 9
  rw [hlast] at hinvestigate
  exact ⟨_, (Lib.Trace.single hstart).append (Lib.Trace.single hinvestigate)⟩

/-- The effect of the proposal is in, and nothing else is. -/
def dispatchedStore : Store :=
  let granted := (waitingStore.noted waitingIncident "human").granted waitingIncident.noted restartProposal
  (granted.sent waitingIncident.noted restartProposal).applied (Store.effectKey "run" restartHash) restartProposal
    restartProposal.receipt

theorem dispatched_effects :
    dispatchedStore.effects =
      [⟨Store.effectKey "run" restartHash, .ofString "api", restartHash, restartProposal.receipt⟩] := rfl

/-- The run's approval crashes right after the effect. -/
theorem dispatched_run : ∃ trace, Lib.Trace plainWorkflow.Step (Store.empty "run") trace dispatchedStore := by
  obtain ⟨trace, hrun⟩ := waiting_run
  have hcheck : Dispatches plainPython
      ((waitingStore.noted waitingIncident "human").granted waitingIncident.noted restartProposal)
      waitingIncident.noted (waitingIncident.noted.revision + 1) restartProposal :=
    dispatches_granted "human" restart_hash (fun e he => (nomatch he))
  have hstates : (approve plainWorkflow "human" waitingStore).states =
      waitingStore.approving plainPython waitingIncident restartProposal "human" :=
    approve_run waiting_incident rfl waiting_proposal
  have hlast : lastOf waitingStore ((Request.states plainWorkflow waitingStore (.approve "human")).take 6) =
      dispatchedStore := by
    show lastOf waitingStore ((approve plainWorkflow "human" waitingStore).states.take 6) = dispatchedStore
    rw [hstates, Store.approving, if_pos (by decide), Store.dispatching, dispatches_iff.mp hcheck]
    rfl
  have happrove := InvestigationWorkflow.Step.call (w := plainWorkflow) (s := waitingStore) (.approve "human") 6
  rw [hlast] at happrove
  exact ⟨_, hrun.tail happrove⟩

theorem effects_gated_dispatched :
    ∃ trace, Lib.Trace plainWorkflow.Step (Store.empty "run") trace dispatchedStore ∧
      EffectsApproved plainPython trace dispatchedStore := by
  obtain ⟨trace, hrun⟩ := dispatched_run
  exact ⟨trace, hrun, (effects_gated plainWorkflow "run").1 trace dispatchedStore hrun⟩

/-- The effect's call crashes, the next investigation finds nothing to propose, and the run ends abstained. -/
theorem abstained_with_effect :
    ¬ ∀ trace s, Lib.Trace plainWorkflow.Step (Store.empty "run") trace s →
      EffectsApproved plainPython trace s ∧ s.Quiet := by
  intro hclaim
  obtain ⟨trace, hrun⟩ := dispatched_run
  have hunrestrained : ¬ Restrained plainWorkflow dispatchedStore (.investigate (plainInvestigation .none)) 5 := by
    intro hrestrained
    apply hrestrained
    · rw [dispatched_effects]
      nofun
    · exact ⟨[logEvidence], plainDecision .none, rfl, rfl, by decide, Nat.le_refl _⟩
  have hinvestigate := InvestigationWorkflow.Step.call (w := plainWorkflow) (s := dispatchedStore)
    (.investigate (plainInvestigation .none)) 5
  exact not_quiet_of_unrestrained hunrestrained (hclaim _ _ (hrun.tail hinvestigate)).2

end DurableEngine.IncidentAgent
