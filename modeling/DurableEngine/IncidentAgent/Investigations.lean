/-
  DurableEngine.IncidentAgent.Investigations

  What an investigation does to a run.

  It gathers evidence and commits a decision.  Wherever it is cut off the grant
  and the effects are as they were, and another proposal stands in the row only
  two events later or more.
-/

import DurableEngine.IncidentAgent.Chains

namespace DurableEngine.IncidentAgent

open Lib Lib.Durable

variable {py : Python} {w : InvestigationWorkflow} {s t u : Store} {i j : Incident} {e : Event} {p : Proposal}

-- ============================================================================
-- Investigations
-- ============================================================================

/-- `t` is the store of an investigation of `s` and `i`, after `k` events and before its decision. -/
structure During (s : Store) (i : Incident) (k : Nat) (t : Store) : Prop where
  runID : t.runID = s.runID
  approval : t.approval = s.approval
  grant : t.grant = s.grant
  effects : t.effects = s.effects
  incident : ∃ j, t.incident = some j ∧ (j.state = .investigating ∨ j.state = .interrupted) ∧
    j.proposal = i.proposal ∧ i.revision + k ≤ j.revision

theorem During.mono {k l : Nat} (h : During s i l t) (hle : k ≤ l) : During s i k t := by
  obtain ⟨j, hj, hstate, hproposal, hrevision⟩ := h.incident
  exact { h with incident := ⟨j, hj, hstate, hproposal, by omega⟩ }

theorem During.recorded {k : Nat} (h : During s i k t) (hj : t.incident = some j) :
    During s i (k + 1) (t.recorded j e) := by
  obtain ⟨j', hj', hstate, hproposal, hrevision⟩ := h.incident
  obtain rfl : j = j' := by simpa [hj] using hj'
  refine { h with incident := ⟨_, rfl, hstate, hproposal, ?_⟩ }
  show i.revision + (k + 1) ≤ j.revision + 1
  omega

theorem holds_during_event {k : Nat} (h : During s i k t) :
    Holds (During s i k) (event e) t (fun _ => During s i (k + 1)) := by
  apply holds_event
  intro j hj
  exact ⟨(h.recorded hj).mono (by omega), h.recorded hj⟩

theorem holds_during_move {k : Nat} {state : WorkflowState} (h : During s i k t)
    (hstate : state = .investigating ∨ state = .interrupted) :
    Holds (During s i k) (update py state none none none none) t (fun _ => During s i k) := by
  apply holds_update
  intro j hj
  obtain ⟨j', hj', -, hproposal, hrevision⟩ := h.incident
  obtain rfl : j = j' := by simpa [hj] using hj'
  have hmoved : During s i k (t.moved j state none) :=
    { h with incident := ⟨_, rfl, hstate, hproposal, hrevision⟩ }
  rw [Option.map_none, Store.updated_none]
  exact ⟨hmoved, hmoved⟩

/-- A part of the gathering keeps the store in an investigation. -/
abbrev Gathers {α : Type} (s : Store) (i : Incident) (m : Call α) : Prop :=
  ∀ t, During s i 1 t → Holds (During s i 1) m t (fun _ => During s i 1)

theorem gathers_callTool {method : ToolMethod} {answer : Option ToolResult} :
    Gathers s i (callTool py method answer) := by
  intro t h
  cases answer with
  | none => exact Holds.raise
  | some result =>
      apply holds_require_bind
      intro _
      apply holds_require_bind
      intro _
      apply Holds.bind (holds_during_event h)
      intro _ u hu
      exact Holds.pure (hu.mono (by omega))

theorem gathers_replayTool {method : ToolMethod} {answer : Option ToolResult} :
    Gathers s i (replayTool py method answer) := by
  intro t h
  rw [replayTool]
  apply Holds.bind (Holds.read (Q := fun _ => During s i 1) h)
  intro r u hu
  split
  · exact Holds.pure hu
  · exact gathers_callTool u hu

theorem gathers_searchAgain {search : ToolResult} {answer : Option ToolResult} :
    Gathers s i (searchAgain py search answer) := by
  intro t h
  unfold searchAgain
  split
  · exact Holds.pure h
  · split
    · exact Holds.pure h
    · apply holds_require_bind
      intro _
      apply Holds.bind (holds_during_event h)
      intro _ u hu
      apply Holds.bind (Holds.read (Q := fun _ => During s i 1) (hu.mono (by omega)))
      intro r v hv
      apply Holds.ite
      · exact fun _ => gathers_callTool v hv
      · exact fun _ => Holds.pure hv

theorem gathers_gatherRest {inv : Investigation} {logs : ToolResult} : Gathers s i (gatherRest py inv logs) := by
  intro t h
  apply Holds.bind (gathers_replayTool t h)
  intro metrics u hu
  apply Holds.bind (gathers_replayTool u hu)
  intro search v hv
  apply Holds.bind (gathers_searchAgain v hv)
  intro again x hx
  exact Holds.pure hx

/-- The gathering of an investigation: it returns evidence after at least one event. -/
theorem holds_gather (w : InvestigationWorkflow) (inv : Investigation) (h : s.incident = some i) :
    Holds (During s i 0) (gather w inv) s (fun evidence t => t = s ∧ evidence = none ∨ During s i 1 t) := by
  apply holds_row_bind
  intro i' hi'
  obtain rfl : i = i' := by simpa [h] using hi'
  apply Holds.ite (fun _ => Holds.raise)
  intro _
  apply Holds.ite
  · intro _
    apply Holds.pure
    exact Or.inl ⟨rfl, rfl⟩
  intro _
  have hfirst : During s i 0 (s.moved i .investigating none) :=
    ⟨rfl, rfl, rfl, rfl, _, rfl, Or.inl rfl, rfl, Nat.le_refl _⟩
  apply Holds.cons (run_move_bind h) hfirst
  apply Holds.bind (holds_during_event hfirst)
  intro _ t ht
  have hweak : ∀ {α : Type} {m : Call α} {t : Store} {Q : α → Store → Prop}, Holds (During s i 1) m t Q →
      Holds (During s i 0) m t Q := fun h' => ⟨fun v hv => (h'.states v hv).mono (by omega), h'.result⟩
  apply Holds.bind (Holds.read (Q := fun _ => During s i 1) ht)
  intro r u hu
  apply Holds.bind (hweak (gathers_replayTool u hu))
  intro logs v hv
  apply Holds.ite
  · intro _
    apply Holds.bind (hweak (holds_during_move hv (Or.inr rfl)))
    intro _ x hx
    apply Holds.bind (hweak (holds_during_event hx))
    intro _ y hy
    exact Holds.pure (Or.inr (hy.mono (by omega)))
  · intro _
    apply Holds.bind (hweak (gathers_gatherRest v hv))
    intro evidence x hx
    exact Holds.pure (Or.inr hx)

/-- What a call may do to a run without touching its grant and its effects: another proposal comes
    two events later at the least. -/
structure Frame (s t : Store) : Prop where
  runID : t.runID = s.runID
  grant : t.grant = s.grant
  effects : t.effects = s.effects
  incident : ∀ i, s.incident = some i →
    ∃ j, t.incident = some j ∧ i.revision ≤ j.revision ∧ (j.proposal = i.proposal ∨ i.revision + 2 ≤ j.revision)

theorem Frame.refl (s : Store) : Frame s s := ⟨rfl, rfl, rfl, fun i hi => ⟨i, hi, Nat.le_refl _, Or.inl rfl⟩⟩

theorem Frame.trans (h : Frame s t) (h' : Frame t u) : Frame s u := by
  refine ⟨h'.runID.trans h.runID, h'.grant.trans h.grant, h'.effects.trans h.effects, fun i hi => ?_⟩
  obtain ⟨j, hj, hij, hproposal⟩ := h.incident i hi
  obtain ⟨k, hk, hjk, hproposal'⟩ := h'.incident j hj
  refine ⟨k, hk, by omega, ?_⟩
  rcases hproposal' with hsame | hlater
  · rcases hproposal with hsame' | hlater'
    · exact Or.inl (hsame.trans hsame')
    · exact Or.inr (by omega)
  · exact Or.inr (by omega)

theorem Frame.recorded (hi : s.incident = some i) : Frame s (s.recorded i e) := by
  refine ⟨rfl, rfl, rfl, fun i' hi' => ⟨_, rfl, ?_, Or.inl ?_⟩⟩
  · obtain rfl : i = i' := by simpa [hi] using hi'
    exact Nat.le_succ _
  · obtain rfl : i = i' := by simpa [hi] using hi'
    rfl

theorem Frame.moved {state : WorkflowState} {receipt : Option Receipt} (hi : s.incident = some i) :
    Frame s (s.moved i state receipt) := by
  refine ⟨rfl, rfl, rfl, fun i' hi' => ⟨_, rfl, ?_, Or.inl ?_⟩⟩
  · obtain rfl : i = i' := by simpa [hi] using hi'
    exact Nat.le_refl _
  · obtain rfl : i = i' := by simpa [hi] using hi'
    rfl

/-- A decision that is committed three events after the investigation began may bring its proposal. -/
theorem Frame.updated {state : WorkflowState} {diagnosis : Option PyStr} {citations : Option (List PyStr)}
    {proposal : Option Proposal} (h : During s i 3 t) (hs : s.incident = some i) (hj : t.incident = some j) :
    Frame s (t.updated j state diagnosis citations proposal none) := by
  obtain ⟨j', hj', -, -, hrevision⟩ := h.incident
  obtain rfl : j = j' := by simpa [hj] using hj'
  refine ⟨h.runID, h.grant, h.effects, fun i' hi' => ⟨_, rfl, ?_, Or.inr ?_⟩⟩
  · obtain rfl : i = i' := by simpa [hs] using hi'
    show i.revision ≤ j.revision
    omega
  · obtain rfl : i = i' := by simpa [hs] using hi'
    show i.revision + 2 ≤ j.revision
    omega

theorem During.frame {k : Nat} (h : During s i k t) (hs : s.incident = some i) : Frame s t := by
  refine ⟨h.runID, h.grant, h.effects, fun i' hi' => ?_⟩
  obtain rfl : i = i' := by simpa [hs] using hi'
  obtain ⟨j, hj, -, hproposal, hrevision⟩ := h.incident
  exact ⟨j, hj, by omega, Or.inl hproposal⟩

/-- The run has neither abstained nor been rejected. -/
def Store.Open (s : Store) : Prop := ∀ i, s.incident = some i → i.state ≠ .abstained ∧ i.state ≠ .rejected

theorem During.isOpen {k : Nat} (h : During s i k t) : t.Open := by
  intro j hj
  obtain ⟨j', hj', hstate, -⟩ := h.incident
  obtain rfl : j = j' := by simpa [hj] using hj'
  rcases hstate with hstate | hstate <;> simp [hstate]

theorem Store.Open.recorded (h : s.Open) (hi : s.incident = some i) : (s.recorded i e).Open := by
  intro j hj
  rw [Store.recorded_incident, Option.some.injEq] at hj
  subst hj
  exact h i hi

/-- The decision passes the checks of an investigation with this evidence and proposes nothing. -/
def Decision.abstains (py : Python) (evidence : List PyStr) (d : Decision) : Bool :=
  !d.citations.any (fun c => c ∉ evidence) && d.usage && (redact py.tables d.diagnosis).text.encodable &&
    (match d.proposal with
    | .dict _ => false
    | _ => true)

/-- The commits of a decision leave the run open unless it abstains. -/
theorem holds_conclude (py : Python) (evidence : List PyStr) (decision : Option Decision) (h : During s i 1 t)
    (hs : s.incident = some i) :
    Holds (fun u => Frame s u ∧ ((∀ d, decision = some d → d.abstains py evidence = false) → u.Open))
      (conclude py evidence decision) t (fun _ _ => True) := by
  have hduring : ∀ {k : Nat} {u : Store} {c : Prop}, During s i k u → Frame s u ∧ (c → u.Open) :=
    fun hu => ⟨hu.frame hs, fun _ => hu.isOpen⟩
  cases decision with
  | none => exact Holds.raise
  | some d =>
      have habstains : (∀ d', some d = some d' → d'.abstains py evidence = false) →
          d.abstains py evidence = false := fun h' => h' d rfl
      apply Holds.ite
      · intro _
        apply holds_event_bind
        intro j hj
        exact ⟨hduring (h.recorded hj), Holds.raise⟩
      · intro hcitations
        apply holds_event_bind
        intro j hj
        refine ⟨hduring (h.recorded hj), ?_⟩
        apply holds_require_bind
        intro husage
        apply holds_event_bind
        intro k hk
        have hthree := (h.recorded (e := .diagnosisCommitted) hj).recorded (e := .modelUsage) hk
        refine ⟨hduring hthree, ?_⟩
        dsimp only
        split
        · -- a proposal
          unfold propose
          apply Holds.ite
          · intro _
            apply holds_require_bind
            intro _
            apply holds_event_bind
            intro l hl
            exact ⟨hduring (hthree.recorded hl), Holds.raise⟩
          · intro _
            split
            · exact Holds.raise
            · apply Holds.ite (fun _ => Holds.raise)
              intro _
              split
              · exact Holds.raise
              · rename_i p _
                apply Holds.bind (Q := fun _ u => Frame s u ∧ u.Open)
                · apply holds_update
                  intro l hl
                  have hopen : (((t.recorded j .diagnosisCommitted).recorded k .modelUsage).updated l
                      .waitingApproval (some (redact py.tables d.diagnosis).text) (some d.citations)
                      ((some p).map Proposal.reread) none).Open := by
                    intro m hm
                    cases hm
                    exact ⟨nofun, nofun⟩
                  exact ⟨⟨Frame.updated hthree hs hl, fun _ => hopen⟩, Frame.updated hthree hs hl, hopen⟩
                · intro _ u hu
                  apply holds_event
                  intro l hl
                  exact ⟨⟨hu.1.trans (Frame.recorded hl), fun _ => hu.2.recorded hl⟩, trivial⟩
        · -- no proposal
          rename_i hproposal
          have hall : (redact py.tables d.diagnosis).text.encodable = true → d.abstains py evidence = true := by
            intro hencodable
            unfold Decision.abstains
            rw [Bool.eq_false_iff.mpr hcitations, husage, hencodable]
            cases hvalue : d.proposal with
            | dict value => exact absurd hvalue (hproposal value)
            | _ => rfl
          apply Holds.bind (Q := fun _ u => Frame s u ∧ d.abstains py evidence = true)
          · apply holds_row_bind
            intro l hl
            apply holds_require_bind
            intro _
            apply holds_require_bind
            intro hencodable
            have habs := hall hencodable
            apply Holds.commit
            · refine ⟨Frame.updated hthree hs hl, fun h' => ?_⟩
              rw [habs] at habstains
              exact absurd (habstains h') (by simp)
            · exact ⟨Frame.updated hthree hs hl, habs⟩
          · intro _ u hu
            apply holds_event
            intro l hl
            refine ⟨⟨hu.1.trans (Frame.recorded hl), fun h' => ?_⟩, trivial⟩
            rw [hu.2] at habstains
            exact absurd (habstains h') (by simp)

theorem conclude_abstains {evidence : List PyStr} {d : Decision} (h : d.abstains py evidence = true)
    (hj : t.incident = some j) :
    ∃ c e k l, (conclude py evidence (some d) t).states =
        [t.recorded j .diagnosisCommitted,
          (t.recorded j .diagnosisCommitted).recorded { j with revision := j.revision + 1 } .modelUsage, c, e] ∧
      c.incident = some k ∧ k.state = .abstained ∧ e.incident = some l ∧ l.state = .abstained := by
  simp only [Decision.abstains, Bool.and_eq_true, Bool.not_eq_true'] at h
  obtain ⟨⟨⟨hcitations, husage⟩, hencodable⟩, hproposal⟩ := h
  have habstain : ∀ u k, u.incident = some k → ∃ c e k l,
      (abstain py d (redact py.tables d.diagnosis).text u).states = [c, e] ∧
        c.incident = some k ∧ k.state = .abstained ∧ e.incident = some l ∧ l.state = .abstained := by
    intro u k hk
    have hupdate : update py .abstained (some (redact py.tables d.diagnosis).text) (some d.citations) none none u =
        ⟨[u.updated k .abstained (some (redact py.tables d.diagnosis).text) (some d.citations) none none],
          .ok ()⟩ := by
      rw [update, run_row_bind hk]
      show (require true >>= _) u = _
      rw [run_require_bind]
      show (require (redact py.tables d.diagnosis).text.encodable >>= _) u = _
      rw [hencodable, run_require_bind]
      rfl
    let k' : Incident :=
      { k with
        state := .abstained
        diagnosis := some (redact py.tables d.diagnosis).text
        citations := d.citations.map PyStr.joined }
    let c := u.updated k .abstained (some (redact py.tables d.diagnosis).text) (some d.citations) none none
    refine ⟨c, c.recorded k' .abstained, k', { k' with revision := k.revision + 1 }, ?_, rfl, rfl, rfl, rfl⟩
    rw [abstain, run_bind_ok (a := ()) (by rw [hupdate])]
    simp only [hupdate, Commits.last, lastOf_cons, lastOf_nil]
    rw [run_event (i := k') rfl]
    rfl
  obtain ⟨c, e, k, l, hstates, hc⟩ := habstain
    ((t.recorded j .diagnosisCommitted).recorded { j with revision := j.revision + 1 } .modelUsage) _ rfl
  refine ⟨c, e, k, l, ?_, hc⟩
  rw [conclude, if_neg (by rw [hcitations]; simp), run_event_bind hj, husage, run_require_bind,
    run_event_bind Store.recorded_incident]
  rw [← hstates]
  cases hvalue : d.proposal with
  | dict value => simp [hvalue] at hproposal
  | _ => rfl

/-- The row and the store of a run before the approval of `p`. -/
def Incident.proposed (py : Python) (j : Incident) (d : Decision) (p : Proposal) : Incident :=
  { j with
    revision := j.revision + 2
    state := .waitingApproval
    diagnosis := some (redact py.tables d.diagnosis).text
    citations := d.citations.map PyStr.joined
    proposal := some p.reread }

def Store.proposed (py : Python) (t : Store) (j : Incident) (d : Decision) (p : Proposal) : Store :=
  { t with
    incident := some (j.proposed py d p)
    timeline := t.timeline ++ [Event.diagnosisCommitted] ++ [Event.modelUsage] }.recorded (j.proposed py d p)
      (.approvalRequested p.canonicalArgumentHash)

/-- A decision whose proposal passes every check puts the run before its approval. -/
theorem conclude_proposes {evidence : List PyStr} {d : Decision} {value : Items} {text : List Char}
    (hcitations : d.citations.any (fun c => c ∉ evidence) = false) (husage : d.usage = true)
    (hvalue : d.proposal = .dict value) (hcited : d.citations.isEmpty = false)
    (htext : PyValue.dumps (.spaced true) py.stack (.dict value) = some text)
    (hclean : (redact py.tables (PyStr.ofString (String.ofList text))).count = 0)
    (hp : proposalFromDict py value = some p)
    (hstored : (PyValue.dumps (.spaced false) py.stack p.asdict).isSome = true)
    (hdiagnosis : (redact py.tables d.diagnosis).text.encodable = true) (hj : t.incident = some j) :
    ∃ a b c, (conclude py evidence (some d) t).states = [a, b, c, t.proposed py j d p] := by
  let u := (t.recorded j .diagnosisCommitted).recorded { j with revision := j.revision + 1 } .modelUsage
  let c := u.updated { j with revision := j.revision + 2 } .waitingApproval
    (some (redact py.tables d.diagnosis).text) (some d.citations) (some p.reread) none
  have hupdate : update py .waitingApproval (some (redact py.tables d.diagnosis).text) (some d.citations) (some p)
      none u = ⟨[c], .ok ()⟩ := by
    rw [update, run_row_bind (i := { j with revision := j.revision + 2 }) rfl]
    show (require (PyValue.dumps (.spaced false) py.stack p.asdict).isSome >>= _) u = _
    rw [hstored, run_require_bind]
    show (require (redact py.tables d.diagnosis).text.encodable >>= _) u = _
    rw [hdiagnosis, run_require_bind]
    rfl
  refine ⟨t.recorded j .diagnosisCommitted, u, c, ?_⟩
  rw [conclude, if_neg (by rw [hcitations]; simp), run_event_bind hj, husage, run_require_bind,
    run_event_bind Store.recorded_incident]
  dsimp only
  rw [hvalue]
  dsimp only
  rw [propose, if_neg (by rw [hcited]; simp), htext]
  dsimp only
  rw [if_neg (not_not.mpr hclean), hp]
  show _ :: _ :: Commits.states ((update py .waitingApproval (some (redact py.tables d.diagnosis).text)
    (some d.citations) (some p) none >>= _) u) = _
  rw [run_bind_ok (a := ()) (by rw [hupdate])]
  simp only [hupdate, Commits.last, lastOf_cons, lastOf_nil]
  rw [run_event (i := j.proposed py d p) rfl]
  rfl

/-- The investigation reaches the decision, abstains and commits that within `n` commits. -/
def Abstains (w : InvestigationWorkflow) (inv : Investigation) (s : Store) (n : Nat) : Prop :=
  ∃ evidence d, (gather w inv s).result = .ok (some evidence) ∧ inv.decision = some d ∧
    d.abstains w.py evidence = true ∧ (gather w inv s).states.length + 3 ≤ n

theorem investigate_states {inv : Investigation} :
    (investigate w inv s).states = (gather w inv s).states ++
      (match (gather w inv s).result with
      | .ok (some evidence) => (conclude w.py evidence inv.decision ((gather w inv s).last s)).states
      | _ => []) := by
  have hsnapshot : ∀ u : Store, (snapshot u).states = [] := by
    intro u
    cases hu : u.incident with
    | none => rw [snapshot, run_row_none_bind hu]
    | some k => rw [run_snapshot hu]
  cases hresult : (gather w inv s).result with
  | error e => rw [investigate, run_bind_error hresult, List.append_nil]
  | ok evidence =>
      rw [investigate, run_bind_ok hresult]
      show (gather w inv s).states ++ Commits.states _ = (gather w inv s).states ++ _
      congr 1
      cases evidence with
      | none => exact hsnapshot _
      | some evidence =>
          cases hconclude : (conclude w.py evidence inv.decision ((gather w inv s).last s)).result with
          | error e =>
              show (Commits.states ((conclude w.py evidence inv.decision >>= _) _)) = _
              rw [run_bind_error hconclude]
          | ok a =>
              show (Commits.states ((conclude w.py evidence inv.decision >>= _) _)) = _
              rw [run_bind_ok hconclude]
              simp only [hsnapshot, List.append_nil]

/-- An investigation cut off anywhere keeps the grant and the effects, and leaves the run open unless it abstains. -/
theorem investigate_take {inv : Investigation} (hs : s.incident = some i) (n : Nat) :
    Frame s (lastOf s ((investigate w inv s).states.take n)) ∧
      (s.Open → ¬ Abstains w inv s n → (lastOf s ((investigate w inv s).states.take n)).Open) := by
  have hgather := holds_gather w inv hs
  have hbefore : ∀ m, Frame s (lastOf s ((gather w inv s).states.take m)) ∧
      (s.Open → (lastOf s ((gather w inv s).states.take m)).Open) := by
    intro m
    apply lastOf_of_forall (I := fun u => Frame s u ∧ (s.Open → u.Open)) ⟨Frame.refl s, id⟩
    intro u hu
    have hduring := hgather.states u (List.mem_of_mem_take hu)
    exact ⟨hduring.frame hs, fun _ => hduring.isOpen⟩
  rw [investigate_states]
  split
  · rename_i evidence hresult
    have ht : During s i 1 ((gather w inv s).last s) := by
      rcases hgather.result _ hresult with ⟨-, hnone⟩ | ht
      · exact nomatch hnone
      · exact ht
    rw [List.take_append, lastOf_append]
    have hfirst : lastOf s ((gather w inv s).states.take n) = (gather w inv s).last s ∨
        n - (gather w inv s).states.length = 0 := by
      by_cases hn : n ≤ (gather w inv s).states.length
      · exact Or.inr (by omega)
      · rw [List.take_of_length_le (by omega)]
        exact Or.inl rfl
    rcases hfirst with hfirst | hzero
    · rw [hfirst]
      have hconclude := holds_conclude w.py evidence inv.decision ht hs
      constructor
      · exact lastOf_of_forall (ht.frame hs) (fun u hu => (hconclude.states u (List.mem_of_mem_take hu)).1)
      · intro _ hnot
        by_cases hd : ∃ d, inv.decision = some d ∧ d.abstains w.py evidence = true
        · obtain ⟨d, hd, habstains⟩ := hd
          obtain ⟨j, hj, -⟩ := ht.incident
          obtain ⟨c, e, k, l, hstates, -⟩ := conclude_abstains habstains hj
          have hshort : n - (gather w inv s).states.length ≤ 2 := by
            by_contra hlong
            exact hnot ⟨evidence, d, hresult, hd, habstains, by omega⟩
          rw [hd, hstates]
          have hone := ht.recorded (e := .diagnosisCommitted) hj
          have htwo := hone.recorded (e := .modelUsage) Store.recorded_incident
          obtain h | h | h : n - (gather w inv s).states.length = 0 ∨ n - (gather w inv s).states.length = 1 ∨
              n - (gather w inv s).states.length = 2 := by omega
          · rw [h]
            exact ht.isOpen
          · rw [h]
            exact hone.isOpen
          · rw [h]
            exact htwo.isOpen
        · apply lastOf_of_forall ht.isOpen
          intro u hu
          apply (hconclude.states u (List.mem_of_mem_take hu)).2
          intro d hdecision
          rw [← Bool.not_eq_true]
          exact fun habstains => hd ⟨d, hdecision, habstains⟩
    · rw [hzero, List.take_zero, lastOf_nil]
      exact ⟨(hbefore n).1, fun hopen _ => (hbefore n).2 hopen⟩
  · rw [List.append_nil]
    exact ⟨(hbefore n).1, fun hopen _ => (hbefore n).2 hopen⟩

/-- An investigation that abstains leaves the run abstained. -/
theorem abstained_of_abstains {inv : Investigation} {n : Nat} (hs : s.incident = some i)
    (h : Abstains w inv s n) :
    ∃ j, (lastOf s ((investigate w inv s).states.take n)).incident = some j ∧ j.state = .abstained := by
  obtain ⟨evidence, d, hresult, hd, habstains, hn⟩ := h
  have ht : During s i 1 ((gather w inv s).last s) := by
    rcases (holds_gather w inv hs).result _ hresult with ⟨-, hnone⟩ | ht
    · exact nomatch hnone
    · exact ht
  obtain ⟨j, hj, -⟩ := ht.incident
  obtain ⟨c, e, k, l, hstates, hc, hk, he, hl⟩ := conclude_abstains habstains hj
  rw [investigate_states, hresult]
  dsimp only
  rw [hd, hstates, List.take_append, lastOf_append]
  obtain ⟨m, hm⟩ : ∃ m, n - (gather w inv s).states.length = m + 3 := ⟨_, (Nat.sub_add_cancel (by omega)).symm⟩
  rw [hm]
  cases m with
  | zero => exact ⟨k, hc, hk⟩
  | succ m =>
      refine ⟨l, ?_, hl⟩
      simp only [List.take_succ_cons, List.take_nil, lastOf_cons, lastOf_nil]
      exact he

end DurableEngine.IncidentAgent
