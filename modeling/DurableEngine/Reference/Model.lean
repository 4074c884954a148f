/-
  DurableEngine.Reference.Model

  The reference model of the property tests (`internal/reference/model.go`).

  `Validate` is kept by every operation together with what it leaves open: the
  hidden terminal revision is set exactly in the terminal states, a claimed
  attempt belongs to a waiting workflow, and reconciliation leaves no attempt
  to complete (`Coherent`).  The revision is an `int64`, so all of this lasts
  for `2 ^ 63 - 2` operations.
-/

import Mathlib

namespace DurableEngine.Reference

-- ============================================================================
-- Data
-- ============================================================================

inductive WorkflowState where
  | runnable
  | waitingActivity
  | reconciliationRequired
  | succeeded
  | failed
  | canceled
deriving DecidableEq, Repr

inductive AttemptState where
  | unclaimed
  | claimed
  | completed
  | timedOut
  | canceledAttempt
deriving DecidableEq, Repr

/-- An `EffectClass`: one of the constants or any other text. -/
inductive EffectClass where
  | pureEffect
  | cooperatingEffect
  | unknownEffect
  | other (text : String)
deriving DecidableEq, Repr

/-- An `OpKind`: one of the constants or any other byte. -/
inductive OpKind where
  | claim
  | complete
  | timeout
  | cancel
  | takeover
  | acknowledge
  | other (kind : UInt8)
deriving DecidableEq, Repr

structure Operation where
  kind : OpKind
  owner : String
  epoch : Int
  attempt : Int
  effect : EffectClass
  newOwner : String
deriving DecidableEq, Repr

structure Snapshot where
  state : WorkflowState
  revision : Int
  leaseOwner : String
  leaseEpoch : Int
  attemptNumber : Int
  attemptState : AttemptState
  effect : EffectClass
  outcomeUnknown : Bool
  resultAccepted : Bool
  acked : Bool
deriving DecidableEq, Repr

structure Model where
  snapshot : Snapshot
  terminalRevision : Int
deriving DecidableEq, Repr

inductive ApplyError where
  | staleLease
  | terminalWorkflow
  | invalidAttempt
  | notClaimed
  | alreadyApplied
deriving DecidableEq, Repr

/-- An `int64` counter after `++`. -/
def increment (n : Int) : Int := (n + 1).bmod (2 ^ 64)

/-- `New` -/
def Model.new : Model where
  snapshot :=
    { state := .runnable
      revision := 1
      leaseOwner := "owner-a"
      leaseEpoch := 1
      attemptNumber := 0
      attemptState := .unclaimed
      effect := .pureEffect
      outcomeUnknown := false
      resultAccepted := false
      acked := false }
  terminalRevision := 0

/-- The three states that `Cancel` and `Acknowledge` refuse. -/
def WorkflowState.terminal : WorkflowState → Bool
  | .succeeded | .failed | .canceled => true
  | _ => false

-- ============================================================================
-- Operations
-- ============================================================================

/-- The cases of `Apply` after the lease and the terminal revision are checked: the model the call
    leaves, and its error. -/
def Model.applyOwned (m : Model) (op : Operation) : Model × Option ApplyError :=
  let s := m.snapshot
  match op.kind with
  | .claim =>
      if s.state ≠ .runnable ∧ s.state ≠ .waitingActivity then (m, some .terminalWorkflow)
      else if s.attemptState = .claimed then (m, some .invalidAttempt)
      else if op.attempt ≠ 0 ∧ op.attempt ≠ increment s.attemptNumber then (m, some .invalidAttempt)
      else
        ({ m with snapshot := { s with
            attemptNumber := increment s.attemptNumber
            attemptState := .claimed
            state := .waitingActivity
            revision := increment s.revision } }, none)
  | .complete =>
      if op.attempt ≠ s.attemptNumber then (m, some .invalidAttempt)
      else if s.resultAccepted = true then (m, some .alreadyApplied)
      else if s.attemptState ≠ .claimed then (m, some .notClaimed)
      else
        ({ snapshot := { s with
            attemptState := .completed
            resultAccepted := true
            state := .succeeded
            revision := increment s.revision }
           terminalRevision := increment s.revision }, none)
  | .timeout =>
      if op.attempt ≠ s.attemptNumber ∨ s.attemptState ≠ .claimed then (m, some .invalidAttempt)
      else if op.effect = .unknownEffect then
        ({ m with snapshot := { s with
            attemptState := .timedOut
            revision := increment s.revision
            effect := .unknownEffect
            outcomeUnknown := true
            state := .reconciliationRequired } }, none)
      else
        ({ m with snapshot := { s with
            attemptState := .timedOut
            revision := increment s.revision
            state := .runnable } }, none)
  | .cancel =>
      if s.state.terminal = true then (m, some .terminalWorkflow)
      else
        let unknown := s.attemptState = .claimed ∧ op.effect ≠ .pureEffect
        ({ snapshot := { s with
            outcomeUnknown := if unknown then true else s.outcomeUnknown
            effect := if unknown then op.effect else s.effect
            attemptState := .canceledAttempt
            state := .canceled
            revision := increment s.revision }
           terminalRevision := increment s.revision }, none)
  | .acknowledge =>
      if s.state.terminal = true then (m, some .terminalWorkflow)
      else ({ m with snapshot := { s with acked := true } }, none)
  | .takeover | .other _ => (m, some .invalidAttempt)

/-- `Apply` -/
def Model.apply (m : Model) (op : Operation) : Model × Option ApplyError :=
  if op.kind = .takeover then
    if op.newOwner = "" ∨ op.epoch ≤ m.snapshot.leaseEpoch then (m, some .staleLease)
    else ({ m with snapshot := { m.snapshot with leaseOwner := op.newOwner, leaseEpoch := op.epoch } }, none)
  else if op.owner ≠ m.snapshot.leaseOwner ∨ op.epoch ≠ m.snapshot.leaseEpoch then (m, some .staleLease)
  else if m.terminalRevision ≠ 0 ∧ op.kind ≠ .acknowledge then (m, some .terminalWorkflow)
  else m.applyOwned op

/-- `Validate`: the text of its error. -/
def Model.validate (m : Model) : Option String :=
  let s := m.snapshot
  if s.revision < 1 ∨ s.leaseEpoch < 1 ∨ s.leaseOwner = "" then some "invalid durable identity"
  else if s.resultAccepted = true ∧ (s.attemptState ≠ .completed ∨ s.state ≠ .succeeded) then
    some "accepted result without completed attempt"
  else if s.outcomeUnknown = true ∧ s.effect = .pureEffect then
    some "pure activity has unknown external outcome"
  else if s.state = .reconciliationRequired ∧ s.outcomeUnknown = false then
    some "reconciliation state lacks unknown outcome"
  else if s.state = .succeeded ∧ s.resultAccepted = false then
    some "succeeded workflow lacks accepted result"
  else none

/-- The model after a sequence of operations, whatever they return. -/
def Model.run (m : Model) (ops : List Operation) : Model := ops.foldl (fun m op => (m.apply op).1) m

-- ============================================================================
-- What an accepted operation does
-- ============================================================================

variable {m m' : Model} {op : Operation} {n : Nat}

/-- `op` is accepted by `m` and leaves `m'`. -/
inductive Accepts (m : Model) (op : Operation) : Model → Prop where
  | takeover (kind : op.kind = .takeover) (owner : op.newOwner ≠ "") (epoch : m.snapshot.leaseEpoch < op.epoch) :
      Accepts m op { m with snapshot := { m.snapshot with leaseOwner := op.newOwner, leaseEpoch := op.epoch } }
  | claim (kind : op.kind = .claim) (running : m.terminalRevision = 0)
      (state : m.snapshot.state = .runnable ∨ m.snapshot.state = .waitingActivity) :
      Accepts m op { m with snapshot := { m.snapshot with
        attemptNumber := increment m.snapshot.attemptNumber
        attemptState := .claimed
        state := .waitingActivity
        revision := increment m.snapshot.revision } }
  | complete (kind : op.kind = .complete) (running : m.terminalRevision = 0)
      (claimed : m.snapshot.attemptState = .claimed) :
      Accepts m op
        { snapshot := { m.snapshot with
            attemptState := .completed
            resultAccepted := true
            state := .succeeded
            revision := increment m.snapshot.revision }
          terminalRevision := increment m.snapshot.revision }
  | reconcile (kind : op.kind = .timeout) (running : m.terminalRevision = 0)
      (claimed : m.snapshot.attemptState = .claimed) :
      Accepts m op { m with snapshot := { m.snapshot with
        attemptState := .timedOut
        revision := increment m.snapshot.revision
        effect := .unknownEffect
        outcomeUnknown := true
        state := .reconciliationRequired } }
  | timeout (kind : op.kind = .timeout) (running : m.terminalRevision = 0)
      (claimed : m.snapshot.attemptState = .claimed) :
      Accepts m op { m with snapshot := { m.snapshot with
        attemptState := .timedOut
        revision := increment m.snapshot.revision
        state := .runnable } }
  | cancel (kind : op.kind = .cancel) (running : m.snapshot.state.terminal = false) (unknown : Bool)
      (impure : unknown = true → op.effect ≠ .pureEffect) :
      Accepts m op
        { snapshot := { m.snapshot with
            outcomeUnknown := if unknown then true else m.snapshot.outcomeUnknown
            effect := if unknown then op.effect else m.snapshot.effect
            attemptState := .canceledAttempt
            state := .canceled
            revision := increment m.snapshot.revision }
          terminalRevision := increment m.snapshot.revision }
  | acknowledge (kind : op.kind = .acknowledge) (running : m.snapshot.state.terminal = false) :
      Accepts m op { m with snapshot := { m.snapshot with acked := true } }

theorem applyOwned_cases (m : Model) (op : Operation) (hrunning : m.terminalRevision = 0 ∨ op.kind = .acknowledge) :
    (m.applyOwned op).1 = m ∧ (m.applyOwned op).2 ≠ none ∨
      Accepts m op (m.applyOwned op).1 ∧ (m.applyOwned op).2 = none := by
  have hopen : op.kind ≠ .acknowledge → m.terminalRevision = 0 := fun hkind => hrunning.resolve_right hkind
  unfold Model.applyOwned
  dsimp only
  split
  · rename_i hkind
    split
    · exact Or.inl ⟨rfl, nofun⟩
    · rename_i hstate
      rw [not_and_or, not_not, not_not] at hstate
      split
      · exact Or.inl ⟨rfl, nofun⟩
      · split
        · exact Or.inl ⟨rfl, nofun⟩
        · exact Or.inr ⟨.claim hkind (hopen (by rw [hkind]; nofun)) hstate, rfl⟩
  · rename_i hkind
    split
    · exact Or.inl ⟨rfl, nofun⟩
    · split
      · exact Or.inl ⟨rfl, nofun⟩
      · split
        · exact Or.inl ⟨rfl, nofun⟩
        · rename_i hclaimed
          exact Or.inr ⟨.complete hkind (hopen (by rw [hkind]; nofun)) (not_not.mp hclaimed), rfl⟩
  · rename_i hkind
    split
    · exact Or.inl ⟨rfl, nofun⟩
    · rename_i hclaimed
      rw [not_or, not_not, not_not] at hclaimed
      split
      · exact Or.inr ⟨.reconcile hkind (hopen (by rw [hkind]; nofun)) hclaimed.2, rfl⟩
      · exact Or.inr ⟨.timeout hkind (hopen (by rw [hkind]; nofun)) hclaimed.2, rfl⟩
  · rename_i hkind
    split
    · exact Or.inl ⟨rfl, nofun⟩
    · rename_i hstate
      refine Or.inr ⟨?_, rfl⟩
      have haccepts := Accepts.cancel (m := m) hkind (Bool.eq_false_iff.mpr hstate)
        (decide (m.snapshot.attemptState = .claimed ∧ op.effect ≠ .pureEffect))
        (fun h => (of_decide_eq_true h).2)
      simpa only [decide_eq_true_eq] using haccepts
  · rename_i hkind
    split
    · exact Or.inl ⟨rfl, nofun⟩
    · rename_i hstate
      exact Or.inr ⟨.acknowledge hkind (Bool.eq_false_iff.mpr hstate), rfl⟩
  · exact Or.inl ⟨rfl, nofun⟩
  · exact Or.inl ⟨rfl, nofun⟩

/-- `Apply` refuses and leaves the model, or accepts. -/
theorem apply_cases (m : Model) (op : Operation) :
    (m.apply op).1 = m ∧ (m.apply op).2 ≠ none ∨ Accepts m op (m.apply op).1 ∧ (m.apply op).2 = none := by
  unfold Model.apply
  split
  · rename_i hkind
    split
    · exact Or.inl ⟨rfl, nofun⟩
    · rename_i htake
      rw [not_or] at htake
      exact Or.inr ⟨.takeover hkind htake.1 (by omega), rfl⟩
  · split
    · exact Or.inl ⟨rfl, nofun⟩
    · split
      · exact Or.inl ⟨rfl, nofun⟩
      · rename_i hended
        rw [not_and_or, not_not, not_not] at hended
        exact applyOwned_cases m op hended

-- ============================================================================
-- The invariant
-- ============================================================================

/-- What holds of the model after at most `n` operations. -/
structure Coherent (n : Nat) (m : Model) : Prop where
  revision : 1 ≤ m.snapshot.revision ∧ m.snapshot.revision ≤ n + 1
  epoch : 1 ≤ m.snapshot.leaseEpoch
  owner : m.snapshot.leaseOwner ≠ ""
  terminal : m.terminalRevision ≠ 0 ↔ m.snapshot.state.terminal = true
  accepted : m.snapshot.resultAccepted = true ↔ m.snapshot.state = .succeeded
  completed : m.snapshot.state = .succeeded → m.snapshot.attemptState = .completed
  claimed : m.snapshot.attemptState = .claimed → m.snapshot.state = .waitingActivity
  unknown : m.snapshot.outcomeUnknown = true → m.snapshot.effect ≠ .pureEffect
  reconciliation : m.snapshot.state = .reconciliationRequired → m.snapshot.outcomeUnknown = true

theorem coherent_new : Coherent 0 Model.new := by
  constructor <;> decide

theorem increment_of_lt {k : Int} (hk : 0 ≤ k) (hlt : k < 2 ^ 63 - 1) : increment k = k + 1 :=
  Int.bmod_eq_of_le_mul_two (by omega) (by omega)

theorem Coherent.mono (h : Coherent n m) : Coherent (n + 1) m :=
  { h with revision := ⟨h.revision.1, by have := h.revision.2; omega⟩ }

/-- The revision after an operation that raises it. -/
theorem Coherent.increment (h : Coherent n m) (hn : n + 1 < 2 ^ 63 - 1) :
    increment m.snapshot.revision = m.snapshot.revision + 1 := by
  have hrevision := h.revision
  exact increment_of_lt (by omega) (by omega)

theorem Coherent.accepts (h : Coherent n m) (hn : n + 1 < 2 ^ 63 - 1) (haccepts : Accepts m op m') :
    Coherent (n + 1) m' := by
  have hrevision := h.revision
  have hraised : 1 ≤ Reference.increment m.snapshot.revision ∧
      Reference.increment m.snapshot.revision ≤ (n + 1 : Nat) + 1 := by
    rw [h.increment hn]
    omega
  have hset : Reference.increment m.snapshot.revision ≠ 0 := by omega
  cases haccepts with
  | takeover kind owner epoch =>
      have hepoch := h.epoch
      refine { h.mono with epoch := ?_, owner := owner }
      show 1 ≤ op.epoch
      omega
  | claim kind running state =>
      have hnot : m.snapshot.resultAccepted ≠ true := by
        rw [ne_eq, h.accepted]
        rcases state with state | state <;> rw [state] <;> nofun
      exact
        { revision := hraised
          epoch := h.epoch
          owner := h.owner
          terminal := ⟨fun hne => absurd running hne, nofun⟩
          accepted := ⟨fun haccepted => absurd haccepted hnot, nofun⟩
          completed := nofun
          claimed := fun _ => rfl
          unknown := h.unknown
          reconciliation := nofun }
  | complete kind running claimed =>
      exact
        { revision := hraised
          epoch := h.epoch
          owner := h.owner
          terminal := ⟨fun _ => rfl, fun _ => hset⟩
          accepted := ⟨fun _ => rfl, fun _ => rfl⟩
          completed := fun _ => rfl
          claimed := nofun
          unknown := h.unknown
          reconciliation := nofun }
  | reconcile kind running claimed =>
      have hnot : m.snapshot.resultAccepted ≠ true := by
        rw [ne_eq, h.accepted, h.claimed claimed]
        nofun
      exact
        { revision := hraised
          epoch := h.epoch
          owner := h.owner
          terminal := ⟨fun hne => absurd running hne, nofun⟩
          accepted := ⟨fun haccepted => absurd haccepted hnot, nofun⟩
          completed := nofun
          claimed := nofun
          unknown := nofun
          reconciliation := fun _ => rfl }
  | timeout kind running claimed =>
      have hnot : m.snapshot.resultAccepted ≠ true := by
        rw [ne_eq, h.accepted, h.claimed claimed]
        nofun
      exact
        { revision := hraised
          epoch := h.epoch
          owner := h.owner
          terminal := ⟨fun hne => absurd running hne, nofun⟩
          accepted := ⟨fun haccepted => absurd haccepted hnot, nofun⟩
          completed := nofun
          claimed := nofun
          unknown := h.unknown
          reconciliation := nofun }
  | cancel kind running unknown impure =>
      have hnot : m.snapshot.resultAccepted ≠ true := by
        rw [ne_eq, h.accepted]
        intro hstate
        rw [hstate] at running
        exact nomatch running
      refine
        { revision := hraised
          epoch := h.epoch
          owner := h.owner
          terminal := ⟨fun _ => rfl, fun _ => hset⟩
          accepted := ⟨fun haccepted => absurd haccepted hnot, nofun⟩
          completed := nofun
          claimed := nofun
          unknown := ?_
          reconciliation := nofun }
      cases unknown with
      | false => exact h.unknown
      | true => exact fun _ => impure rfl
  | acknowledge kind running => exact { h.mono with }

/-- One operation keeps the invariant. -/
theorem Coherent.apply (h : Coherent n m) (hn : n + 1 < 2 ^ 63 - 1) (op : Operation) :
    Coherent (n + 1) (m.apply op).1 := by
  rcases apply_cases m op with ⟨hsame, -⟩ | ⟨haccepts, -⟩
  · rw [hsame]
    exact h.mono
  · exact h.accepts hn haccepts

/-- A run of operations keeps it. -/
theorem Coherent.run (h : Coherent n m) (ops : List Operation) (hn : n + ops.length < 2 ^ 63 - 1) :
    Coherent (n + ops.length) (m.run ops) := by
  induction ops generalizing n m with
  | nil => exact h
  | cons op ops ih =>
      rw [List.length_cons] at hn ⊢
      have hnext := ih (h.apply (by omega) op) (by omega)
      rw [show n + 1 + ops.length = n + (ops.length + 1) by omega] at hnext
      exact hnext

/-- The invariant says what `Validate` checks. -/
theorem Coherent.validate (h : Coherent n m) : m.validate = none := by
  unfold Model.validate
  dsimp only
  rw [if_neg, if_neg, if_neg, if_neg, if_neg]
  · rintro ⟨hstate, hnot⟩
    rw [h.accepted.mpr hstate] at hnot
    exact nomatch hnot
  · rintro ⟨hstate, hnot⟩
    rw [h.reconciliation hstate] at hnot
    exact nomatch hnot
  · exact fun hpure => h.unknown hpure.1 hpure.2
  · rintro ⟨haccepted, hnot | hnot⟩
    · exact hnot (h.completed (h.accepted.mp haccepted))
    · exact hnot (h.accepted.mp haccepted)
  · have hrevision := h.revision
    have hepoch := h.epoch
    have howner := h.owner
    rintro (hlow | hlow | hempty)
    · omega
    · omega
    · exact howner hempty

-- ============================================================================
-- Progress
-- ============================================================================

/-- `m'` is `m` or a later model of its run. -/
structure Later (m m' : Model) : Prop where
  revision : m.snapshot.revision ≤ m'.snapshot.revision
  epoch : m.snapshot.leaseEpoch ≤ m'.snapshot.leaseEpoch
  resultAccepted : m.snapshot.resultAccepted = true → m'.snapshot.resultAccepted = true
  outcomeUnknown : m.snapshot.outcomeUnknown = true → m'.snapshot.outcomeUnknown = true
  acked : m.snapshot.acked = true → m'.snapshot.acked = true
  ended : m.snapshot.state = .succeeded ∨ m.snapshot.state = .canceled →
    m'.snapshot = { m.snapshot with leaseOwner := m'.snapshot.leaseOwner, leaseEpoch := m'.snapshot.leaseEpoch }

theorem Later.refl (m : Model) : Later m m := ⟨Int.le_refl _, Int.le_refl _, id, id, id, fun _ => rfl⟩

theorem Later.trans {m'' : Model} (h : Later m m') (h' : Later m' m'') : Later m m'' := by
  refine ⟨Int.le_trans h.revision h'.revision, Int.le_trans h.epoch h'.epoch, fun ha => h'.resultAccepted (h.resultAccepted ha),
    fun ha => h'.outcomeUnknown (h.outcomeUnknown ha), fun ha => h'.acked (h.acked ha), fun hstate => ?_⟩
  have hfirst := h.ended hstate
  have hsecond := h'.ended (by rw [hfirst]; exact hstate)
  rw [hsecond, hfirst]

theorem Coherent.later_accepts (h : Coherent n m) (hn : n + 1 < 2 ^ 63 - 1) (haccepts : Accepts m op m') :
    Later m m' := by
  have hup : m.snapshot.revision ≤ Reference.increment m.snapshot.revision := by
    rw [h.increment hn]
    omega
  have hopen : m.snapshot.state.terminal = false →
      ¬ (m.snapshot.state = .succeeded ∨ m.snapshot.state = .canceled) := by
    intro hrunning hstate
    rcases hstate with hstate | hstate <;> rw [hstate] at hrunning <;> exact nomatch hrunning
  have hrunning : m.terminalRevision = 0 → m.snapshot.state.terminal = false := by
    intro hzero
    rw [Bool.eq_false_iff]
    exact fun hterminal => h.terminal.mpr hterminal hzero
  cases haccepts with
  | takeover kind owner epoch => exact ⟨Int.le_refl _, Int.le_of_lt epoch, id, id, id, fun _ => rfl⟩
  | claim kind running state =>
      exact ⟨hup, Int.le_refl _, id, id, id, fun hstate => absurd hstate (hopen (hrunning running))⟩
  | complete kind running claimed =>
      exact ⟨hup, Int.le_refl _, fun _ => rfl, id, id, fun hstate => absurd hstate (hopen (hrunning running))⟩
  | reconcile kind running claimed =>
      exact ⟨hup, Int.le_refl _, id, fun _ => rfl, id, fun hstate => absurd hstate (hopen (hrunning running))⟩
  | timeout kind running claimed =>
      exact ⟨hup, Int.le_refl _, id, id, id, fun hstate => absurd hstate (hopen (hrunning running))⟩
  | cancel kind running unknown impure =>
      refine ⟨hup, Int.le_refl _, id, fun hunknown => ?_, id, fun hstate => absurd hstate (hopen running)⟩
      show (if unknown = true then true else m.snapshot.outcomeUnknown) = true
      rw [hunknown]
      exact ite_self true
  | acknowledge kind running =>
      exact ⟨Int.le_refl _, Int.le_refl _, id, id, fun _ => rfl, fun hstate => absurd hstate (hopen running)⟩

theorem Coherent.later (h : Coherent n m) (hn : n + 1 < 2 ^ 63 - 1) (op : Operation) : Later m (m.apply op).1 := by
  rcases apply_cases m op with ⟨hsame, -⟩ | ⟨haccepts, -⟩
  · rw [hsame]
    exact Later.refl m
  · exact h.later_accepts hn haccepts

theorem Coherent.later_run (h : Coherent n m) (ops : List Operation) (hn : n + ops.length < 2 ^ 63 - 1) :
    Later m (m.run ops) := by
  induction ops generalizing n m with
  | nil => exact Later.refl m
  | cons op ops ih =>
      rw [List.length_cons] at hn
      exact (h.later (by omega) op).trans (ih (h.apply (by omega) op) (by omega))

-- ============================================================================
-- Reconciliation
-- ============================================================================

/-- The workflow waits for its reconciliation or was canceled. -/
def Model.Stopped (m : Model) : Prop :=
  m.snapshot.state = .reconciliationRequired ∨ m.snapshot.state = .canceled

/-- What such a workflow accepts is no claim and no completion, and leaves it as it is or canceled. -/
theorem Coherent.stopped_accepts (h : Coherent n m) (hstopped : m.Stopped) (haccepts : Accepts m op m') :
    m'.Stopped ∧ op.kind ≠ .claim ∧ op.kind ≠ .complete := by
  have hclaimed : m.snapshot.attemptState ≠ .claimed := by
    intro hclaimed
    rcases hstopped with hstate | hstate <;> rw [h.claimed hclaimed] at hstate <;> exact nomatch hstate
  cases haccepts with
  | takeover kind owner epoch => exact ⟨hstopped, by rw [kind]; nofun, by rw [kind]; nofun⟩
  | claim kind running state =>
      rcases hstopped with hstate | hstate <;> rw [hstate] at state <;> exact (state.elim nofun nofun)
  | complete kind running claimed => exact absurd claimed hclaimed
  | reconcile kind running claimed => exact absurd claimed hclaimed
  | timeout kind running claimed => exact absurd claimed hclaimed
  | cancel kind running unknown impure => exact ⟨Or.inr rfl, by rw [kind]; nofun, by rw [kind]; nofun⟩
  | acknowledge kind running => exact ⟨hstopped, by rw [kind]; nofun, by rw [kind]; nofun⟩

theorem Coherent.stopped (h : Coherent n m) (hstopped : m.Stopped) (op : Operation) :
    (m.apply op).1.Stopped ∧ (op.kind = .claim ∨ op.kind = .complete → (m.apply op).2 ≠ none) := by
  rcases apply_cases m op with ⟨hsame, herror⟩ | ⟨haccepts, -⟩
  · rw [hsame]
    exact ⟨hstopped, fun _ => herror⟩
  · obtain ⟨hnext, hclaim, hcomplete⟩ := h.stopped_accepts hstopped haccepts
    exact ⟨hnext, fun hkind => absurd hkind (not_or.mpr ⟨hclaim, hcomplete⟩)⟩

theorem Coherent.stopped_run (h : Coherent n m) (hstopped : m.Stopped) (ops : List Operation)
    (hn : n + ops.length < 2 ^ 63 - 1) : (m.run ops).Stopped := by
  induction ops generalizing n m with
  | nil => exact hstopped
  | cons op ops ih =>
      rw [List.length_cons] at hn
      exact ih (h.apply (by omega) op) (h.stopped hstopped op).1 (by omega)

-- ============================================================================
-- Safety
-- ============================================================================

/-- What one operation does to `m`. -/
structure StepSafe (m : Model) (op : Operation) : Prop where
  valid : (m.apply op).1.validate = none
  unchanged : (m.apply op).2 ≠ none → (m.apply op).1.snapshot = m.snapshot
  takeover : op.kind = .takeover → (m.apply op).2 = none →
    m.snapshot.leaseEpoch < (m.apply op).1.snapshot.leaseEpoch

theorem Coherent.stepSafe (h : Coherent n m) (hn : n + 1 < 2 ^ 63 - 1) (op : Operation) : StepSafe m op := by
  refine ⟨(h.apply hn op).validate, fun herror => ?_, fun hkind hok => ?_⟩
  · rcases apply_cases m op with ⟨hsame, -⟩ | ⟨-, hok⟩
    · rw [hsame]
    · exact absurd hok herror
  · have haccepts : Accepts m op (m.apply op).1 := by
      rcases apply_cases m op with ⟨-, herror⟩ | ⟨haccepts, -⟩
      · exact absurd hok herror
      · exact haccepts
    generalize (m.apply op).1 = m' at haccepts
    cases haccepts with
    | takeover _ _ epoch => exact epoch
    | _ kind => exact absurd (hkind.symm.trans kind) nofun

theorem run_append (m : Model) (ops more : List Operation) : m.run (ops ++ more) = (m.run ops).run more :=
  List.foldl_append

/-- The model is safe in a run of fewer operations than it takes the revision to overflow: every step
    is, the counters and the flags only move forward, and no claim or completion is accepted once
    reconciliation was required. -/
theorem model_safe (ops : List Operation) (h : ops.length < 2 ^ 63 - 1) :
    (∀ before op after, ops = before ++ op :: after → StepSafe (Model.new.run before) op) ∧
    (∀ before next after, ops = before ++ (next ++ after) →
      Later (Model.new.run before) (Model.new.run (before ++ next))) ∧
    (∀ before next op after, ops = before ++ (next ++ op :: after) →
      (Model.new.run before).snapshot.state = .reconciliationRequired →
      op.kind = .claim ∨ op.kind = .complete → ((Model.new.run (before ++ next)).apply op).2 ≠ none) := by
  have hlength : ∀ {before after : List Operation}, ops = before ++ after →
      before.length + after.length < 2 ^ 63 - 1 := by
    intro before after hops
    rwa [hops, List.length_append] at h
  have hrun : ∀ {before after : List Operation}, ops = before ++ after →
      Coherent before.length (Model.new.run before) := by
    intro before after hops
    have hall := coherent_new.run before (by have := hlength hops; omega)
    rwa [Nat.zero_add] at hall
  refine ⟨fun before op after hops => ?_, fun before next after hops => ?_, fun before next op after hops hstate => ?_⟩
  · have hn := hlength hops
    rw [List.length_cons] at hn
    exact (hrun hops).stepSafe (by omega) op
  · have hn := hlength hops
    rw [List.length_append] at hn
    rw [run_append]
    exact (hrun hops).later_run next (by omega)
  · have hn := hlength hops
    rw [List.length_append, List.length_cons] at hn
    have hmiddle : Coherent (before ++ next).length (Model.new.run (before ++ next)) :=
      @hrun _ (op :: after) (by rw [hops, List.append_assoc])
    have hstopped : (Model.new.run (before ++ next)).Stopped := by
      rw [run_append]
      exact (hrun hops).stopped_run (Or.inl hstate) next (by omega)
    exact (hmiddle.stopped hstopped op).2

theorem model_safe_takeover :
    StepSafe (Model.new.run [⟨.claim, "owner-a", 1, 0, .pureEffect, ""⟩])
      ⟨.takeover, "", 2, 0, .pureEffect, "owner-b"⟩ :=
  (model_safe [⟨.claim, "owner-a", 1, 0, .pureEffect, ""⟩, ⟨.takeover, "", 2, 0, .pureEffect, "owner-b"⟩]
    (by decide)).1 _ _ [] rfl

-- ============================================================================
-- Overflow
-- ============================================================================

def claimNext : Operation := ⟨.claim, "owner-a", 1, 0, .pureEffect, ""⟩

def timeOut (attempt : Nat) : Operation := ⟨.timeout, "owner-a", 1, attempt, .pureEffect, ""⟩

/-- `n` attempts that are claimed and time out, one after another. -/
def churn : Nat → List Operation
  | 0 => []
  | n + 1 => churn n ++ [claimNext, timeOut (n + 1)]

/-- The model after them. -/
def churned (n : Nat) : Model where
  snapshot :=
    { Model.new.snapshot with
      revision := 2 * n + 1
      attemptNumber := n
      attemptState := if n = 0 then .unclaimed else .timedOut }
  terminalRevision := 0

/-- The model after them and one more claim. -/
def reclaimed (n : Nat) : Model where
  snapshot :=
    { Model.new.snapshot with
      state := .waitingActivity
      revision := increment (2 * n + 1)
      attemptNumber := increment n
      attemptState := .claimed }
  terminalRevision := 0

/-- The owner's operation on a model that has not ended. -/
theorem apply_owned (hkind : op.kind ≠ .takeover) (howner : op.owner = m.snapshot.leaseOwner)
    (hepoch : op.epoch = m.snapshot.leaseEpoch) (hrunning : m.terminalRevision = 0) :
    m.apply op = m.applyOwned op := by
  unfold Model.apply
  rw [if_neg hkind, if_neg (not_or.mpr ⟨not_not.mpr howner, not_not.mpr hepoch⟩),
    if_neg (fun h => h.1 hrunning)]

theorem apply_claimNext (n : Nat) : (churned n).apply claimNext = (reclaimed n, none) := by
  have hfree : (churned n).snapshot.attemptState ≠ .claimed := by
    show (if n = 0 then AttemptState.unclaimed else .timedOut) ≠ .claimed
    split <;> nofun
  have hstate : ¬ ((churned n).snapshot.state ≠ .runnable ∧ (churned n).snapshot.state ≠ .waitingActivity) :=
    fun h => h.1 rfl
  have hattempt : ¬ (claimNext.attempt ≠ 0 ∧ claimNext.attempt ≠ increment (churned n).snapshot.attemptNumber) :=
    fun h => h.1 rfl
  have hkind : claimNext.kind = .claim := rfl
  rw [apply_owned (by rw [hkind]; nofun) rfl rfl rfl]
  unfold Model.applyOwned
  rw [hkind]
  dsimp only
  rw [if_neg hstate, if_neg hfree, if_neg hattempt]
  rfl

theorem apply_timeOut (n : Nat) (h : n + 1 < 2 ^ 62) :
    (reclaimed n).apply (timeOut (n + 1)) = (churned (n + 1), none) := by
  have hnumber : increment n = (n + 1 : Nat) := by
    rw [increment_of_lt (by omega) (by omega)]
    rfl
  have hattempt : ¬ ((timeOut (n + 1)).attempt ≠ (reclaimed n).snapshot.attemptNumber ∨
      (reclaimed n).snapshot.attemptState ≠ .claimed) := by
    unfold timeOut reclaimed
    dsimp only
    rw [hnumber]
    exact fun h => h.elim (fun h => h rfl) (fun h => h rfl)
  have heffect : ¬ (timeOut (n + 1)).effect = .unknownEffect := nofun
  have hkind : (timeOut (n + 1)).kind = .timeout := rfl
  have hrevision : increment (increment (2 * n + 1)) = 2 * (n + 1 : Nat) + 1 := by
    rw [increment_of_lt (k := 2 * n + 1) (by omega) (by omega), increment_of_lt (by omega) (by omega)]
    omega
  rw [apply_owned (by rw [hkind]; nofun) rfl rfl rfl]
  unfold Model.applyOwned
  rw [hkind]
  dsimp only
  rw [if_neg hattempt, if_neg heffect]
  unfold reclaimed churned
  dsimp only
  rw [hrevision, hnumber, if_neg (Nat.succ_ne_zero n)]
  rfl

theorem run_churn (n : Nat) (h : n < 2 ^ 62) : Model.new.run (churn n) = churned n := by
  induction n with
  | zero => rfl
  | succ n ih =>
      rw [churn, run_append, ih (by omega)]
      show (((churned n).apply claimNext).1.apply (timeOut (n + 1))).1 = churned (n + 1)
      rw [apply_claimNext, apply_timeOut n h]

/-- The revision wraps around after `2 ^ 63 - 1` operations that raise it. -/
theorem revision_overflows :
    ((Model.new.run (churn (2 ^ 62 - 1))).apply claimNext).1.validate = some "invalid durable identity" ∧
    ((Model.new.run (churn (2 ^ 62 - 1))).apply claimNext).1.snapshot.revision <
      (Model.new.run (churn (2 ^ 62 - 1))).snapshot.revision := by
  rw [run_churn (2 ^ 62 - 1) (by decide), apply_claimNext]
  exact ⟨by decide, by decide⟩

end DurableEngine.Reference
