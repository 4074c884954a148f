/-
  DurableEngine.State.Admission

  The admission gate: the slots of a gated namespace are those of its live
  workflows, and there are never more of them than the limit.

  A slot is taken by the insert that creates its workflow, under the
  namespace's lock, and deleted by the transition that ends it.  The capacity
  is read before the insert; between the two the lock keeps every other
  submission out, so slots can only become fewer.
-/

import DurableEngine.State.Idempotency

namespace DurableEngine.State

open Lib

/-- The namespace has neither workflows nor slots. -/
structure EmptyNamespace (db : DB) (ns : String) : Prop where
  workflows : ∀ id w, db.workflows.get id = some w → w.namespace_ ≠ ns
  slots : db.slotsOf ns = []

/-- The gate's bookkeeping for one namespace. -/
structure AdmissionBound (env : Env) (db : DB) (ns : String) : Prop where
  exact : ∀ id, (∃ slot, db.admissionSlots.get id = some slot ∧ slot.namespace_ = ns) ↔
    ∃ w, db.workflows.get id = some w ∧ w.namespace_ = ns ∧ w.state.isTerminal = false
  bounded : ((db.slotsOf ns).length : Int) ≤ env.admission.maxActiveWorkflows

theorem mem_slotsOf {db : DB} {ns : String} {slot : AdmissionSlot} :
    slot ∈ db.slotsOf ns ↔
      db.admissionSlots.get slot.workflowID = some slot ∧ slot.namespace_ = ns := by
  rw [DB.slotsOf, Table.mem_select, Table.mem_rows_iff]
  simp

theorem EmptyNamespace.bound {env : Env} {db : DB} {ns : String} (h : EmptyNamespace db ns)
    (hgates : env.gates ns = true) : AdmissionBound env db ns where
  exact id := by
    constructor
    · rintro ⟨slot, hslot, hns⟩
      have hmem : slot ∈ db.slotsOf ns :=
        mem_slotsOf.mpr ⟨by rw [Table.key_of_get hslot]; exact hslot, hns⟩
      rw [h.slots] at hmem
      cases hmem
    · rintro ⟨w, hw, hns, -⟩
      exact absurd hns (h.workflows id w hw)
  bounded := by
    simp only [Env.gates, AdmissionGateConfig.enabled, Bool.and_eq_true, decide_eq_true_eq] at hgates
    rw [h.slots, List.length_nil]
    omega

theorem AdmissionBound.commit {env : Env} {db db' : DB} {ns : String} {α : Type} {op : Op α}
    (h : AdmissionBound env db ns) (hgates : env.gates ns = true) (hc : Commit env db op db') :
    AdmissionBound env db' ns where
  exact id := by
    constructor
    · rintro ⟨slot', hslot', hns⟩
      cases hslot : db.admissionSlots.get id with
      | none =>
          obtain ⟨-, -, w, hw, hwns, hlive⟩ := hc.slots.fresh id slot' hslot hslot'
          exact ⟨w, hw, hwns.trans hns, hlive⟩
      | some slot =>
          obtain rfl := hc.slots.unchanged id slot slot' hslot hslot'
          obtain ⟨w, hw, hwns, hlive⟩ := (h.exact id).mp ⟨slot', hslot, hns⟩
          obtain ⟨w', hw', hwns', -⟩ := hc.change.submission_kept hw
          refine ⟨w', hw', hwns'.trans hwns, ?_⟩
          -- an ended workflow has given its slot back
          by_contra hend
          have hgone := hc.slots.ended id w w' hw hlive hw' (by simpa using hend)
            (by rw [hwns]; exact hgates)
          rw [hgone] at hslot'
          cases hslot'
    · rintro ⟨w', hw', hns, hlive'⟩
      obtain ⟨w, hw, hwns, hlive⟩ | ⟨-, -, -, hnone⟩ := hc.change.workflow_origin hw'
      · obtain ⟨slot, hslot, hslotns⟩ :=
          (h.exact id).mpr ⟨w, hw, hwns.symm.trans hns, hlive hlive'⟩
        obtain hkept | ⟨w'', hw'', hend⟩ := hc.slots.kept id slot hslot
        · exact ⟨slot, hkept, hslotns⟩
        · rw [hw', Option.some.injEq] at hw''
          rw [← hw'', hlive'] at hend
          cases hend
      · have hslot := hc.slots.admitted id w' hnone hw' (by rw [hns]; exact hgates)
        exact ⟨_, hslot, hns⟩
  bounded := by
    have hbefore := h.bounded
    obtain hle | ⟨hle, -⟩ := hc.slots.bounded ns
    · omega
    · exact hle

theorem AdmissionBound.evolves {env : Env} {db db' : DB} {ns : String}
    (h : AdmissionBound env db ns) (hgates : env.gates ns = true) (he : Evolves env db db') :
    AdmissionBound env db' ns := by
  cases he with
  | same => exact h
  | tick d => exact ⟨h.exact, h.bounded⟩
  | commit op hc _ => exact h.commit hgates hc
  | created input n event _ hroom hsubmits => exact h.commit hgates (hsubmits.commit hroom)

theorem Reachable.admissionBound {env : Env} {db : DB} (h : Reachable env db) {ns : String}
    (hgates : env.gates ns = true) : AdmissionBound env db ns := by
  refine h.induction (I := fun db => AdmissionBound env db ns)
    (fun _ => EmptyNamespace.bound ⟨fun _ _ hw => (nomatch hw), rfl⟩ hgates) ?_
  intro db db' hi hs
  cases hs with
  | tick d => exact ⟨hi.exact, hi.bounded⟩
  | commit amb op r hrun => exact hi.commit hgates (Op.run_commit hrun)

/-- A live workflow of a gated namespace has its slot. -/
theorem AdmissionBound.slot {env : Env} {db : DB} {ns id : String} {w : Workflow}
    (h : AdmissionBound env db ns) (hw : db.workflows.get id = some w) (hns : w.namespace_ = ns)
    (hlive : w.state.isTerminal = false) : db.admissionSlots.get id = some ⟨id, ns⟩ := by
  obtain ⟨slot, hslot, hslotns⟩ := (h.exact id).mpr ⟨w, hw, hns, hlive⟩
  have hkey : slot.workflowID = id := Table.key_of_get hslot
  rw [hslot, ← hkey, ← hslotns]

/-- In every run from an empty gated namespace its slots are exactly its live workflows, within
    the limit, and the release of a live workflow's slot succeeds. -/
theorem admission_bound {env : Env} {db₀ : DB} {ns : String} {replies : List Reply}
    {s : Submissions} (henabled : env.admission.enabled = true)
    (hgated : isDur050Namespace ns = true) (hempty : EmptyNamespace db₀ ns)
    (h : Submissions.Run env (Submissions.start db₀) replies s) :
    AdmissionBound env s.db ns ∧
    ∀ id w db₁ newState, s.db.workflows.get id = some w → w.namespace_ = ns →
      w.state.isTerminal = false → db₁.admissionSlots = s.db.admissionSlots →
      ∃ db₂, releaseAdmissionSlotTx env db₁ ns w.workflowID w.state newState = .ok db₂ := by
  have hgates : env.gates ns = true := by rw [Env.gates, henabled, hgated]; rfl
  have hbound : AdmissionBound env s.db ns :=
    (h.invariant (I := fun db => AdmissionBound env db ns) (hempty.bound hgates)
      (fun _ _ hi he => hi.evolves hgates he)).1
  refine ⟨hbound, fun id w db₁ newState hw hns hlive hslots => ?_⟩
  have hid : w.workflowID = id := Table.key_of_get hw
  have hrelease : Succeeds (fun db' => ∃ slots, db' = { db₁ with admissionSlots := slots })
      (releaseAdmissionSlotTx env db₁ ns w.workflowID w.state newState) := by
    refine releaseAdmissionSlotTx_succeeds (fun _ _ _ => ?_)
    rw [hslots, hid]
    exact hbound.slot hw hns hlive
  obtain ⟨db₂, hok, -⟩ := hrelease
  exact ⟨db₂, hok⟩

/-- A deployment whose gate admits one workflow at a time. -/
def Env.narrow : Env := { Env.plain with admission := ⟨1, 100⟩ }

/-- A submission to a gated namespace. -/
def gatedWorkflow (workflowID key : String) : CreateWorkflowInput := { soloWorkflow with
  workflowID := workflowID
  namespace_ := "dur050-x"
  submissionKey := key
  partitionID := partitionOf workflowID }

/-- The second request meets a full namespace, and gets in once the first workflow is canceled. -/
def gateScript : List Submissions.Move := [
  .call (.createDefinition soloDefinition), .arrive (gatedWorkflow "w" "k1"),
  .arrive (gatedWorkflow "v" "k2"), .next 1, .next 1, .next 0, .next 1, .next 1, .next 0, .next 0,
  .call (.acquireLease 0 (uuidOf 8 0) 1000),
  .call (.cancelWorkflow ⟨soloLease, "w", 1, "scheduler"⟩),
  .arrive (gatedWorkflow "v" "k2"), .next 0, .next 0, .next 0, .next 0]

theorem admission_bound_full :
    ∃ replies s, Submissions.Run .narrow (Submissions.start (DB.init 0)) replies s ∧
      replies.map (fun p => p.outcome.toOption.map (·.created)) = [some true, none, some true] ∧
      AdmissionBound .narrow s.db "dur050-x" := by
  have hrun : (Submissions.moves? .narrow 0 gateScript (Submissions.start (DB.init 0))).any
      (fun r => r.1.map (fun p => p.outcome.toOption.map (·.created)) =
        [some true, none, some true]) = true := by decide +kernel
  obtain ⟨⟨replies, s⟩, hmoves, hreplies⟩ := (Option.any_eq_true _ _).mp hrun
  have hrun := Submissions.run_of_moves? hmoves
  have hempty : EmptyNamespace (DB.init 0) "dur050-x" := ⟨fun _ _ hw => (nomatch hw), rfl⟩
  exact ⟨replies, s, hrun, by simpa using hreplies,
    (admission_bound (by decide) (by decide) hempty hrun).1⟩

end DurableEngine.State
