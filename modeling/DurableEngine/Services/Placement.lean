/-
  DurableEngine.Services.Placement

  Where a workflow belongs: its definition is stored, and its row names the
  partition of its id.  `CreateWorkflow` checks both, and no step of any party
  changes what a workflow row says of them.
-/

import DurableEngine.Services.Exclusion
import DurableEngine.State.Provision

namespace DurableEngine.Services

open Lib State

/-- Every workflow row has a stored definition and names the partition of its id. -/
def Placed (db : DB) : Prop :=
  ∀ id wf, db.workflows.get id = some wf → wf.partitionID = partitionOf id ∧
    ∃ d, db.definitions.get ⟨wf.definitionID, wf.definitionVersion⟩ = some d

/-- What every step leaves of the workflows and the definitions. -/
structure Kept (db db' : DB) : Prop where
  definitions : ∀ k d, db.definitions.get k = some d → db'.definitions.get k = some d
  workflows : ∀ id wf, db.workflows.get id = some wf → ∃ wf', db'.workflows.get id = some wf' ∧
    wf'.namespace_ = wf.namespace_ ∧ wf'.definitionID = wf.definitionID ∧
    wf'.definitionVersion = wf.definitionVersion ∧ wf'.partitionID = wf.partitionID ∧
    (wf.state.isTerminal = true → wf' = wf)

theorem Kept.of_eq {db db' : DB} (hdefinitions : db'.definitions = db.definitions)
    (hworkflows : db'.workflows = db.workflows) : Kept db db' :=
  ⟨fun _ _ hd => hdefinitions ▸ hd, fun _ wf hwf => ⟨wf, hworkflows ▸ hwf, rfl, rfl, rfl, rfl, fun _ => rfl⟩⟩

theorem Kept.trans {db db' db'' : DB} (h : Kept db db') (h' : Kept db' db'') : Kept db db'' where
  definitions k d hd := h'.definitions k d (h.definitions k d hd)
  workflows id wf hwf := by
    obtain ⟨wf', hwf', hns, hid, hversion, hpartition, hend⟩ := h.workflows id wf hwf
    obtain ⟨wf'', hwf'', hns', hid', hversion', hpartition', hend'⟩ := h'.workflows id wf' hwf'
    refine ⟨wf'', hwf'', hns'.trans hns, hid'.trans hid, hversion'.trans hversion,
      hpartition'.trans hpartition, fun hterminal => ?_⟩
    obtain rfl := hend hterminal
    exact hend' hterminal

section Steps

variable {env : Env} {amb : Ambient} {α : Type} {op : Op α} {a : α} {db db' : DB}

theorem kept_of_commit (h : op.run env amb db = .ok (a, db')) : Kept db db' where
  definitions := (Op.run_commit h).definitions
  workflows id wf hwf := by
    obtain ⟨hsame, -⟩ | ⟨_, _, hins, -⟩ | ⟨wf₀, _, _, hmoves⟩ := (Op.run_commit h).change.history_cases
    · exact ⟨wf, by rw [hsame]; exact hwf, rfl, rfl, rfl, rfl, fun _ => rfl⟩
    · exact ⟨wf, Table.get_insert_of_get hins hwf, rfl, rfl, rfl, rfl, fun _ => rfl⟩
    · rw [hmoves.get_workflow]
      split
      next hid =>
        rw [hid, hmoves.get, Option.some.injEq] at hwf
        subst hwf
        refine ⟨_, rfl, rfl, rfl, rfl, rfl, fun hterminal => ?_⟩
        rw [hmoves.live] at hterminal
        cases hterminal
      next => exact ⟨wf, hwf, rfl, rfl, rfl, rfl, fun _ => rfl⟩

/-- A submission that creates a workflow found its definition and its partition. -/
theorem placed_of_createWorkflow {input : CreateWorkflowInput} {r : CreateWorkflowResult}
    (h : createWorkflow env amb input db = .ok (r, db')) (hnew : r.created = true) :
    input.partitionID = partitionOf input.workflowID ∧
      ∃ d, db.definitions.get ⟨input.definitionID, input.definitionVersion⟩ = some d := by
  simp only [createWorkflow, bind_eq_ok, rejectIf_eq_ok, exists_const] at h
  obtain ⟨-, h⟩ := h
  split at h
  next =>
    simp only [replaySubmission, bind_eq_ok, rejectIf_eq_ok, exists_const, pure_eq_ok, Prod.mk.injEq] at h
    obtain ⟨_, ⟨-, rfl⟩, rfl, -⟩ := h
    cases hnew
  next =>
    simp only [submitWorkflow, bind_eq_ok, getOr_eq_ok, rejectIf_eq_ok, exists_const, not_not] at h
    obtain ⟨definition, hdefinition, -, -, -, hpartition, -⟩ := h
    exact ⟨hpartition.symm, definition, hdefinition⟩

theorem Placed.commit (hplaced : Placed db) (h : op.run env amb db = .ok (a, db')) : Placed db' := by
  have hkept := kept_of_commit h
  intro id wf' hwf'
  cases hwf : db.workflows.get id with
  | some wf =>
      obtain ⟨hpartition, d, hd⟩ := hplaced id wf hwf
      obtain ⟨wf'', hwf'', -, hid, hversion, hpartition', -⟩ := hkept.workflows id wf hwf
      rw [hwf', Option.some.injEq] at hwf''
      rw [hwf'', hid, hversion, hpartition']
      exact ⟨hpartition, d, hkept.definitions _ d hd⟩
  | none =>
      -- a new workflow is a submission's
      obtain ⟨wf, hold, -⟩ | ⟨input, hop, rfl, -⟩ := (Op.run_commit h).change.workflow_origin hwf'
      · rw [hwf] at hold
        cases hold
      · cases hop
        obtain ⟨-, rfl, -⟩ | ⟨hr, -, -, -, -, n, event, hsubmits⟩ := createWorkflow_eq_ok h
        · rw [hwf] at hwf'
          cases hwf'
        · obtain ⟨hpartition, d, hd⟩ := placed_of_createWorkflow h (by rw [hr])
          rw [Table.get_insert hsubmits.workflows,
            if_pos (show input.workflowID = input.workflow.workflowID from rfl), Option.some.injEq] at hwf'
          subst hwf'
          exact ⟨hpartition, d, hkept.definitions _ d hd⟩

end Steps

namespace World

variable {env : Env} {w w' : World} {events : List Event}

theorem Step.kept (h : World.Step env w events w') : Kept w.db w'.db := by
  cases h with
  | tick _ d => exact .of_eq rfl rfl
  | commit _ amb op a db' h _ => exact kept_of_commit h
  | relay _ events s' h => exact .of_eq (by rw [h.frame]; rfl) (by rw [h.frame]; rfl)
  | consumer _ events db' h => exact .of_eq (by rw [h.frame]; rfl) (by rw [h.frame]; rfl)
  | effect _ events s' h => exact .of_eq (by rw [h.frame]) (by rw [h.frame])

theorem Step.placed (hplaced : Placed w.db) (h : World.Step env w events w') : Placed w'.db := by
  cases h with
  | tick _ d => exact hplaced
  | commit _ amb op a db' h _ => exact hplaced.commit h
  | relay _ events s' h => rw [h.frame]; exact hplaced
  | consumer _ events db' h => rw [h.frame]; exact hplaced
  | effect _ events s' h => rw [h.frame]; exact hplaced

end World

end DurableEngine.Services
