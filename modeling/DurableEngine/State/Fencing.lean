/-
  DurableEngine.State.Fencing

  Partition leases fence their schedulers: the epoch of a partition only
  grows, a lease that was superseded commits nothing, and the epochs along a
  workflow's history are in order.
-/

import DurableEngine.State.History

namespace DurableEngine.State

open Lib

-- ============================================================================
-- Epochs grow
-- ============================================================================

/-- The epoch of a partition never decreases. -/
def EpochsGrow (db db' : DB) : Prop :=
  ∀ p row, db.leases.get p = some row →
    ∃ row', db'.leases.get p = some row' ∧ row.epoch ≤ row'.epoch

theorem EpochsGrow.refl (db : DB) : EpochsGrow db db :=
  fun _ row hrow => ⟨row, hrow, Int.le_refl _⟩

theorem EpochsGrow.trans {db₁ db₂ db₃ : DB} (h : EpochsGrow db₁ db₂) (h' : EpochsGrow db₂ db₃) :
    EpochsGrow db₁ db₃ := by
  intro p row hrow
  obtain ⟨row₂, hrow₂, hle₂⟩ := h p row hrow
  obtain ⟨row₃, hrow₃, hle₃⟩ := h' p row₂ hrow₂
  exact ⟨row₃, hrow₃, Int.le_trans hle₂ hle₃⟩

theorem Acquired.epoch_le {db : DB} {ownerID : String} {row row' : LeaseRow}
    (h : Acquired db ownerID row row') : row.epoch ≤ row'.epoch := by
  rcases h.epoch with he | ⟨he, -⟩ <;> omega

/-- Updates that keep the epoch of every row. -/
theorem EpochsGrow.of_modify {db db' : DB} {p : Int} {f : LeaseRow → LeaseRow}
    {hf : ∀ l, (f l).partitionID = l.partitionID} (h : db'.leases = db.leases.modify p f hf)
    (hepoch : ∀ l, (f l).epoch = l.epoch) : EpochsGrow db db' := by
  intro q row hrow
  rw [h, Table.get_modify, hrow]
  split
  · exact ⟨f row, rfl, Int.le_of_eq (hepoch row).symm⟩
  · exact ⟨row, rfl, Int.le_refl _⟩

theorem LeaseChange.epochsGrow {db db' : DB} {α : Type} {op : Op α} (h : LeaseChange db op db') :
    EpochsGrow db db' := by
  cases h with
  | same leases => exact fun p row hrow => ⟨row, by rw [leases]; exact hrow, Int.le_refl _⟩
  | acquired partitionID ownerID ttl row row' before acquired after others =>
      intro p row₀ hrow₀
      by_cases hp : p = partitionID
      · rw [hp, before, Option.some.injEq] at hrow₀
        exact ⟨row', hp ▸ after, hrow₀ ▸ acquired.epoch_le⟩
      · exact ⟨row₀, by rw [others p hp]; exact hrow₀, Int.le_refl _⟩
  | renewed ref ttl valid leases => exact .of_modify leases (fun _ => rfl)
  | released ref valid leases => exact .of_modify leases (fun _ => rfl)

theorem Step.epochsGrow {env : Env} {db db' : DB} (h : Step env db db') : EpochsGrow db db' := by
  cases h with
  | tick d => exact .refl db
  | commit amb op a hrun => exact (Op.run_commit hrun).leases.epochsGrow

theorem epochsGrow_of_run {env : Env} {db db' : DB}
    (h : Relation.ReflTransGen (Step env) db db') : EpochsGrow db db' :=
  relates_of_step h .refl (fun _ _ _ => .trans) (fun _ _ => Step.epochsGrow)

/-- A lease whose epoch was passed is not valid. -/
theorem not_leaseValid_of_superseded {db : DB} {ref : LeaseRef} {row : LeaseRow}
    (hrow : db.leases.get ref.partitionID = some row) (hlt : ref.epoch < row.epoch) :
    ¬ db.leaseValid ref := by
  rintro ⟨row', hrow', -, hepoch, -⟩
  rw [hrow, Option.some.injEq] at hrow'
  rw [hrow'] at hlt
  omega

theorem leaseValid_unique {db : DB} {ref ref' : LeaseRef} (h : db.leaseValid ref)
    (h' : db.leaseValid ref') (hp : ref.partitionID = ref'.partitionID) : ref = ref' := by
  obtain ⟨row, hrow, hown, hepoch, -⟩ := h
  obtain ⟨row', hrow', hown', hepoch', -⟩ := h'
  rw [← hp, hrow, Option.some.injEq] at hrow'
  subst hrow'
  rw [hown, Option.some.injEq] at hown'
  cases ref
  cases ref'
  simp_all

-- ============================================================================
-- Acquisitions
-- ============================================================================

/-- Nobody holds the lease: it was released or has expired. -/
def LeaseRow.free (row : LeaseRow) (now : Int) : Prop :=
  row.ownerID = none ∨ ∀ expiry, row.leaseExpiresAt = some expiry → expiry ≤ now

/-- Stored owners are in the text form of a `uuid`. -/
def OwnersCanonical (db : DB) : Prop :=
  ∀ p row owner, db.leases.get p = some row → row.ownerID = some owner → uuidText owner = some owner

theorem OwnersCanonical.of_modify {db db' : DB} {p : Int} {f : LeaseRow → LeaseRow}
    {hf : ∀ l, (f l).partitionID = l.partitionID} (h : OwnersCanonical db)
    (hdb' : db'.leases = db.leases.modify p f hf)
    (howner : ∀ l owner, (f l).ownerID = some owner → l.ownerID = some owner) :
    OwnersCanonical db' := by
  intro q row owner hrow hown
  rw [hdb', Table.get_modify] at hrow
  split at hrow
  · obtain ⟨row₀, hrow₀, rfl⟩ := Option.map_eq_some_iff.mp hrow
    exact h q row₀ owner hrow₀ (howner row₀ owner hown)
  · exact h q row owner hrow hown

theorem OwnersCanonical.step {env : Env} {db db' : DB} (h : OwnersCanonical db)
    (hs : Step env db db') : OwnersCanonical db' := by
  cases hs with
  | tick d => exact h
  | commit amb op a hrun =>
      cases (Op.run_commit hrun).leases with
      | same leases => exact fun p row owner hrow => h p row owner (leases ▸ hrow)
      | acquired partitionID ownerID ttl row row' before acquired after others =>
          intro p row₀ owner hrow hown
          by_cases hp : p = partitionID
          · rw [hp, after, Option.some.injEq] at hrow
            have htext : uuidText ownerID = some owner := by
              rw [← acquired.owner.1, hrow, hown]
            exact uuidText_fixed htext
          · exact h p row₀ owner (others p hp ▸ hrow) hown
      | renewed ref ttl valid leases => exact h.of_modify leases (fun _ _ hown => hown)
      | released ref valid leases => exact h.of_modify leases (fun _ _ hown => by cases hown)

theorem Reachable.ownersCanonical {env : Env} {db : DB} (h : Reachable env db) :
    OwnersCanonical db := by
  refine h.induction (fun now p row owner hrow hown => ?_) (fun _ _ hi hs => hi.step hs)
  obtain ⟨q, -, rfl⟩ := List.mem_map.mp (Table.mem_of_get hrow)
  cases hown

/-- Taking a lease from another owner, or a free one, starts a new epoch. -/
theorem AcquiredBy.epoch_lt {db db' : DB} {p : Int} {ownerID : String} {row row' : LeaseRow}
    (h : AcquiredBy db p ownerID db' row row') (hcanon : OwnersCanonical db)
    (hnew : row'.ownerID ≠ row.ownerID ∨ row.free db.now) : row.epoch < row'.epoch := by
  rcases h.acquired.epoch with he | ⟨-, hown, expiry, hexpiry, hlive⟩
  · omega
  · have hsame : row'.ownerID = row.ownerID := by
      rw [h.acquired.owner.1, hcanon p row ownerID h.before hown, hown]
    rcases hnew with hne | hnone | hexpired
    · exact absurd hsame hne
    · rw [hown] at hnone
      cases hnone
    · have := hexpired expiry hexpiry
      omega

-- ============================================================================
-- Epochs along the history
-- ============================================================================

/-- The epochs in the history are at most the current ones, and in the order of
    the revisions. -/
structure EpochsOrdered (db : DB) : Prop where
  bound : ∀ row e, db.history.get row.key = some row → row.schedulerEpoch = some e →
    ∃ w l, db.workflows.get row.key.workflowID = some w ∧ db.leases.get w.partitionID = some l ∧
      e ≤ l.epoch
  ordered : ∀ row row', db.history.get row.key = some row → db.history.get row'.key = some row' →
    row.key.workflowID = row'.key.workflowID → row.key.revision ≤ row'.key.revision →
    ∀ e e', row.schedulerEpoch = some e → row'.schedulerEpoch = some e' → e ≤ e'

/-- The rows of a workflow have revisions up to that of the workflow. -/
theorem HistoryComplete.revision_le {db : DB} (h : HistoryComplete db) {row : TransitionRecord}
    (hrow : db.history.get row.key = some row) :
    ∃ w, db.workflows.get row.key.workflowID = some w ∧ row.key.revision ≤ w.revision := by
  have hmem : row ∈ db.historyOf row.key.workflowID :=
    Table.mem_select.mpr ⟨Table.mem_of_get hrow, by simp⟩
  cases hget : db.workflows.get row.key.workflowID with
  | none =>
      rw [h.orphan _ hget] at hmem
      cases hmem
  | some w =>
      have hchain := h.chain _ w hget
      have hrev := List.mem_map_of_mem (f := fun r : TransitionRecord => r.key.revision) hmem
      rw [hchain.revisions] at hrev
      obtain ⟨i, hi, hrev⟩ := List.mem_map.mp hrev
      rw [List.mem_range] at hi
      have hlen := hchain.revision
      exact ⟨w, rfl, by omega⟩

theorem EpochsOrdered.of_grow {db db' : DB} (h : EpochsOrdered db) (hgrow : EpochsGrow db db')
    (hw : db'.workflows = db.workflows) (hh : db'.history = db.history) : EpochsOrdered db' where
  bound row e hrow he := by
    rw [hh] at hrow
    obtain ⟨w, l, hget, hl, hle⟩ := h.bound row e hrow he
    obtain ⟨l', hl', hle'⟩ := hgrow _ l hl
    exact ⟨w, l', by rw [hw]; exact hget, hl', Int.le_trans hle hle'⟩
  ordered row row' hrow hrow' := by
    rw [hh] at hrow hrow'
    exact h.ordered row row' hrow hrow'

theorem EpochsOrdered.created {db db' : DB} {w : Workflow} {row : TransitionRecord}
    (h : EpochsOrdered db) (hgrow : EpochsGrow db db') (hw : Inserted db.workflows w db'.workflows)
    (hh : Inserted db.history row db'.history) (hepoch : row.schedulerEpoch = none) :
    EpochsOrdered db' := by
  have hold : ∀ row' e, db'.history.get row'.key = some row' → row'.schedulerEpoch = some e →
      db.history.get row'.key = some row' := by
    intro row' e hrow' he
    rw [Table.get_insert hh] at hrow'
    split at hrow'
    · rw [Option.some.injEq] at hrow'
      rw [← hrow', hepoch] at he
      cases he
    · exact hrow'
  constructor
  · intro row' e hrow' he
    obtain ⟨w', l, hget, hl, hle⟩ := h.bound row' e (hold row' e hrow' he) he
    obtain ⟨l', hl', hle'⟩ := hgrow _ l hl
    exact ⟨w', l', Table.get_insert_of_get hw hget, hl', Int.le_trans hle hle'⟩
  · intro row₁ row₂ hrow₁ hrow₂ hid hrev e e' he he'
    exact h.ordered row₁ row₂ (hold row₁ e hrow₁ he) (hold row₂ e' hrow₂ he') hid hrev e e' he he'

theorem EpochsOrdered.moves {db db' : DB} {w : Workflow} {newState : WorkflowState}
    {row : TransitionRecord} (h : EpochsOrdered db) (hhist : HistoryComplete db)
    (hgrow : EpochsGrow db db') (hm : Moves db db' w newState row) : EpochsOrdered db' := by
  have hrows : ∀ row', db'.history.get row'.key = some row' →
      row' = row ∨ db.history.get row'.key = some row' := by
    intro row' hrow'
    rw [Table.get_insert hm.history] at hrow'
    split at hrow'
    · exact .inl (Option.some.inj hrow').symm
    · exact .inr hrow'
  -- the epoch of the new row is the current one of the partition
  have hnew : ∀ e, row.schedulerEpoch = some e →
      ∃ l, db.leases.get w.partitionID = some l ∧ l.epoch = e := by
    intro e he
    obtain ⟨ref, ⟨l, hl, -, hepoch, -⟩, hpart, hrefe⟩ := hm.epoch e he
    exact ⟨l, hpart ▸ hl, hepoch.trans hrefe⟩
  have hkeep : ∀ e w' l, db.workflows.get w'.workflowID = some w' →
      db.leases.get w'.partitionID = some l → e ≤ l.epoch →
      ∃ w'' l', db'.workflows.get w'.workflowID = some w'' ∧
        db'.leases.get w''.partitionID = some l' ∧ e ≤ l'.epoch := by
    intro e w' l hw' hl hle
    obtain ⟨l', hl', hle'⟩ := hgrow _ l hl
    by_cases hid : w'.workflowID = w.workflowID
    · rw [hid, hm.get, Option.some.injEq] at hw'
      exact ⟨_, l', by rw [hm.get_workflow, if_pos hid], by rw [hw']; exact hl',
        Int.le_trans hle hle'⟩
    · exact ⟨w', l', by rw [hm.get_workflow, if_neg hid]; exact hw', hl', Int.le_trans hle hle'⟩
  constructor
  · intro row' e hrow' he
    rcases hrows row' hrow' with rfl | hold
    · obtain ⟨l, hl, hle⟩ := hnew e he
      rw [hm.key]
      exact hkeep e w l hm.get hl (Int.le_of_eq hle.symm)
    · obtain ⟨w', l, hget, hl, hle⟩ := h.bound row' e hold he
      rw [← Table.key_of_get hget]
      exact hkeep e w' l (by rw [Table.key_of_get hget]; exact hget) hl hle
  · intro row₁ row₂ hrow₁ hrow₂ hid hrev e e' he he'
    rcases hrows row₁ hrow₁ with rfl | hold₁ <;> rcases hrows row₂ hrow₂ with rfl | hold₂
    · rw [he, Option.some.injEq] at he'
      omega
    · -- no stored row is later than the new one
      obtain ⟨w', hget, hle⟩ := hhist.revision_le hold₂
      rw [← hid, hm.key, hm.get, Option.some.injEq] at hget
      rw [hm.key] at hrev
      simp only at hrev
      rw [hget] at hrev
      omega
    · obtain ⟨w', l, hget, hl, hle⟩ := h.bound row₁ e hold₁ he
      rw [hid, hm.key, hm.get, Option.some.injEq] at hget
      obtain ⟨l', hl', hle'⟩ := hnew e' he'
      rw [hget, hl, Option.some.injEq] at hl'
      rw [hl'] at hle
      omega
    · exact h.ordered row₁ row₂ hold₁ hold₂ hid hrev e e' he he'

theorem Reachable.epochsOrdered {env : Env} {db : DB} (h : Reachable env db) : EpochsOrdered db := by
  have hboth : EpochsOrdered db ∧ HistoryComplete db := by
    refine h.induction (I := fun db => EpochsOrdered db ∧ HistoryComplete db) (fun _ =>
      ⟨⟨fun _ _ hrow => (nomatch hrow), fun _ _ hrow => (nomatch hrow)⟩,
        ⟨fun _ _ hget => (nomatch hget), fun _ _ => rfl⟩⟩) ?_
    intro db db' hi hs
    refine ⟨?_, hi.2.step hs⟩
    have hgrow := hs.epochsGrow
    cases hs with
    | tick d => exact hi.1.of_grow hgrow rfl rfl
    | commit amb op a hrun =>
        obtain ⟨hw, hh⟩ | ⟨w, row, hw, hh, -, -, -, -, hepoch⟩ | ⟨w, newState, row, hm⟩ :=
          (Op.run_commit hrun).change.history_cases
        · exact hi.1.of_grow hgrow hw hh
        · exact hi.1.created hgrow hw hh hepoch
        · exact hi.1.moves hi.2 hgrow hm
  exact hboth.1

-- ============================================================================
-- Fencing
-- ============================================================================

/-- What the leases guarantee in a state `db'` reached from `db`. -/
structure Fencing (env : Env) (db db' : DB) : Prop where
  monotone : EpochsGrow db db'
  takeover : ∀ amb p ownerID ttl lease db'' row row',
    (Op.acquireLease p ownerID ttl).run env amb db' = .ok ((lease, true), db'') →
    db'.leases.get p = some row → db''.leases.get p = some row' →
    (row'.ownerID ≠ row.ownerID ∨ row.free db'.now) → row.epoch < row'.epoch
  unique : ∀ ref ref' : LeaseRef, db'.leaseValid ref → db'.leaseValid ref' →
    ref.partitionID = ref'.partitionID → ref = ref'
  superseded : ∀ (ref : LeaseRef) row, db.leases.get ref.partitionID = some row →
    ref.epoch < row.epoch → ∀ amb (α : Type) (op : Op α) a db'', op.leaseRef = some ref →
      op.run env amb db' ≠ .ok (a, db'')
  history : ∀ row row', db'.history.get row.key = some row → db'.history.get row'.key = some row' →
    row.key.workflowID = row'.key.workflowID → row.key.revision ≤ row'.key.revision →
    ∀ e e', row.schedulerEpoch = some e → row'.schedulerEpoch = some e' → e ≤ e'

/-- Along every run of the store, from any reachable state. -/
theorem lease_fencing {env : Env} {db db' : DB} (h : Reachable env db)
    (hrun : Relation.ReflTransGen (Step env) db db') : Fencing env db db' := by
  have hreach : Reachable env db' := by
    obtain ⟨now, hstart⟩ := h
    exact ⟨now, hstart.trans hrun⟩
  have hgrow := epochsGrow_of_run hrun
  refine ⟨hgrow, ?_, fun _ _ => leaseValid_unique, ?_, hreach.epochsOrdered.ordered⟩
  · intro amb p ownerID ttl lease db'' row row' hacq hrow hrow' hnew
    obtain ⟨hfalse, -⟩ | ⟨-, row₀, row₁, hby⟩ := acquireLease_eq_ok hacq
    · cases hfalse
    · rw [hby.before, Option.some.injEq] at hrow
      rw [hby.after, Option.some.injEq] at hrow'
      subst hrow hrow'
      exact hby.epoch_lt hreach.ownersCanonical hnew
  · intro ref row hrow hlt amb α op a db'' href hop
    obtain ⟨row', hrow', hle⟩ := hgrow _ row hrow
    exact not_leaseValid_of_superseded hrow' (Int.lt_of_lt_of_le hlt hle)
      ((Op.run_commit hop).fenced ref href)

/-- A lease is released and taken by another owner: the first lease is fenced
    off for good. -/
theorem lease_fencing_takeover :
    ∃ db db', Reachable .plain db ∧ Relation.ReflTransGen (Step .plain) db db' ∧
      (∃ row, db'.leases.get 0 = some row ∧ soloLease.epoch < row.epoch) ∧ Fencing .plain db db' := by
  have hrun : (runScript? .plain 0 (soloScript.take 4) (DB.init 0)).any (fun db =>
      (runScript? .plain 4 [.call (.releaseLease soloLease), .call (.acquireLease 0 (uuidOf 8 1) 10)]
        db).any (fun db' => (db'.leases.get 0).any (fun row => soloLease.epoch < row.epoch))) =
      true := by decide +kernel
  obtain ⟨db, hdb, hnext⟩ := (Option.any_eq_true _ _).mp hrun
  obtain ⟨db', hdb', hlease⟩ := (Option.any_eq_true _ _).mp hnext
  obtain ⟨row, hrow, hlt⟩ := (Option.any_eq_true _ _).mp hlease
  have hreach : Reachable .plain db := reachable_of_runScript? hdb
  have hsteps := run_of_runScript? hdb'
  exact ⟨db, db', hreach, hsteps, ⟨row, hrow, by simpa using hlt⟩, lease_fencing hreach hsteps⟩

end DurableEngine.State
