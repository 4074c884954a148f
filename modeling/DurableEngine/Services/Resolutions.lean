/-
  DurableEngine.Services.Resolutions

  How often an unknown outcome is resolved.

  `ResolveUnknownEffect` looks at the outcome of the record only.  A
  confirmation makes it `APPLIED`, so nothing resolves it again; an
  abandonment leaves it `OUTCOME_UNKNOWN`, and the record is as open as before.
  So an effect is resolved once as long as no call resolves one that was
  abandoned.
-/

import DurableEngine.Services.Approvals

namespace DurableEngine.Services

open Lib State

-- ============================================================================
-- The property
-- ============================================================================

/-- The audit rows of an effect. -/
def auditRows (e : EffectTables) (k : EffectKey) : List EffectResolution :=
  e.resolutions.select (fun r => r.effect = k)

/-- An effect whose outcome was resolved. -/
def Resolved (e : EffectTables) (k : EffectKey) (disposition : ResolutionDisposition) : Prop :=
  ∃ r ∈ e.resolutions.rows, r.effect = k ∧ r.disposition = disposition

/-- Each effect has at most one resolution: an abandoned one is not applied, and nothing resolves a
    confirmed one again. -/
structure ResolvedOnce (db : DB) : Prop where
  once : ∀ k, (auditRows db.effects k).length ≤ 1
  unapplied : ∀ k record, Resolved db.effects k .abandonedUnknown →
    db.effects.records.get k = some record → record.outcome ≠ .applied
  final : ∀ resolutionID (input : ResolveEffectInput), Resolved db.effects input.key .confirmedApplied →
    ∃ e, resolveUnknownEffect resolutionID input db = .error e

/-- The step is a call that resolves an abandoned effect. -/
def Reopens (db db' : DB) : Prop :=
  ∃ resolutionID input, resolveUnknownEffect resolutionID input db = .ok ((), db') ∧
    Resolved db.effects input.key .abandonedUnknown

-- ============================================================================
-- What a resolution writes
-- ============================================================================

/-- A committed resolution was of an unknown outcome, and has its row in the audit. -/
theorem resolveUnknownEffect_audit {resolutionID : String} {input : ResolveEffectInput} {db db' : DB}
    {u : Unit} (h : resolveUnknownEffect resolutionID input db = .ok (u, db')) :
    ∃ audit : EffectResolution, Inserted db.effects.resolutions audit db'.effects.resolutions ∧
      audit.effect = input.key ∧
      audit.disposition = if input.abandon then .abandonedUnknown else .confirmedApplied := by
  simp only [resolveUnknownEffect, bind_eq_ok, rejectIf_eq_ok, getOr_eq_ok, exists_const,
    not_not] at h
  obtain ⟨-, -, record, -, -, h⟩ := h
  split at h
  · rename_i habandon
    simp only [bind_eq_ok, getOr_eq_ok, pure_eq_ok] at h
    obtain ⟨resolutions, hins, heq⟩ := h
    cases heq
    exact ⟨_, hins, rfl, by rw [if_pos habandon]⟩
  · rename_i hconfirm
    simp only [bind_eq_ok, getOr_eq_ok, pure_eq_ok] at h
    obtain ⟨receipt, -, resolutions, hins, heq⟩ := h
    cases heq
    exact ⟨_, hins, rfl, by rw [if_neg hconfirm]⟩

/-- Only a record whose outcome is unknown is resolved. -/
theorem resolveUnknownEffect_unknown {resolutionID : String} {input : ResolveEffectInput} {db db' : DB}
    {u : Unit} (h : resolveUnknownEffect resolutionID input db = .ok (u, db')) :
    ∃ record, db.effects.records.get input.key = some record ∧ record.outcome = .outcomeUnknown := by
  simp only [resolveUnknownEffect, bind_eq_ok, rejectIf_eq_ok, getOr_eq_ok, exists_const,
    not_not] at h
  obtain ⟨-, -, record, hrecord, hunknown, -⟩ := h
  exact ⟨record, (Option.filter_eq_some_iff.mp hrecord).1, hunknown⟩

theorem auditRows_insert {e e' : EffectTables} {audit : EffectResolution}
    (h : Inserted e.resolutions audit e'.resolutions) (k : EffectKey) :
    auditRows e' k = if audit.effect = k then auditRows e k ++ [audit] else auditRows e k := by
  unfold auditRows
  rw [Table.select_insert h]
  simp only [decide_eq_true_eq]

theorem resolved_insert {e e' : EffectTables} {audit : EffectResolution}
    (h : Inserted e.resolutions audit e'.resolutions) {k : EffectKey} {disposition : ResolutionDisposition} :
    Resolved e' k disposition ↔
      Resolved e k disposition ∨ audit.effect = k ∧ audit.disposition = disposition := by
  unfold Resolved
  rw [(Table.insert?_eq_some_iff.mp h).2]
  simp only [List.mem_append, List.mem_singleton, or_and_right, exists_or, exists_eq_left]

theorem auditRows_ne_nil_iff {e : EffectTables} {k : EffectKey} :
    auditRows e k ≠ [] ↔ ∃ disposition, Resolved e k disposition := by
  constructor
  · intro hne
    obtain ⟨r, hr⟩ := List.exists_mem_of_ne_nil _ hne
    obtain ⟨hrow, hk⟩ := Table.mem_select.mp hr
    exact ⟨r.disposition, r, hrow, by simpa using hk, rfl⟩
  · rintro ⟨disposition, r, hrow, hk, -⟩
    exact List.ne_nil_of_mem (Table.mem_select.mpr ⟨hrow, by simpa using hk⟩)

-- ============================================================================
-- What holds in every run
-- ============================================================================

/-- The outcome that a resolved record has. -/
def outcomeOf : ResolutionDisposition → EffectOutcome
  | .confirmedApplied => .applied
  | .abandonedUnknown => .outcomeUnknown

/-- The audit has at most one row for an effect, and its record says the same. -/
structure AuditAgrees (e : EffectTables) : Prop where
  once : ∀ k, (auditRows e k).length ≤ 1
  outcome : ∀ k disposition, Resolved e k disposition →
    ∃ record, e.records.get k = some record ∧ record.outcome = outcomeOf disposition

theorem AuditAgrees.resolvedOnce {db : DB} (h : AuditAgrees db.effects) : ResolvedOnce db where
  once := h.once
  unapplied := by
    intro k record hresolved hrecord happlied
    obtain ⟨record', hrecord', hunknown⟩ := h.outcome k _ hresolved
    rw [hrecord] at hrecord'
    rw [← Option.some.inj hrecord', happlied] at hunknown
    cases hunknown
  final := by
    intro resolutionID input hresolved
    cases hcall : resolveUnknownEffect resolutionID input db with
    | error e => exact ⟨e, rfl⟩
    | ok r =>
        obtain ⟨record, hrecord, hunknown⟩ := resolveUnknownEffect_unknown hcall
        obtain ⟨record', hrecord', happlied⟩ := h.outcome _ _ hresolved
        rw [hrecord] at hrecord'
        rw [← Option.some.inj hrecord', hunknown] at happlied
        cases happlied

/-- Nothing is resolved by a step that leaves the audit as it is and the records there. -/
theorem AuditAgrees.kept {e e' : EffectTables} (h : AuditAgrees e) (haudit : e'.resolutions = e.resolutions)
    (hrecords : ∀ k r, e.records.get k = some r → e'.records.get k = some r) : AuditAgrees e' where
  once := by
    intro k
    unfold auditRows
    rw [haudit]
    exact h.once k
  outcome := by
    rintro k disposition ⟨r, hrow, hr⟩
    rw [haudit] at hrow
    obtain ⟨record, hrecord, houtcome⟩ := h.outcome k disposition ⟨r, hrow, hr⟩
    exact ⟨record, hrecords k record hrecord, houtcome⟩

/-- A resolution of an effect that was not abandoned is its first one. -/
theorem AuditAgrees.unaudited {db db' : DB} (h : AuditAgrees db.effects) {resolutionID : String}
    {input : ResolveEffectInput} {u : Unit}
    (hcall : resolveUnknownEffect resolutionID input db = .ok (u, db'))
    (hopen : ¬ Resolved db.effects input.key .abandonedUnknown) : auditRows db.effects input.key = [] := by
  by_contra hne
  obtain ⟨disposition, hresolved⟩ := auditRows_ne_nil_iff.mp hne
  cases disposition with
  | abandonedUnknown => exact hopen hresolved
  | confirmedApplied =>
      obtain ⟨e, herror⟩ := h.resolvedOnce.final resolutionID input hresolved
      rw [hcall] at herror
      cases herror

theorem AuditAgrees.resolve {db db' : DB} (h : AuditAgrees db.effects) {resolutionID : String}
    {input : ResolveEffectInput} {u : Unit}
    (hcall : resolveUnknownEffect resolutionID input db = .ok (u, db'))
    (hopen : ¬ Resolved db.effects input.key .abandonedUnknown) : AuditAgrees db'.effects := by
  obtain ⟨audit, hins, heffect, hdisposition⟩ := resolveUnknownEffect_audit hcall
  have hnone := h.unaudited hcall hopen
  refine ⟨fun k => ?_, fun k disposition hresolved => ?_⟩
  · rw [auditRows_insert hins]
    split
    · rename_i hk
      rw [← hk, heffect, hnone]
      exact Nat.le_refl 1
    · exact h.once k
  · obtain hold | ⟨hk, hnew⟩ := (resolved_insert hins).mp hresolved
    · obtain ⟨record, hrecord, houtcome⟩ := h.outcome k disposition hold
      refine ⟨record, ?_, houtcome⟩
      obtain ⟨-, hsame⟩ | ⟨-, record', receipt, -, -, hget⟩ := resolveUnknownEffect_records hcall
      · rw [hsame]
        exact hrecord
      · rw [hget, if_neg]
        · exact hrecord
        · rintro rfl
          exact auditRows_ne_nil_iff.mpr ⟨disposition, hold⟩ hnone
    · rw [heffect] at hk
      obtain ⟨record, hrecord, hunknown⟩ := resolveUnknownEffect_unknown hcall
      subst hk hnew
      rw [hdisposition]
      obtain ⟨habandon, hsame⟩ | ⟨hconfirm, record', receipt, -, -, hget⟩ :=
        resolveUnknownEffect_records hcall
      · rw [if_pos habandon, hsame]
        exact ⟨record, hrecord, hunknown⟩
      · rw [if_neg (by rw [hconfirm]; decide), hget, if_pos rfl]
        exact ⟨_, rfl, rfl⟩

/-- A second resolution leaves a second row. -/
theorem not_resolvedOnce_of_reopens {db db' : DB} (hreopens : Reopens db db') : ¬ ResolvedOnce db' := by
  obtain ⟨resolutionID, input, hcall, hresolved⟩ := hreopens
  obtain ⟨audit, hins, heffect, -⟩ := resolveUnknownEffect_audit hcall
  intro honce
  have hlength := honce.once input.key
  rw [auditRows_insert hins, if_pos heffect, List.length_append, List.length_singleton] at hlength
  exact auditRows_ne_nil_iff.mpr ⟨_, hresolved⟩ (List.length_eq_zero_iff.mp (by omega))

theorem EffectCalls.Step.auditAgrees {s s' : EffectCalls} {events : List EffectEvent}
    (h : EffectCalls.Step s events s') (hs : AuditAgrees s.db.effects) (hclosed : ¬ Reopens s.db s'.db) :
    AuditAgrees s'.db.effects := by
  cases h with
  | check | miss | lost => exact hs
  | found _ _ _ _ _ _ _ _ h =>
      obtain ⟨-, hrefused, -⟩ := settleExisting_eq h
      exact hs.kept hrefused.resolutions (fun k r hr => by rw [hrefused.records]; exact hr)
  | apply _ _ _ _ _ _ h =>
      obtain ⟨-, ⟨-, hrefused⟩ | ⟨revision, -, hmutated⟩⟩ := applyMissing_eq_ok h
      · exact hs.kept hrefused.resolutions (fun k r hr => by rw [hrefused.records]; exact hr)
      · obtain ⟨record, hins, -⟩ := hmutated.record
        exact hs.kept hmutated.resolutions (fun k r hr => Table.get_insert_of_get hins hr)
  | mark _ _ _ db' _ h =>
      obtain ⟨id, i, hdispatched⟩ := markGrantDispatched_eq_ok h
      have heffects : db'.effects = s.db.effects := by rw [hdispatched.frame]
      rw [heffects]
      exact hs
  | unknown input record db' h =>
      simp only [recordUnknownEffect, bind_eq_ok, rejectIf_eq_ok, exists_const] at h
      obtain ⟨-, h⟩ := h
      split at h
      · rename_i records hins
        cases h
        exact hs.kept rfl (fun k r hr => Table.get_insert_of_get hins hr)
      · simp only [bind_eq_ok, getOr_eq_ok, pure_eq_ok] at h
        obtain ⟨existing, -, heq⟩ := h
        cases heq
        exact hs
  | resolve resolutionID input db' h =>
      exact hs.resolve h (fun hresolved => hclosed ⟨resolutionID, input, h, hresolved⟩)

theorem World.Step.auditAgrees {env : Env} {w w' : World} {events : List Event}
    (h : World.Step env w events w') (hw : AuditAgrees w.db.effects) (hclosed : ¬ Reopens w.db w'.db) :
    AuditAgrees w'.db.effects := by
  obtain heffect | ⟨-, heffects, -⟩ := h.effectCalls_cases
  · exact heffect.auditAgrees hw hclosed
  · rw [heffects]
    exact hw

-- ============================================================================
-- Runs
-- ============================================================================

/-- The runs in which no call resolves an abandoned effect. -/
def World.ClosedRun (env : Env) : World → List Event → World → Prop :=
  Trace (fun w events w' => World.Step env w events w' ∧ ¬ Reopens w.db w'.db)

/-- In every state that such a run reaches each effect has at most one resolution, and the next step
    keeps it so exactly when it resolves no abandoned effect either. -/
theorem effects_resolved_once {env : Env} {now : Int} {trace : List Event} {w : World}
    (h : World.ClosedRun env (World.start now) trace w) :
    ResolvedOnce w.db ∧ ∀ events w', World.Step env w events w' →
      (ResolvedOnce w'.db ↔ ¬ Reopens w.db w'.db) := by
  have hagrees : AuditAgrees w.db.effects := by
    have hstart : AuditAgrees (World.start now).db.effects :=
      ⟨fun _ => Nat.zero_le 1, fun _ _ hresolved => by obtain ⟨r, hrow, -⟩ := hresolved; cases hrow⟩
    exact Trace.keeps (I := fun w => AuditAgrees w.db.effects) h hstart
      (fun _ _ _ hw hs => hs.1.auditAgrees hw hs.2)
  exact ⟨hagrees.resolvedOnce, fun events w' hs =>
    ⟨fun honce hreopens => not_resolvedOnce_of_reopens hreopens honce,
      fun hclosed => (hs.auditAgrees hagrees hclosed).resolvedOnce⟩⟩

/-- The outcome of an effect is unknown. -/
def unknownOutcome : Move := .unknown ⟨"w", "key", Sha256.hexSum "{}", "", 1⟩

/-- An operator abandons it, and another one confirms it. -/
def abandonment : Move :=
  .resolve (uuidOf 7 0) ⟨"operator", "w", "key", Sha256.hexSum "{}", .json (.obj []), true⟩

def confirmation : Move :=
  .resolve (uuidOf 7 1) ⟨"auditor", "w", "key", Sha256.hexSum "{}", .json (.obj []), false⟩

/-- Nothing was abandoned while the audit is empty. -/
theorem not_reopens_of_empty {db db' : DB} (h : db.effects.resolutions.rows = []) : ¬ Reopens db db' := by
  rintro ⟨resolutionID, input, -, r, hrow, -⟩
  rw [h] at hrow
  cases hrow

theorem effects_resolved_once_abandoned :
    ∃ trace w, World.ClosedRun .plain (World.start 0) trace w ∧
      Resolved w.db.effects ⟨"w", "key"⟩ .abandonedUnknown ∧ ResolvedOnce w.db ∧
      ∀ events w', World.Step .plain w events w' → (ResolvedOnce w'.db ↔ ¬ Reopens w.db w'.db) := by
  have hrun : ((World.start 0).move? .plain (.drawn 0) unknownOutcome).any (fun r₁ =>
      r₁.2.db.effects.resolutions.rows.isEmpty &&
      (r₁.2.move? .plain (.drawn 1) abandonment).any (fun r₂ =>
        r₂.2.db.effects.resolutions.rows.any (fun r =>
          decide (r.effect = ⟨"w", "key"⟩ ∧ r.disposition = .abandonedUnknown)))) = true := by
    decide +kernel
  obtain ⟨⟨events₁, w₁⟩, hunknown, hshown⟩ := (Option.any_eq_true _ _).mp hrun
  simp only [Bool.and_eq_true, List.isEmpty_iff] at hshown
  obtain ⟨⟨events₂, w₂⟩, habandon, hshown₂⟩ := (Option.any_eq_true _ _).mp hshown.2
  simp only [List.any_eq_true, decide_eq_true_eq] at hshown₂
  have hrun₁ : World.ClosedRun .plain (World.start 0) events₁ w₁ :=
    .single ⟨World.step_of_move? hunknown, not_reopens_of_empty rfl⟩
  have hrun₂ : World.ClosedRun .plain (World.start 0) (events₁ ++ events₂) w₂ :=
    hrun₁.tail ⟨World.step_of_move? habandon, not_reopens_of_empty hshown.1⟩
  exact ⟨_, w₂, hrun₂, hshown₂, effects_resolved_once hrun₂⟩

/-- An abandoned effect is resolved again, and applied. -/
theorem effects_resolved_twice :
    ∃ trace w, World.Run .plain (World.start 0) trace w ∧
      (auditRows w.db.effects ⟨"w", "key"⟩).map (fun r => (r.actorID, r.disposition)) =
        [("operator", .abandonedUnknown), ("auditor", .confirmedApplied)] ∧
      (w.db.effects.records.get ⟨"w", "key"⟩).map (·.outcome) = some .applied ∧
      ¬ ResolvedOnce w.db := by
  have hrun : (World.moves? .plain 0 [unknownOutcome, abandonment, confirmation] (World.start 0)).any (fun r =>
        decide ((auditRows r.2.db.effects ⟨"w", "key"⟩).map (fun r => (r.actorID, r.disposition)) =
          [("operator", .abandonedUnknown), ("auditor", .confirmedApplied)]) &&
        decide ((r.2.db.effects.records.get ⟨"w", "key"⟩).map (·.outcome) = some .applied)) = true := by
    decide +kernel
  obtain ⟨⟨trace, w⟩, hmoves, hshown⟩ := (Option.any_eq_true _ _).mp hrun
  simp only [Bool.and_eq_true, decide_eq_true_eq] at hshown
  obtain ⟨haudit, happlied⟩ := hshown
  refine ⟨trace, w, World.run_of_moves? hmoves, haudit, happlied, fun honce => ?_⟩
  have hlength := honce.once ⟨"w", "key"⟩
  rw [← List.length_map (fun r : EffectResolution => (r.actorID, r.disposition)), haudit] at hlength
  exact absurd hlength (by decide)

end DurableEngine.Services
