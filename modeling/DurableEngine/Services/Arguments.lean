/-
  DurableEngine.Services.Arguments

  Approved arguments, from the request for an approval to the effect.

  The hash of a proposal covers the arguments as they were submitted.
  `ApplyEffect` and the checker compute it again from what the `jsonb` column
  gives back, so they find the same hash exactly when the column gives the
  document back as it was spelled (`arguments_round_trip`).
-/

import DurableEngine.Invariants.Approvals
import DurableEngine.Lib.Spelling
import DurableEngine.Services.Exclusion

namespace DurableEngine.Services

open Lib State Invariants

-- ============================================================================
-- The property
-- ============================================================================

/-- The request commits and stores `args` as the arguments of a new intent. -/
structure Stores (env : Env) (amb : Ambient) (input : ApprovalIntentInput) (args : Json) (db : DB)
    (intent : ApprovalIntent) (db' : DB) : Prop where
  submitted : input.canonicalArguments = .json args
  created : createApprovalIntent env amb input db = .ok (intent, db')
  fresh : db.intents.get intent.intentID = none

/-- The call carries `args` and the grant of the intent, before it expires. -/
structure Presents (now : Int) (call : EffectApplyInput) (args : Json) (db : DB) (i : ApprovalIntent) :
    Prop where
  complete : ¬ (call.workflowID = "" ∨ call.nodeID = "" ∨ call.iteration < 0 ∨
    call.logicalEffectKey = "" ∨ call.argumentHash = "" ∨ call.requestID = "" ∨
    call.attemptNumber ≤ 0 ∨ call.resourceID = "" ∨ call.fenceToken ≤ 0)
  named : ¬ (call.intentID = "" ∨ call.grantToken = "" ∨ call.grantScopeHash = "")
  state : call.state = .json args
  argumentHash : canonicalPayloadHash (.json args) = .ok call.argumentHash
  grant : grantIntent call db = .ok i
  unexpired : ∃ expiry ∈ i.grantExpiresAt, now < expiry
  scope : call.grantScopeHash = i.grantScopeHash
  key : call.grantScopeHash = grantScopeHash i.proposalHash i.expectedResourceRevision
    call.logicalEffectKey i.target
  revision : call.expectedResourceRevision = i.expectedResourceRevision
  target : call.resourceID = i.target

/-- The arguments come back as they were approved: the call is not refused for them, and the checker
    computes the proposal hash that the request computed. -/
structure RoundTrips (now : Int) (input : ApprovalIntentInput) (call : EffectApplyInput) (db : DB)
    (i : ApprovalIntent) : Prop where
  accepted : checkGrant now call db ≠ .error (.sentinel .effectArguments)
  recomputed : ∃ hash, proposalHash input.target input.canonicalArguments input.expectedResourceRevision =
    .ok hash ∧ (approvalRecord i).map ApprovalRecord.expectedProposal = some hash

/-- Two texts with one digest. -/
def Collide (s t : String) : Prop := s ≠ t ∧ Sha256.hexSum s = Sha256.hexSum t

theorem hexSum_eq_iff {s t : String} : Sha256.hexSum s = Sha256.hexSum t ↔ s = t ∨ Collide s t := by
  constructor
  · intro h
    by_cases heq : s = t
    · exact .inl heq
    · exact .inr ⟨heq, h⟩
  · rintro (rfl | ⟨-, h⟩)
    · rfl
    · exact h

-- ============================================================================
-- What is stored
-- ============================================================================

/-- What a new intent holds. -/
structure HasArguments (input : ApprovalIntentInput) (args : Json) (intent : ApprovalIntent) (db : DB) :
    Prop where
  row : db.intents.get intent.intentID = some intent
  arguments : intent.canonicalArguments.doc = args.jsonb
  target : intent.target = input.target
  revision : intent.expectedResourceRevision = input.expectedResourceRevision
  hash : proposalHash input.target (.json args) input.expectedResourceRevision = .ok intent.proposalHash

theorem Stores.holds {env : Env} {amb : Ambient} {input : ApprovalIntentInput} {args : Json} {db db' : DB}
    {intent : ApprovalIntent} (h : Stores env amb input args db intent db') :
    HasArguments input args intent db' := by
  obtain ⟨hargs, hrun, hfresh⟩ := h
  simp only [createApprovalIntent, bind_eq_ok, getOr_eq_ok, rejectIf_eq_ok, exists_const, hargs] at hrun
  obtain ⟨-, hash, hhash, w, -, -, n, -, -, hrun⟩ := hrun
  split at hrun
  · rename_i existing hpending
    simp only [bind_eq_ok, rejectIf_eq_ok, exists_const, pure_eq_ok, Prod.mk.injEq] at hrun
    obtain ⟨-, rfl, -⟩ := hrun
    have hrow := Table.get_of_mem (List.mem_of_find?_eq_some hpending)
    rw [hfresh] at hrow
    cases hrow
  · simp only [insertIntent, bind_eq_ok, getOr_eq_ok] at hrun
    obtain ⟨arguments, harguments, intents, hins, hrun⟩ := hrun
    have hdoc : arguments.doc = args.jsonb := Jsonb.doc_of_ofJson? harguments
    split at hrun
    · simp only [bind_eq_ok, pure_eq_ok, Prod.mk.injEq] at hrun
      obtain ⟨db₁, hhist, db₂, hout, rfl, rfl⟩ := hrun
      obtain ⟨history, -, rfl⟩ := insertHistory_eq_ok hhist
      obtain ⟨-, event, outbox, -, -, -, -, -, rfl⟩ := insertOutbox_eq_ok hout
      exact ⟨Table.get_insert_self hins, hdoc, rfl, rfl, hhash⟩
    · simp only [pure_eq_ok, Prod.mk.injEq] at hrun
      obtain ⟨rfl, rfl⟩ := hrun
      exact ⟨Table.get_insert_self hins, hdoc, rfl, rfl, hhash⟩

/-- The arguments of an intent do not change. -/
theorem canonicalArguments_of_step {db : DB} {i i' : ApprovalIntent} (h : i.Step db i') :
    i'.canonicalArguments = i.canonicalArguments := by
  cases h <;> rfl

theorem HasArguments.step {env : Env} {input : ApprovalIntentInput} {args : Json} {w w' : World}
    {events : List Event} {i : ApprovalIntent} (h : HasArguments input args i w.db)
    (hs : World.Step env w events w') :
    ∃ i', i'.intentID = i.intentID ∧ HasArguments input args i' w'.db := by
  obtain ⟨i', hi', rfl | hstep⟩ := hs.intents.kept _ i h.row
  · exact ⟨i', rfl, hi', h.arguments, h.target, h.revision, h.hash⟩
  · have hsame := hstep.sameProposal
    refine ⟨i', hsame.intentID, by rw [hsame.intentID]; exact hi', ?_, ?_, ?_, ?_⟩
    · rw [canonicalArguments_of_step hstep]
      exact h.arguments
    · rw [hsame.target]
      exact h.target
    · rw [hsame.expectedResourceRevision]
      exact h.revision
    · rw [hsame.proposalHash]
      exact h.hash

theorem HasArguments.run {env : Env} {input : ApprovalIntentInput} {args : Json} {w w' : World}
    {trace : List Event} {i : ApprovalIntent} (h : HasArguments input args i w.db)
    (hrun : World.Run env w trace w') :
    ∃ i', i'.intentID = i.intentID ∧ HasArguments input args i' w'.db := by
  refine hrun.keeps (I := fun w => ∃ i', i'.intentID = i.intentID ∧ HasArguments input args i' w.db)
    ⟨i, rfl, h⟩ ?_
  rintro events w w' ⟨i', hid, hi'⟩ hs
  obtain ⟨i'', hid', hi''⟩ := hi'.step hs
  exact ⟨i'', hid'.trans hid, hi''⟩

-- ============================================================================
-- What is computed again
-- ============================================================================

/-- The arguments of a request that was stored are not nested too deep. -/
theorem HasArguments.shallow {input : ApprovalIntentInput} {args : Json} {i : ApprovalIntent} {db : DB}
    (h : HasArguments input args i db) : args.shallow = true ∧ i.canonicalArguments.doc.shallow = true := by
  have hhash := h.hash
  simp only [proposalHash, bind_eq_ok] at hhash
  obtain ⟨-, -, _, hhash, -⟩ := hhash
  obtain ⟨v, hv, hshallow, -⟩ := canonicalPayloadHash_eq_ok.mp hhash
  cases hv
  exact ⟨hshallow, h.arguments ▸ Json.shallow_jsonb hshallow⟩

/-- A call with the granted arguments is refused for them when the hashes differ, and for nothing
    else. -/
theorem checkGrant_of_presents {now : Int} {call : EffectApplyInput} {args : Json} {db : DB}
    {i : ApprovalIntent} (h : Presents now call args db i) (hsettled : i.IsSettled)
    (hshallow : i.canonicalArguments.doc.shallow = true) :
    checkGrant now call db =
      if Sha256.hexSum (marshal i.canonicalArguments.doc) = Sha256.hexSum (marshal args) then .ok ()
      else .error (.sentinel .effectArguments) := by
  obtain ⟨v, hv, hargs, hhash⟩ := canonicalPayloadHash_eq_ok.mp h.argumentHash
  cases hv
  have hlive : ¬ (i.decision ≠ .approved ∨ i.isGranted = false ∨
      i.grantScopeHash ≠ call.grantScopeHash ∨ ¬ ∃ expiry ∈ i.grantExpiresAt, now < expiry) := by
    rintro (happroved | hgranted | hscope | hexpired)
    · exact happroved hsettled.1
    · rw [hsettled.2] at hgranted
      cases hgranted
    · exact hscope h.scope.symm
    · exact hexpired h.unexpired
  have hvalid : ¬ ((!(RawMessage.json args).valid) = true) := by simp [RawMessage.valid, hargs]
  simp only [checkGrant, rejectIf_of_not _ h.complete, rejectIf_of_not _ h.named, rejectIf_of_not _ hvalid,
    h.grant, rejectIf_of_not _ hlive, rejectIf_of_not _ (not_not.mpr h.revision),
    rejectIf_of_not _ (not_not.mpr h.target), rejectIf_of_not _ (not_not.mpr h.key.symm), ok_bind,
    h.state, canonicalPayloadHash, if_pos hargs, if_pos hshallow]
  by_cases heq : Sha256.hexSum (marshal i.canonicalArguments.doc) = Sha256.hexSum (marshal args)
  · rw [if_pos heq, rejectIf_of_not]
    · rfl
    · rintro (hne | hne)
      · exact hne heq.symm
      · exact hne hhash
  · rw [if_neg heq, rejectIf_of _ (.inl (Ne.symm heq))]
    rfl

/-- The checker computes the hash of the request when the hash of the arguments is the same. -/
theorem expectedProposal_of_holds {input : ApprovalIntentInput} {args : Json} {i : ApprovalIntent} {db : DB}
    (h : HasArguments input args i db)
    (heq : Sha256.hexSum (marshal i.canonicalArguments.doc) = Sha256.hexSum (marshal args)) :
    (approvalRecord i).map ApprovalRecord.expectedProposal = some i.proposalHash := by
  obtain ⟨hargs, hshallow⟩ := h.shallow
  have hhash := h.hash
  simp only [proposalHash, canonicalPayloadHash, if_pos hargs, bind_eq_ok, pure_eq_ok, Except.ok.injEq] at hhash
  obtain ⟨-, -, _, rfl, hhash⟩ := hhash
  rw [← hhash, ← heq, ← h.target, ← h.revision]
  simp only [approvalRecord, canonicalJSONHash, if_pos hshallow]
  rfl

/-- Granted arguments come back as they were approved exactly when every number that is not
    overwritten is spelled as a `numeric` prints, or the two spellings have one digest. -/
theorem arguments_round_trip {env : Env} {amb : Ambient} {input : ApprovalIntentInput} {args : Json}
    {w₀ w : World} {db : DB} {intent i : ApprovalIntent} {trace : List Event} {now : Int}
    {call : EffectApplyInput} (hstored : Stores env amb input args w₀.db intent db)
    (hrun : World.Run env { w₀ with db := db } trace w)
    (hrow : w.db.intents.get intent.intentID = some i) (hsettled : i.IsSettled)
    (hcall : Presents now call args w.db i) :
    RoundTrips now input call w.db i ↔
      args.printed = true ∨ Collide (marshal args.jsonb) (marshal args) := by
  obtain ⟨i', hid, hholds⟩ := hstored.holds.run hrun
  obtain rfl : i' = i := by
    rw [← hid, hholds.row] at hrow
    exact Option.some.inj hrow
  have hcheck := checkGrant_of_presents hcall hsettled hholds.shallow.2
  rw [← marshal_jsonb_eq_iff, ← hexSum_eq_iff, ← hholds.arguments]
  constructor
  · intro h
    by_contra hne
    rw [if_neg hne] at hcheck
    exact h.accepted hcheck
  · intro heq
    rw [if_pos heq] at hcheck
    refine ⟨?_, i'.proposalHash, ?_, expectedProposal_of_holds hholds heq⟩
    · rw [hcheck]
      exact fun he => nomatch he
    · rw [hstored.submitted]
      exact hholds.hash

-- ============================================================================
-- Two requests
-- ============================================================================

/-- A request to approve the arguments for the resource `r`. -/
def argumentsRequest (args : Json) : ApprovalIntentInput :=
  ⟨soloLease, "w", "a", 0, 1, "r", .json args, "0", 10, "scheduler"⟩

def argumentsProposal (args : Json) : String := (proposalHash "r" (.json args) "0").toOption.getD ""

/-- The proposal is approved for the effect `key`. -/
def grantScript (args : Json) : List Move := [
  .call (.recordApprovalDecision ⟨uuidOf 4 3, "approver", argumentsProposal args, .approved, ""⟩),
  .call (.applyApproval ⟨soloLease, "w", "a", 0, uuidOf 4 3, "key", 2, "scheduler"⟩)]

/-- A call under the grant of `grantScript`. -/
def argumentsEffect (args : Json) : EffectApplyInput := { soloEffect "first" 1 with
  argumentHash := Sha256.hexSum (marshal args)
  grantScopeHash := grantScopeHash (argumentsProposal args) "0" "key" "r"
  state := .json args }

/-- The intent is granted to the call for `args`. -/
def grantedFor (args : Json) (db : DB) (i : ApprovalIntent) : Bool :=
  decide (i.decision = .approved ∧ i.isGranted = true ∧ i.grantExpiresAt = some 10 ∧
    (argumentsEffect args).grantScopeHash = i.grantScopeHash ∧ i.proposalHash = argumentsProposal args ∧
    i.expectedResourceRevision = "0" ∧ i.target = "r" ∧ (argumentsEffect args).argumentHash ≠ "" ∧
    (argumentsEffect args).grantScopeHash ≠ "") &&
  (grantIntent (argumentsEffect args) db).toOption.any (fun i' => decide (i'.intentID = i.intentID))

/-- The request for `args` is stored and granted. -/
def showsGrant (args : Json) : Bool :=
  (World.moves? .plain 0 (approvedScript.take 3) (World.start 0)).any (fun r₀ =>
    (createApprovalIntent .plain (.drawn 3) (argumentsRequest args) r₀.2.db).toOption.any (fun created =>
      (r₀.2.db.intents.get created.1.intentID).isNone &&
      (World.moves? .plain 4 (grantScript args) { r₀.2 with db := created.2 }).any (fun r =>
        (r.2.db.intents.get created.1.intentID).any (grantedFor args r.2.db))))

theorem toOption_any {ε α : Type} {x : Except ε α} {p : α → Bool} (h : x.toOption.any p = true) :
    ∃ a, x = .ok a ∧ p a = true := by
  cases x with
  | error => cases h
  | ok a => exact ⟨a, rfl, h⟩

theorem presents_of_grantedFor {args : Json} {db : DB} {i : ApprovalIntent} (hshallow : args.shallow = true)
    (hrow : db.intents.get i.intentID = some i) (h : grantedFor args db i = true) :
    i.IsSettled ∧ Presents 0 (argumentsEffect args) args db i := by
  simp only [grantedFor, Bool.and_eq_true, decide_eq_true_eq] at h
  obtain ⟨⟨happroved, hgranted, hexpiry, hscope, hproposal, hrevision, htarget, hhash, hnamed⟩,
    hintent⟩ := h
  obtain ⟨i', hi', hid⟩ := toOption_any hintent
  obtain rfl : i' = i := by
    have hgrant := hi'
    simp only [grantIntent, bind_eq_ok, getOr_eq_ok, Option.filter_eq_some_iff] at hgrant
    obtain ⟨id, -, token, -, hget, -⟩ := hgrant
    rw [← Table.key_of_get hget, of_decide_eq_true hid, hrow] at hget
    exact (Option.some.inj hget).symm
  refine ⟨⟨happroved, hgranted⟩, ?_, ?_, rfl,
    canonicalPayloadHash_eq_ok.mpr ⟨args, rfl, hshallow, rfl⟩, hi', ⟨10, hexpiry, by decide⟩, hscope, ?_,
    hrevision.symm, htarget.symm⟩
  · have hother : ¬ ("w" = "" ∨ "a" = "" ∨ (0 : Int) < 0 ∨ "key" = "" ∨ "first" = "" ∨ (1 : Int) ≤ 0 ∨
        "r" = "" ∨ (1 : Int) ≤ 0) := by decide
    rintro (h | h | h | h | h | h | h)
    · exact hother (.inl h)
    · exact hother (.inr (.inl h))
    · exact hother (.inr (.inr (.inl h)))
    · exact hother (.inr (.inr (.inr (.inl h))))
    · exact hhash h
    · exact hother (.inr (.inr (.inr (.inr (.inl h)))))
    · exact hother (.inr (.inr (.inr (.inr (.inr h)))))
  · have hids : ¬ (uuidOf 4 3 = "" ∨ uuidOf 5 5 = "") := by decide
    rintro (h | h | h)
    · exact hids (.inl h)
    · exact hids (.inr h)
    · exact hnamed h
  · rw [hproposal, hrevision, htarget]
    rfl

theorem granted_of_shown {args : Json} (hshallow : args.shallow = true) (h : showsGrant args = true) :
    ∃ (w₀ : World) (db : DB) (intent i : ApprovalIntent) (trace : List Event) (w : World),
      Stores .plain (.drawn 3) (argumentsRequest args) args w₀.db intent db ∧
      World.Run .plain { w₀ with db := db } trace w ∧ w.db.intents.get intent.intentID = some i ∧
      i.IsSettled ∧ Presents 0 (argumentsEffect args) args w.db i := by
  obtain ⟨⟨trace₀, w₀⟩, -, h⟩ := (Option.any_eq_true _ _).mp h
  obtain ⟨⟨intent, db⟩, hcreate, h⟩ := toOption_any h
  simp only [Bool.and_eq_true, Option.isNone_iff_eq_none] at h
  obtain ⟨hfresh, h⟩ := h
  obtain ⟨⟨trace, w⟩, hmoves, h⟩ := (Option.any_eq_true _ _).mp h
  obtain ⟨i, hrow, h⟩ := (Option.any_eq_true _ _).mp h
  have hrow' := hrow
  rw [← Table.key_of_get hrow] at hrow'
  exact ⟨w₀, db, intent, i, trace, w, ⟨rfl, hcreate, hfresh⟩, World.run_of_moves? hmoves, hrow,
    presents_of_grantedFor hshallow hrow' h⟩

/-- A document whose members are not in order, with a fraction and a negative number. -/
def plainArguments : Json := .obj [("b", .num ⟨false, 150, 2, none⟩), ("a", .arr [.num ⟨true, 2, 0, none⟩])]

theorem arguments_round_trip_plain :
    ∃ db i, RoundTrips 0 (argumentsRequest plainArguments) (argumentsEffect plainArguments) db i := by
  have hshown : showsGrant plainArguments = true ∧ plainArguments.printed = true := by decide +kernel
  obtain ⟨w₀, db, intent, i, trace, w, hstored, hrun, hrow, hsettled, hcall⟩ := granted_of_shown (by decide) hshown.1
  exact ⟨w.db, i, (arguments_round_trip hstored hrun hrow hsettled hcall).mpr (.inl hshown.2)⟩

/-- The document `{"n":1e2}`. -/
def exponentArguments : Json := .obj [("n", .num ⟨false, 1, 0, some ⟨false, none, 0, 2⟩⟩)]

/-- Arguments with an exponent are refused where they were granted. -/
theorem arguments_not_round_trip :
    ¬ ∀ (env : Env) (amb : Ambient) (input : ApprovalIntentInput) (args : Json) (w₀ w : World) (db : DB)
      (intent i : ApprovalIntent) (trace : List Event) (now : Int) (call : EffectApplyInput),
      Stores env amb input args w₀.db intent db → World.Run env { w₀ with db := db } trace w →
      w.db.intents.get intent.intentID = some i → i.IsSettled → Presents now call args w.db i →
      RoundTrips now input call w.db i := by
  have hshown : showsGrant exponentArguments = true ∧
      Sha256.hexSum (marshal exponentArguments.jsonb) ≠ Sha256.hexSum (marshal exponentArguments) := by
    decide +kernel
  obtain ⟨w₀, db, intent, i, trace, w, hstored, hrun, hrow, hsettled, hcall⟩ := granted_of_shown (by decide) hshown.1
  intro h
  have haccepted := (h _ _ _ _ _ _ _ _ _ _ _ _ hstored hrun hrow hsettled hcall).accepted
  obtain ⟨i', hid, hholds⟩ := hstored.holds.run hrun
  obtain rfl : i' = i := by
    rw [← hid, hholds.row] at hrow
    exact Option.some.inj hrow
  rw [checkGrant_of_presents hcall hsettled hholds.shallow.2, hholds.arguments, if_neg hshown.2] at haccepted
  exact haccepted rfl

end DurableEngine.Services
