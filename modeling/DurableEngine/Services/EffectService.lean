/-
  DurableEngine.Services.EffectService

  The calls of the cooperating effect service.

  `ApplyEffect` runs in steps, and every other transaction may commit between
  two of them: the grant is checked, the record is looked up, and the
  transaction ends for the record that was found, or for the one that was
  missed.  The lookup locks the record it finds, so `found` is one step; a
  record that was missed is not locked, so `missed` and `apply` are two, and
  the insert of the record decides in `apply`.  The grant is marked last, in
  its own transaction.  A call may be lost at any point.
-/

import DurableEngine.State.EffectLedger

namespace DurableEngine.Services

open Lib State

/-- How far a call of `ApplyEffect` is: its grant was checked, its record was missed, or its
    effect transaction has committed and the grant is to be marked. -/
inductive EffectCall where
  | checked (input : EffectApplyInput)
  | missed (input : EffectApplyInput)
  | settled (input : EffectApplyInput)

def EffectCall.input : EffectCall → EffectApplyInput
  | .checked input | .missed input | .settled input => input

/-- What the service shows: the calls whose grant it accepted, and how their transactions ended. -/
inductive EffectEvent where
  | authorised (input : EffectApplyInput)
  | answered (input : EffectApplyInput) (reply : EffectReply)

/-- What is left of a call whose transaction has committed. -/
def EffectCall.afterReply (input : EffectApplyInput) : EffectReply → List EffectCall
  | .applied _ | .duplicate => [.settled input]
  | .refused _ => []

/-- The database and the calls in progress. -/
structure EffectCalls where
  db : DB
  calls : List EffectCall

/-- One step of the service. -/
inductive EffectCalls.Step : EffectCalls → List EffectEvent → EffectCalls → Prop where
  | check (s : EffectCalls) (now : Int) (input : EffectApplyInput)
      (h : checkGrant now input s.db = .ok ()) :
      Step s [.authorised input] { s with calls := .checked input :: s.calls }
  | found (s : EffectCalls) (before after : List EffectCall) (input : EffectApplyInput)
      (record : EffectRecord) (reply : EffectReply) (db' : DB)
      (calls : s.calls = before ++ .checked input :: after)
      (lookup : effectRecord input s.db = some record)
      (h : settleExisting record input s.db = (reply, db')) :
      Step s [.answered input reply] ⟨db', before ++ EffectCall.afterReply input reply ++ after⟩
  | miss (s : EffectCalls) (before after : List EffectCall) (input : EffectApplyInput)
      (calls : s.calls = before ++ .checked input :: after)
      (lookup : effectRecord input s.db = none) :
      Step s [] { s with calls := before ++ .missed input :: after }
  | apply (s : EffectCalls) (before after : List EffectCall) (input : EffectApplyInput)
      (reply : EffectReply) (db' : DB) (calls : s.calls = before ++ .missed input :: after)
      (h : applyMissing input s.db = .ok (reply, db')) :
      Step s [.answered input reply] ⟨db', before ++ EffectCall.afterReply input reply ++ after⟩
  | mark (s : EffectCalls) (before after : List EffectCall) (input : EffectApplyInput) (db' : DB)
      (calls : s.calls = before ++ .settled input :: after)
      (h : markGrantDispatched input s.db = .ok ((), db')) : Step s [] ⟨db', before ++ after⟩
  | lost (s : EffectCalls) (before after : List EffectCall) (call : EffectCall)
      (calls : s.calls = before ++ call :: after) : Step s [] { s with calls := before ++ after }
  | unknown (s : EffectCalls) (input : UnknownEffectInput) (record : EffectRecord) (db' : DB)
      (h : recordUnknownEffect input s.db = .ok (record, db')) : Step s [] { s with db := db' }
  | resolve (s : EffectCalls) (resolutionID : String) (input : ResolveEffectInput) (db' : DB)
      (h : resolveUnknownEffect resolutionID input s.db = .ok ((), db')) : Step s [] { s with db := db' }

-- ============================================================================
-- What a step does
-- ============================================================================

/-- What one step does to the ledger, with the events it shows. -/
inductive LedgerMove (e e' : EffectTables) : List EffectEvent → Prop where
  | same (events : List EffectEvent) (quiet : ∀ input revision, .answered input (.applied revision) ∉ events)
      (h : e' = e) : LedgerMove e e' events
  | refused (input : EffectApplyInput) (reply : EffectReply)
      (quiet : ∀ revision, reply ≠ .applied revision) (h : Refused e e') :
      LedgerMove e e' [.answered input reply]
  | mutated (input : EffectApplyInput) (revision : Int) (h : Mutated e e' input revision) :
      LedgerMove e e' [.answered input (.applied revision)]
  | evidenced (h : Evidenced e e') : LedgerMove e e' []

/-- What one step does to the intents: nothing, or one that was granted is dispatched. -/
inductive IntentMove (db db' : DB) : Prop where
  | same (h : db'.intents = db.intents)
  | dispatched (id : String) (intent : ApprovalIntent) (h : Dispatched db db' id intent)

namespace EffectCalls

/-- The tables the service writes. -/
theorem Step.frame {s s' : EffectCalls} {events : List EffectEvent} (h : Step s events s') :
    s'.db = { s.db with effects := s'.db.effects, intents := s'.db.intents } := by
  cases h with
  | check | miss | lost => rfl
  | found _ _ _ _ _ _ _ _ h =>
      rw [(settleExisting_eq h).1]
      rfl
  | apply _ _ _ _ _ _ h =>
      rw [(applyMissing_eq_ok h).1]
      rfl
  | mark _ _ _ _ _ h =>
      obtain ⟨id, intent, hdispatched⟩ := markGrantDispatched_eq_ok h
      rw [hdispatched.frame]
  | unknown _ _ _ h =>
      rw [(recordUnknownEffect_eq_ok h).1]
      rfl
  | resolve _ _ _ h =>
      rw [(resolveUnknownEffect_eq_ok h).1]
      rfl

theorem Step.ledger {s s' : EffectCalls} {events : List EffectEvent} (h : Step s events s') :
    LedgerMove s.db.effects s'.db.effects events := by
  cases h with
  | check => exact .same _ (fun _ _ hmem => by simp at hmem) rfl
  | miss | lost => exact .same _ (fun _ _ hmem => nomatch hmem) rfl
  | found before after input record reply db' _ _ h =>
      obtain ⟨-, hrefused, hquiet⟩ := settleExisting_eq h
      exact .refused input reply hquiet hrefused
  | apply before after input reply db' _ h =>
      obtain ⟨-, ⟨⟨e, rfl⟩, hrefused⟩ | ⟨revision, rfl, hmutated⟩⟩ := applyMissing_eq_ok h
      · exact .refused input _ (fun _ hr => nomatch hr) hrefused
      · exact .mutated input revision hmutated
  | mark before after input db' _ h =>
      obtain ⟨id, intent, hdispatched⟩ := markGrantDispatched_eq_ok h
      exact .same _ (fun _ _ hmem => nomatch hmem) (by rw [hdispatched.frame])
  | unknown input record db' h => exact .evidenced (recordUnknownEffect_eq_ok h).2
  | resolve resolutionID input db' h => exact .evidenced (resolveUnknownEffect_eq_ok h).2

theorem Step.intents {s s' : EffectCalls} {events : List EffectEvent} (h : Step s events s') :
    IntentMove s.db s'.db := by
  cases h with
  | check | miss | lost => exact .same rfl
  | found _ _ _ _ _ _ _ _ h => exact .same (by rw [(settleExisting_eq h).1]; rfl)
  | apply _ _ _ _ _ _ h => exact .same (by rw [(applyMissing_eq_ok h).1]; rfl)
  | mark _ _ _ _ _ h =>
      obtain ⟨id, intent, hdispatched⟩ := markGrantDispatched_eq_ok h
      exact .dispatched id intent hdispatched
  | unknown _ _ _ h => exact .same (by rw [(recordUnknownEffect_eq_ok h).1]; rfl)
  | resolve _ _ _ h => exact .same (by rw [(resolveUnknownEffect_eq_ok h).1]; rfl)

/-- Only calls whose grant was accepted go on, and only they are answered. -/
theorem Step.authorised {s s' : EffectCalls} {events trace : List EffectEvent} (h : Step s events s')
    (hcalls : ∀ call ∈ s.calls, .authorised call.input ∈ trace) :
    (∀ call ∈ s'.calls, .authorised call.input ∈ trace ++ events) ∧
      ∀ input reply, .answered input reply ∈ events → .authorised input ∈ trace := by
  have hold : ∀ {calls before after : List EffectCall} {call : EffectCall},
      calls = before ++ call :: after → call ∈ calls := by
    intro calls before after call heq
    rw [heq]
    exact List.mem_append_right _ List.mem_cons_self
  -- what is left after a reply is the same call, further on
  have hreply : ∀ {before after : List EffectCall} {old : EffectCall} (input : EffectApplyInput)
      (reply : EffectReply), s.calls = before ++ old :: after → old.input = input →
      ∀ call ∈ before ++ EffectCall.afterReply input reply ++ after,
        .authorised call.input ∈ trace := by
    intro before after old input reply heq hinput call hcall
    simp only [List.mem_append] at hcall
    rcases hcall with (hb | hr) | ha
    · exact hcalls call (by rw [heq]; exact List.mem_append_left _ hb)
    · cases reply with
      | applied revision =>
          obtain rfl := List.mem_singleton.mp hr
          exact hinput ▸ hcalls old (hold heq)
      | duplicate =>
          obtain rfl := List.mem_singleton.mp hr
          exact hinput ▸ hcalls old (hold heq)
      | refused e => cases hr
    · exact hcalls call (by rw [heq]; exact List.mem_append_right _ (List.mem_cons_of_mem _ ha))
  cases h with
  | check now input h =>
      refine ⟨fun call hcall => ?_, fun input' reply hmem => by simp at hmem⟩
      rcases List.mem_cons.mp hcall with rfl | hcall
      · exact List.mem_append_right _ (List.mem_singleton.mpr rfl)
      · exact List.mem_append_left _ (hcalls call hcall)
  | found before after input record reply db' heq _ _ =>
      refine ⟨fun call hcall => List.mem_append_left _ (hreply input reply heq rfl call hcall),
        fun input' reply' hmem => ?_⟩
      obtain ⟨rfl, rfl⟩ := EffectEvent.answered.inj (List.mem_singleton.mp hmem)
      exact hcalls _ (hold heq)
  | miss before after input heq _ =>
      refine ⟨fun call hcall => List.mem_append_left _ ?_, fun input' reply hmem => nomatch hmem⟩
      rcases List.mem_append.mp hcall with hb | ha
      · exact hcalls call (by rw [heq]; exact List.mem_append_left _ hb)
      · rcases List.mem_cons.mp ha with rfl | ha
        · exact hcalls (.checked input) (hold heq)
        · exact hcalls call (by rw [heq]; exact List.mem_append_right _ (List.mem_cons_of_mem _ ha))
  | apply before after input reply db' heq _ =>
      refine ⟨fun call hcall => List.mem_append_left _ (hreply input reply heq rfl call hcall),
        fun input' reply' hmem => ?_⟩
      obtain ⟨rfl, rfl⟩ := EffectEvent.answered.inj (List.mem_singleton.mp hmem)
      exact hcalls _ (hold heq)
  | mark before after input db' heq _ =>
      refine ⟨fun call hcall => List.mem_append_left _ (hcalls call ?_),
        fun input' reply hmem => nomatch hmem⟩
      rw [heq]
      exact ((List.Sublist.refl before).append (List.sublist_cons_self _ after)).subset hcall
  | lost before after old heq =>
      refine ⟨fun call hcall => List.mem_append_left _ (hcalls call ?_),
        fun input' reply hmem => nomatch hmem⟩
      rw [heq]
      exact ((List.Sublist.refl before).append (List.sublist_cons_self _ after)).subset hcall
  | unknown | resolve =>
      exact ⟨fun call hcall => List.mem_append_left _ (hcalls call hcall),
        fun input' reply hmem => nomatch hmem⟩

end EffectCalls

end DurableEngine.Services
