/-
  DurableEngine.Services.Script

  Scripts of the world: a list of moves, each by a party that is named by its
  position, and the run they describe.  `run_of_moves?` turns an evaluated
  script into a run.
-/

import DurableEngine.Services.World

namespace DurableEngine.Services

open Lib State

universe u

/-- One entry of a script. -/
inductive Move where
  | tick (d : Nat)
  | call {α : Type} (op : Op α)
  | claim (config : RelayConfig)
  | publish (position : Nat)
  | fail (position : Nat) (error : String)
  | finalize (position : Nat)
  | crash (position : Nat)
  | quarantine (input : QuarantineOutboxInput)
  | ensure (k : StreamKey) (nextOffset : Int)
  | record (wakeupID : String) (m : InboxMessage)
  | poison (m : InboxMessage) (reason : String)
  | check (now : Int) (input : EffectApplyInput)
  | next (position : Nat)
  | unknown (input : UnknownEffectInput)
  | resolve (resolutionID : String) (input : ResolveEffectInput)

/-- The element at a position, with those before and after it. -/
def splitAt? {α : Type u} (l : List α) (position : Nat) : Option (List α × α × List α) :=
  match l.drop position with
  | [] => none
  | a :: after => some (l.take position, a, after)

theorem splitAt?_eq_some {α : Type u} {l before after : List α} {position : Nat} {a : α}
    (h : splitAt? l position = some (before, a, after)) : l = before ++ a :: after := by
  unfold splitAt? at h
  split at h
  · cases h
  · rename_i b rest hdrop
    cases h
    rw [← hdrop, List.take_append_drop]

namespace Relays

/-- The events and the state after a relay's move, absent when it is not a step. -/
def move? (env : Env) (s : Relays) : Move → Option (List RelayEvent × Relays)
  | .claim config =>
      match claimOutbox config.claim (fun _ => false) s.db with
      | .ok (events, db') =>
          some (Pass.claimed config events, ⟨db', ⟨config, events, .not_yet⟩ :: s.passes⟩)
      | .error _ => none
  | .publish position =>
      match splitAt? s.passes position with
      | some (before, ⟨config, event :: rest, .not_yet⟩, after) =>
          if supportedEventType event.eventType then
            some ([.published event.eventID config.ownerID event.relayAttempts],
              { s with passes := before ++ ⟨config, event :: rest, .acknowledged⟩ :: after })
          else none
      | _ => none
  | .fail position error =>
      match splitAt? s.passes position with
      | some (before, ⟨config, event :: rest, .not_yet⟩, after) =>
          if supportedEventType event.eventType then
            some ([], { s with passes := before ++ ⟨config, event :: rest, .failed error⟩ :: after })
          else none
      | _ => none
  | .finalize position =>
      match splitAt? s.passes position with
      | some (before, ⟨config, event :: rest, published⟩, after) =>
          match Pass.finalizes config event published with
          | some input =>
              match finalizeOutboxPublication input s.db with
              | .ok ((), db') => some ([], ⟨db', before ++ ⟨config, rest, .not_yet⟩ :: after⟩)
              | .error _ => none
          | none => none
      | _ => none
  | .crash position =>
      match splitAt? s.passes position with
      | some (before, _, after) => some ([], { s with passes := before ++ after })
      | none => none
  | .quarantine input =>
      match quarantineOutbox env input s.db with
      | .ok ((), db') => some ([], { s with db := db' })
      | .error _ => none
  | _ => none

theorem step_of_move? {env : Env} {s s' : Relays} {move : Move} {events : List RelayEvent}
    (h : s.move? env move = some (events, s')) : Step env s events s' := by
  cases move with
  | claim config =>
      simp only [move?] at h
      split at h
      · rename_i claimed db' hclaim
        cases h
        exact .claim s config _ claimed db' hclaim
      · cases h
  | publish position =>
      simp only [move?] at h
      split at h
      · rename_i before config event rest after hsplit
        obtain ⟨hsupported, heq⟩ := Option.ite_none_right_eq_some.mp h
        cases heq
        exact .publish s before after config event rest (splitAt?_eq_some hsplit) hsupported
      · cases h
  | fail position error =>
      simp only [move?] at h
      split at h
      · rename_i before config event rest after hsplit
        obtain ⟨hsupported, heq⟩ := Option.ite_none_right_eq_some.mp h
        cases heq
        exact .fail s before after config event rest error (splitAt?_eq_some hsplit) hsupported
      · cases h
  | finalize position =>
      simp only [move?] at h
      split at h
      · rename_i before config event rest published after hsplit
        split at h
        · rename_i input hcall
          split at h
          · rename_i db' hok
            cases h
            exact .finalize s before after config event rest published input db'
              (splitAt?_eq_some hsplit) hcall hok
          · cases h
        · cases h
      · cases h
  | crash position =>
      simp only [move?] at h
      split at h
      · rename_i before pass after hsplit
        cases h
        exact .lost s before after pass (splitAt?_eq_some hsplit)
      · cases h
  | quarantine input =>
      simp only [move?] at h
      split at h
      · rename_i db' hok
        cases h
        exact .quarantine s input db' hok
      · cases h
  | tick | call | ensure | record | poison | check | next | unknown | resolve => cases h

end Relays

namespace Consumers

/-- The events and the database after a consumer's move, absent when it is not a step. -/
def move? (env : Env) (db : DB) : Move → Option (List ConsumerEvent × DB)
  | .ensure k nextOffset =>
      match ensureConsumerOffset k nextOffset db with
      | .ok ((), db') =>
          some ([.ensured k nextOffset (db.transport.consumerOffsets.get k).isNone], db')
      | .error _ => none
  | .record wakeupID m =>
      match recordInbox wakeupID m db with
      | .ok (r, db') => some ([.recorded m r], db')
      | .error _ => none
  | .poison m reason =>
      match quarantineMessage env m reason db with
      | .ok (r, db') => some ([.poisoned m r], db')
      | .error _ => none
  | _ => none

theorem step_of_move? {env : Env} {db db' : DB} {move : Move} {events : List ConsumerEvent}
    (h : move? env db move = some (events, db')) : Step env db events db' := by
  cases move with
  | ensure k nextOffset =>
      simp only [move?] at h
      split at h
      · rename_i db₁ hok
        cases h
        exact .ensure db k nextOffset db' hok
      · cases h
  | record wakeupID m =>
      simp only [move?] at h
      split at h
      · rename_i r db₁ hok
        cases h
        exact .record db wakeupID m r db' hok
      · cases h
  | poison m reason =>
      simp only [move?] at h
      split at h
      · rename_i r db₁ hok
        cases h
        exact .poison db m reason r db' hok
      · cases h
  | tick | call | claim | publish | fail | finalize | crash | quarantine | check | next | unknown
  | resolve => cases h

end Consumers

namespace EffectCalls

/-- The next step of the call at a position. -/
def next? (s : EffectCalls) (before after : List EffectCall) :
    EffectCall → Option (List EffectEvent × EffectCalls)
  | .checked input =>
      match effectRecord input s.db with
      | some record =>
          let (reply, db') := settleExisting record input s.db
          some ([.answered input reply], ⟨db', before ++ EffectCall.afterReply input reply ++ after⟩)
      | none => some ([], { s with calls := before ++ .missed input :: after })
  | .missed input =>
      match applyMissing input s.db with
      | .ok (reply, db') =>
          some ([.answered input reply], ⟨db', before ++ EffectCall.afterReply input reply ++ after⟩)
      | .error _ => none
  | .settled input =>
      match markGrantDispatched input s.db with
      | .ok ((), db') => some ([], ⟨db', before ++ after⟩)
      | .error _ => none

/-- The events and the state after a move of the service, absent when it is not a step. -/
def move? (s : EffectCalls) : Move → Option (List EffectEvent × EffectCalls)
  | .check now input =>
      match checkGrant now input s.db with
      | .ok () => some ([.authorised input], { s with calls := .checked input :: s.calls })
      | .error _ => none
  | .next position =>
      match splitAt? s.calls position with
      | some (before, call, after) => s.next? before after call
      | none => none
  | .unknown input =>
      match recordUnknownEffect input s.db with
      | .ok (_, db') => some ([], { s with db := db' })
      | .error _ => none
  | .resolve resolutionID input =>
      match resolveUnknownEffect resolutionID input s.db with
      | .ok ((), db') => some ([], { s with db := db' })
      | .error _ => none
  | _ => none

theorem step_of_next? {s s' : EffectCalls} {before after : List EffectCall} {call : EffectCall}
    {events : List EffectEvent} (hcalls : s.calls = before ++ call :: after)
    (h : s.next? before after call = some (events, s')) : Step s events s' := by
  cases call with
  | checked input =>
      simp only [next?] at h
      split at h
      · rename_i record hlookup
        cases h
        exact .found s before after input record _ _ hcalls hlookup rfl
      · rename_i hlookup
        cases h
        exact .miss s before after input hcalls hlookup
  | missed input =>
      simp only [next?] at h
      split at h
      · rename_i reply db' hok
        cases h
        exact .apply s before after input reply db' hcalls hok
      · cases h
  | settled input =>
      simp only [next?] at h
      split at h
      · rename_i db' hok
        cases h
        exact .mark s before after input db' hcalls hok
      · cases h

theorem step_of_move? {s s' : EffectCalls} {move : Move} {events : List EffectEvent}
    (h : s.move? move = some (events, s')) : Step s events s' := by
  cases move with
  | check now input =>
      simp only [move?] at h
      split at h
      · rename_i hok
        cases h
        exact .check s now input hok
      · cases h
  | next position =>
      simp only [move?] at h
      split at h
      · rename_i before call after hsplit
        exact step_of_next? (splitAt?_eq_some hsplit) h
      · cases h
  | unknown input =>
      simp only [move?] at h
      split at h
      · rename_i record db' hok
        cases h
        exact .unknown s input record db' hok
      · cases h
  | resolve resolutionID input =>
      simp only [move?] at h
      split at h
      · rename_i db' hok
        cases h
        exact .resolve s resolutionID input db' hok
      · cases h
  | tick | call | claim | publish | fail | finalize | crash | quarantine | ensure | record
  | poison => cases h

end EffectCalls

namespace World

/-- The first of the parties that can make the move. -/
def partyMove? (env : Env) (w : World) (move : Move) : Option (List Event × World) :=
  match Relays.move? env ⟨w.db, w.passes⟩ move with
  | some (events, s') => some (events.map .relay, ⟨s'.db, s'.passes, w.calls⟩)
  | none =>
      match Consumers.move? env w.db move with
      | some (events, db') => some (events.map .consumer, { w with db := db' })
      | none =>
          match EffectCalls.move? ⟨w.db, w.calls⟩ move with
          | some (events, s') => some (events.map .effect, ⟨s'.db, w.passes, s'.calls⟩)
          | none => none

/-- The events and the world after a move, absent when it is not a step. -/
def move? (env : Env) (amb : Ambient) (w : World) : Move → Option (List Event × World)
  | .tick d => some ([], { w with db := w.db.tick d })
  | .call op =>
      match op.run env amb w.db with
      | .ok (_, db') => if db'.EventIDsTyped then some ([], { w with db := db' }) else none
      | .error _ => none
  | move => w.partyMove? env move

theorem step_of_partyMove? {env : Env} {w w' : World} {move : Move} {events : List Event}
    (h : w.partyMove? env move = some (events, w')) : Step env w events w' := by
  simp only [partyMove?] at h
  split at h
  · rename_i shown s' hmove
    cases h
    exact .relay w shown s' (Relays.step_of_move? hmove)
  · split at h
    · rename_i shown db' hmove
      cases h
      exact .consumer w shown db' (Consumers.step_of_move? hmove)
    · split at h
      · rename_i shown s' hmove
        cases h
        exact .effect w shown s' (EffectCalls.step_of_move? hmove)
      · cases h

theorem step_of_move? {env : Env} {amb : Ambient} {w w' : World} {move : Move} {events : List Event}
    (h : w.move? env amb move = some (events, w')) : Step env w events w' := by
  cases move with
  | tick d =>
      cases h
      exact .tick w d
  | call op =>
      simp only [move?] at h
      split at h
      · rename_i a db' hrun
        obtain ⟨htyped, heq⟩ := Option.ite_none_right_eq_some.mp h
        cases heq
        exact .commit w amb op a db' hrun htyped
      · cases h
  | claim | publish | fail | finalize | crash | quarantine | ensure | record | poison | check | next
  | unknown | resolve =>
      simp only [move?] at h
      exact step_of_partyMove? h

/-- The trace and the world a script leads to, its first entry being the `n`-th call. -/
def moves? (env : Env) : Nat → List Move → World → Option (List Event × World)
  | _, [], w => some ([], w)
  | n, move :: script, w =>
      match w.move? env (.drawn n) move with
      | none => none
      | some (events, w') => (moves? env (n + 1) script w').map (fun r => (events ++ r.1, r.2))

/-- A script after another starts where that one ends. -/
theorem moves?_append {env : Env} {n : Nat} {first : List Move} {w w' : World}
    (h : moves? env n first w = some ([], w')) (script : List Move) :
    moves? env n (first ++ script) w = moves? env (n + first.length) script w' := by
  induction first generalizing n w with
  | nil =>
      cases h
      rfl
  | cons move first ih =>
      rw [List.cons_append, List.length_cons]
      simp only [moves?] at h ⊢
      cases hmove : w.move? env (.drawn n) move with
      | none =>
          rw [hmove] at h
          cases h
      | some r =>
          rw [hmove] at h
          obtain ⟨⟨trace, w₂⟩, hrest, heq⟩ := Option.map_eq_some_iff.mp h
          obtain ⟨hnil, rfl⟩ := Prod.mk.injEq .. ▸ heq
          obtain ⟨hevents, rfl⟩ := List.append_eq_nil_iff.mp hnil
          dsimp only
          rw [ih hrest, hevents, show n + 1 + first.length = n + (first.length + 1) by omega]
          exact Option.map_id_apply

theorem run_of_moves? {env : Env} {n : Nat} {script : List Move} {w w' : World} {trace : List Event}
    (h : moves? env n script w = some (trace, w')) : Run env w trace w' := by
  induction script generalizing n w trace with
  | nil =>
      cases h
      exact .refl
  | cons move script ih =>
      simp only [moves?] at h
      split at h
      · cases h
      · rename_i events w₁ hmove
        obtain ⟨⟨rest, w₂⟩, hrest, heq⟩ := Option.map_eq_some_iff.mp h
        cases heq
        exact .head (step_of_move? hmove) (ih hrest)

end World

end DurableEngine.Services
