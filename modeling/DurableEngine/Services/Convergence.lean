/-
  DurableEngine.Services.Convergence

  When two concurrent calls of `ApplyEffect` for one effect come to one
  receipt.

  A call is on the path of a record that it found or on that of a record that
  it missed.  Two calls that look up the record while both transactions are
  open are on the same path to the end, and the second of two calls that missed
  the record is refused; otherwise the second finds the record of the first.
-/

import DurableEngine.Services.Racing

namespace DurableEngine.Services

open Lib State

-- ============================================================================
-- Paths
-- ============================================================================

namespace CallPoint

/-- The next statement is the lookup of the record or comes before it. -/
def isBefore : CallPoint → Bool
  | .arriving | .looking => true
  | _ => false

/-- The point is on the path of a call that found the record. -/
def onFound : CallPoint → Bool
  | .answering fenced _ _ | .closing fenced _ _ => !fenced
  | .marking (.duplicate _) | .ended (.ok (.duplicate _)) | .ended (.error _) => true
  | _ => false

/-- The point is on the path of a call that missed the record. -/
def onMissed : CallPoint → Bool
  | .missed | .ensured _ | .passed _ _ | .raised _ | .approved _ _ | .created _ | .mutated _ _ => true
  | .answering fenced _ _ | .closing fenced _ _ => fenced
  | .marking (.applied _) | .ended (.ok (.applied _)) | .ended (.error _) => true
  | _ => false

/-- The call comes to answer with the receipt on record. -/
def Follows (receipt : Jsonb) : CallPoint → Prop
  | .arriving | .looking => True
  | .answering fenced _ reply | .closing fenced _ reply => fenced = false ∧ reply = .duplicate (some receipt)
  | .marking reply | .ended (.ok reply) => reply = .duplicate (some receipt)
  | _ => False

/-- A call that has applied the effect. -/
def HasApplied (receipt : Jsonb) : CallPoint → Prop
  | .marking reply | .ended (.ok reply) => reply = .applied receipt
  | _ => False

/-- The statements that a call has at most before it. -/
def rank : CallPoint → Nat
  | .arriving => 12
  | .looking => 11
  | .missed => 10
  | .ensured _ => 9
  | .passed _ _ => 8
  | .raised _ => 7
  | .approved _ _ => 6
  | .created _ => 5
  | .mutated _ _ => 4
  | .answering _ _ _ => 3
  | .closing _ _ _ => 2
  | .marking _ => 1
  | .ended _ => 0

end CallPoint

section Paths

variable {e : EffectApplyInput} {db : DB} {p : CallPoint} {requestID : String} {attemptNumber : Int}

theorem existingReply_ne_applied {record : EffectRecord} {receipt : Jsonb} :
    ServiceCall.existingReply record e ≠ .applied receipt := by
  unfold ServiceCall.existingReply
  split
  · exact nofun
  · split <;> exact nofun

theorem existingReply_of_isApplied {record : EffectRecord} (h : record.IsApplied e) :
    ServiceCall.existingReply record e = .duplicate record.receipt := by
  unfold ServiceCall.existingReply
  rw [if_neg, if_neg]
  · rw [h.outcome]
    exact nofun
  · rw [h.argumentHash, h.grantScopeHash]
    simp

theorem onMissed_mutate {input : EffectApplyInput} {fence : ResourceFence} {revision : Int} :
    (ServiceCall.mutate input fence revision).onMissed = true := by
  unfold ServiceCall.mutate
  split <;> rfl

theorem onFound_exec (hp : Holds e db p) (h : p.onFound = true) :
    ((ServiceCall.mk (asRequest e requestID attemptNumber) p).exec db).1.onFound = true := by
  cases p with
  | arriving | looking | missed | ensured | passed | raised | approved | created | mutated => cases h
  | answering => exact h
  | closing fenced w reply =>
      obtain rfl : fenced = false := by simpa [CallPoint.onFound] using h
      obtain ⟨-, record, -, hreply⟩ := hp
      cases reply with
      | refused | duplicate => rfl
      | applied receipt => exact absurd hreply.symm existingReply_ne_applied
  | marking reply =>
      cases reply with
      | refused | applied => cases h
      | duplicate receipt =>
          simp only [ServiceCall.exec]
          split <;> rfl
  | ended => exact h

theorem onMissed_exec (hp : Holds e db p) (h : p.onMissed = true) :
    ((ServiceCall.mk (asRequest e requestID attemptNumber) p).exec db).1.onMissed = true := by
  cases p with
  | arriving | looking => cases h
  | missed | passed => rfl
  | ensured inserted =>
      simp only [ServiceCall.exec]
      split
      · rfl
      · unfold ServiceCall.checkFence
        split <;> rfl
  | raised fence =>
      simp only [ServiceCall.exec]
      split <;> rfl
  | approved fence sandbox =>
      cases sandbox with
      | none =>
          simp only [ServiceCall.exec]
          split <;> rfl
      | some sandbox => exact onMissed_mutate
  | created => exact onMissed_mutate
  | mutated fence sandbox =>
      simp only [ServiceCall.exec, ServiceCall.insertRecord]
      split <;> rfl
  | answering => exact h
  | closing fenced w reply =>
      obtain rfl : fenced = true := h
      cases reply with
      | refused | applied => rfl
      | duplicate receipt => exact hp.2.elim
  | marking reply =>
      cases reply with
      | refused | duplicate => cases h
      | applied receipt =>
          simp only [ServiceCall.exec]
          split <;> rfl
  | ended => exact h

/-- A call whose transaction is open after its statement has looked the record up before, or has
    just done so. -/
theorem isOpen_exec {c : ServiceCall} (h : (ServiceCall.mk c.input (c.exec db).1).isOpen = true) :
    (c.exec db).2 = db ∧ (c.isOpen = true ∨ c.point = .looking) := by
  obtain ⟨input, p⟩ := c
  cases p with
  | arriving | ended => cases h
  | looking =>
      refine ⟨?_, .inr rfl⟩
      simp only [ServiceCall.exec]
      split <;> rfl
  | missed | passed | created | mutated | answering => exact ⟨rfl, .inl rfl⟩
  | ensured | raised =>
      refine ⟨?_, .inl rfl⟩
      simp only [ServiceCall.exec]
      split <;> rfl
  | approved fence sandbox =>
      refine ⟨?_, .inl rfl⟩
      cases sandbox with
      | none =>
          simp only [ServiceCall.exec]
          split <;> rfl
      | some sandbox => rfl
  | closing fenced w reply => cases reply <;> cases h
  | marking reply =>
      simp only [ServiceCall.exec] at h
      split at h <;> cases h

/-- A call that has started does not go back before its lookup. -/
theorem isBefore_exec {c : ServiceCall} (hstarted : c.point ≠ .arriving) :
    (c.exec db).1.isBefore = false := by
  obtain ⟨input, p⟩ := c
  have hmutate : ∀ fence revision, (ServiceCall.mutate input fence revision).isBefore = false := by
    intro fence revision
    unfold ServiceCall.mutate
    split <;> rfl
  cases p with
  | arriving => exact absurd rfl hstarted
  | missed | passed | answering | ended => rfl
  | looking | raised | marking =>
      simp only [ServiceCall.exec]
      split <;> rfl
  | ensured =>
      simp only [ServiceCall.exec]
      split
      · rfl
      · unfold ServiceCall.checkFence
        split <;> rfl
  | approved fence sandbox =>
      cases sandbox with
      | none =>
          simp only [ServiceCall.exec]
          split <;> rfl
      | some sandbox => exact hmutate ..
  | created => exact hmutate ..
  | mutated =>
      simp only [ServiceCall.exec, ServiceCall.insertRecord]
      split <;> rfl
  | closing fenced w reply => cases reply <;> rfl

/-- An open transaction is on one of the paths. -/
theorem onFound_or_onMissed {c : ServiceCall} (h : c.isOpen = true) :
    c.point.onFound = true ∨ c.point.onMissed = true := by
  obtain ⟨input, p⟩ := c
  cases p with
  | arriving | looking | marking | ended => cases h
  | missed | ensured | passed | raised | approved | created | mutated => exact .inr rfl
  | answering fenced | closing fenced =>
      cases fenced with
      | true => exact .inr rfl
      | false => exact .inl rfl

/-- An open transaction is not on both. -/
theorem onMissed_eq_false {c : ServiceCall} (h : c.isOpen = true) (hfound : c.point.onFound = true) :
    c.point.onMissed = false := by
  obtain ⟨input, p⟩ := c
  cases p with
  | arriving | looking | marking | ended => cases h
  | missed | ensured | passed | raised | approved | created | mutated => cases hfound
  | answering fenced | closing fenced =>
      show fenced = false
      simpa [CallPoint.onFound] using hfound

/-- The lookup of the record. -/
theorem exec_looking {c : ServiceCall} (h : c.point = .looking) :
    (c.exec db).1 = match effectRecord c.input db with
      | some record => .answering false .empty (ServiceCall.existingReply record c.input)
      | none => .missed := by
  unfold ServiceCall.exec
  rw [h]
  dsimp only
  cases effectRecord c.input db <;> rfl

end Paths

namespace Race

variable {s s' : Race} {e : EffectApplyInput} {requestID : Caller → String} {attemptNumber : Caller → Int}
  {events trace : List RaceEvent}

/-- The two calls that have looked the record up at one time are on one path, which is that of a
    missed record as long as one of them is open on it and the other has not looked it up. -/
structure Paths (e : EffectApplyInput) (trace : List RaceEvent) (s : Race) : Prop where
  fresh : ∀ c, (s.call c).isOpen = true → (s.call c).point.onMissed = true →
    (s.call c.other).point.isBefore = true → effectRecord e s.db = none
  overlapped : ∀ c, .overlapped c ∈ trace →
    (∀ d, (s.call d).point.onFound = true) ∨ ∀ d, (s.call d).point.onMissed = true

theorem Paths.arrive (h : Paths e trace s) {c : Caller} {p : CallPoint}
    (harriving : (s.call c).point = .arriving) (hp : p = .looking ∨ ∃ e', p = .ended (.error e'))
    (hevents : ∀ d, .overlapped d ∉ events) : Paths e (trace ++ events) (s.moved c p s.db) := by
  refine ⟨fun d hopen hmissed hbefore => ?_, fun d hmem => ?_⟩
  · obtain rfl | rfl := c.eq_or_other d
    · rw [moved_self] at hopen
      obtain rfl | ⟨e', rfl⟩ := hp <;> cases hopen
    · rw [moved_other] at hopen hmissed
      refine h.fresh c.other hopen hmissed ?_
      rw [Caller.other_other, harriving]
      rfl
  · obtain hold | hnew := List.mem_append.mp hmem
    · obtain hpath | hpath := h.overlapped d hold
      all_goals
        have hself := hpath c
        rw [harriving] at hself
        cases hself
    · exact absurd hnew (hevents d)

theorem Sound.exec_looking (hs : Sound e requestID attemptNumber trace s) {c : Caller}
    (hlooking : (s.call c).point = .looking) :
    ((s.call c).exec s.db).1 = match effectRecord e s.db with
      | some record => .answering false .empty (ServiceCall.existingReply record e)
      | none => .missed := by
  rw [Services.exec_looking hlooking, hs.input c]
  rfl

/-- A call that looks the record up while the other is open comes onto the path of the other. -/
theorem Paths.look (h : Paths e trace s) (hs : Sound e requestID attemptNumber trace s) {c : Caller}
    (hlooking : (s.call c).point = .looking) (hopen : (s.call c.other).isOpen = true) :
    (((s.call c).exec s.db).1.onFound = true ∧ (s.call c.other).point.onFound = true) ∨
      (((s.call c).exec s.db).1.onMissed = true ∧ (s.call c.other).point.onMissed = true) := by
  have hlookup := hs.exec_looking hlooking
  have hholds := hs.holds c.other
  cases hrecord : effectRecord e s.db with
  | some record =>
      left
      rw [hlookup, hrecord]
      refine ⟨rfl, (onFound_or_onMissed hopen).resolve_right fun hmissed => ?_⟩
      have hfresh := h.fresh c.other hopen hmissed (by
        rw [Caller.other_other, hlooking]
        rfl)
      rw [hrecord] at hfresh
      cases hfresh
  | none =>
      right
      rw [hlookup, hrecord]
      refine ⟨rfl, (onFound_or_onMissed hopen).resolve_left fun hfound => ?_⟩
      generalize s.call c.other = x at hopen hholds hfound
      obtain ⟨input, p⟩ := x
      cases p with
      | arriving | looking | missed | ensured | passed | raised | approved | created | mutated => cases hfound
      | marking | ended => cases hopen
      | answering fenced | closing fenced =>
          obtain rfl : fenced = false := by simpa [CallPoint.onFound] using hfound
          obtain ⟨-, record, hsome, -⟩ := hholds
          rw [hrecord] at hsome
          cases hsome

theorem Paths.exec (h : Paths e trace s) (hs : Sound e requestID attemptNumber trace s) {c : Caller}
    (hstarted : (s.call c).point ≠ .arriving) :
    Paths e (trace ++ if (s.call c).isLooking && (s.call c.other).isOpen then [.overlapped c] else [])
      (s.moved c ((s.call c).exec s.db).1 ((s.call c).exec s.db).2) := by
  have hcall : s.call c = ⟨asRequest e (requestID c) (attemptNumber c), (s.call c).point⟩ := by
    rw [← hs.input c]
  refine ⟨fun d hopen hmissed hbefore => ?_, fun d hmem => ?_⟩
  · obtain rfl | rfl := c.eq_or_other d
    · rw [moved_self] at hopen hmissed
      rw [moved_other] at hbefore
      obtain ⟨hdb, hwas | hlooking⟩ := isOpen_exec hopen
      · rw [moved_db, hdb]
        refine h.fresh d hwas ((onFound_or_onMissed hwas).resolve_left fun hfound => ?_) hbefore
        have hstill : ((s.call d).exec s.db).1.onFound = true := by
          rw [hcall]
          exact onFound_exec (hs.holds d) hfound
        rw [onMissed_eq_false hopen hstill] at hmissed
        cases hmissed
      · rw [moved_db, hdb]
        rw [hs.exec_looking hlooking] at hmissed
        cases hrecord : effectRecord e s.db with
        | none => rfl
        | some record =>
            rw [hrecord] at hmissed
            cases hmissed
    · rw [Caller.other_other, moved_self, isBefore_exec hstarted] at hbefore
      cases hbefore
  · obtain hold | hnew := List.mem_append.mp hmem
    · refine (h.overlapped d hold).imp (fun hpath => ?_) (fun hpath => ?_)
      · refine forall_moved (P := fun _ x => x.point.onFound = true) ?_ (hpath c.other)
        rw [hcall]
        exact onFound_exec (hs.holds c) (hpath c)
      · refine forall_moved (P := fun _ x => x.point.onMissed = true) ?_ (hpath c.other)
        rw [hcall]
        exact onMissed_exec (hs.holds c) (hpath c)
    · obtain ⟨hlooks, hopen⟩ : (s.call c).isLooking = true ∧ (s.call c.other).isOpen = true := by
        rw [← Bool.and_eq_true]
        by_contra hnot
        rw [if_neg hnot] at hnew
        cases hnew
      have hlooking : (s.call c).point = .looking := by
        unfold ServiceCall.isLooking at hlooks
        split at hlooks
        · assumption
        · cases hlooks
      refine (h.look hs hlooking hopen).imp (fun hpath => ?_) (fun hpath => ?_)
      · exact forall_moved (P := fun _ x => x.point.onFound = true) hpath.1 hpath.2
      · exact forall_moved (P := fun _ x => x.point.onMissed = true) hpath.1 hpath.2

theorem Step.paths (h : Step s events s') (hs : Sound e requestID attemptNumber trace s)
    (hpaths : Paths e trace s) : Paths e (trace ++ events) s' := by
  cases h with
  | check c now harriving h => exact hpaths.arrive harriving (.inl rfl) nofun
  | refuse c now e' harriving h =>
      exact hpaths.arrive harriving (.inr ⟨e', rfl⟩) (fun d hmem => nomatch List.mem_singleton.mp hmem)
  | exec c hstarted hfree => exact hpaths.exec hs hstarted

-- ============================================================================
-- Calls that do not overlap
-- ============================================================================

/-- The calls have taken turns. -/
structure Apart (s : Race) : Prop where
  apart : ∀ c, (s.call c).isOpen = true → (s.call c.other).isOpen = false
  follows : ∀ c receipt, (s.call c).point.HasApplied receipt → (s.call c.other).point.Follows receipt

theorem apart_check {c : Caller} : Apart (s.moved c .looking s.db) := by
  refine ⟨fun d hopen => ?_, fun d receipt happlied => ?_⟩
  · obtain rfl | rfl := c.eq_or_other d
    · rw [moved_self] at hopen
      cases hopen
    · rw [Caller.other_other, moved_self]
      rfl
  · obtain rfl | rfl := c.eq_or_other d
    · rw [moved_self] at happlied
      cases happlied
    · rw [Caller.other_other, moved_self]
      trivial

/-- The call after the one that applied the effect finds its record and answers with its receipt. -/
theorem Sound.follows_exec (hs : Sound e requestID attemptNumber trace s) {c : Caller} {receipt : Jsonb}
    (hstarted : (s.call c).point ≠ .arriving) (happlied : (s.call c.other).point.HasApplied receipt)
    (hfollows : (s.call c).point.Follows receipt) : ((s.call c).exec s.db).1.Follows receipt := by
  have hlookup := @hs.exec_looking _ _ _ _ _ c
  have hgranted := hs.granted c
  have hrecord : ∃ record, effectRecord e s.db = some record ∧
      ServiceCall.existingReply record e = .duplicate (some receipt) := by
    have hholds := hs.holds c.other
    generalize (s.call c.other).point = p at happlied hholds
    unfold CallPoint.HasApplied at happlied
    split at happlied
    · subst happlied
      obtain ⟨record, hrecord, his, hreceipt⟩ := hholds
      exact ⟨record, hrecord, hreceipt ▸ existingReply_of_isApplied his⟩
    · subst happlied
      obtain ⟨record, hrecord, his, hreceipt⟩ := hholds
      exact ⟨record, hrecord, hreceipt ▸ existingReply_of_isApplied his⟩
    · exact happlied.elim
  obtain ⟨record, hrecord, hreply⟩ := hrecord
  generalize s.call c = x at *
  obtain ⟨input, p⟩ := x
  cases p with
  | arriving => exact absurd rfl hstarted
  | looking =>
      rw [hlookup rfl, hrecord]
      exact ⟨rfl, hreply⟩
  | missed | ensured | passed | raised | approved | created | mutated => exact hfollows.elim
  | answering fenced w reply => exact hfollows
  | closing fenced w reply =>
      obtain ⟨-, rfl⟩ := hfollows
      rfl
  | marking reply =>
      obtain hnever | ⟨e', hnever⟩ | hgrants := hgranted
      · cases hnever
      · cases hnever
      · obtain ⟨db', hmark⟩ := markGrantDispatched_of_grants hgrants
        simp only [ServiceCall.exec, hmark]
        exact hfollows
  | ended => exact hfollows

/-- A call comes to have applied the effect by its commit. -/
theorem hasApplied_exec {c : ServiceCall} {db : DB} {receipt : Jsonb}
    (h : (c.exec db).1.HasApplied receipt) : c.point.HasApplied receipt ∨
      ∃ fenced w, c.point = .closing fenced w (.applied receipt) := by
  obtain ⟨input, p⟩ := c
  have hmutate : ∀ fence revision, ¬ (ServiceCall.mutate input fence revision).HasApplied receipt := by
    intro fence revision happlied
    unfold ServiceCall.mutate at happlied
    split at happlied <;> exact happlied
  cases p with
  | arriving | missed | passed | answering => exact h.elim
  | looking | raised =>
      simp only [ServiceCall.exec] at h
      split at h <;> exact h.elim
  | ensured =>
      simp only [ServiceCall.exec] at h
      split at h
      · exact h.elim
      · unfold ServiceCall.checkFence at h
        split at h <;> exact h.elim
  | approved fence sandbox =>
      cases sandbox with
      | none =>
          simp only [ServiceCall.exec] at h
          split at h <;> exact h.elim
      | some sandbox => exact (hmutate _ _ h).elim
  | created => exact (hmutate _ _ h).elim
  | mutated =>
      simp only [ServiceCall.exec, ServiceCall.insertRecord] at h
      split at h <;> exact h.elim
  | closing fenced w reply =>
      cases reply with
      | refused e' => exact h.elim
      | duplicate receipt' => cases h
      | applied receipt' =>
          obtain rfl := CallReply.applied.inj h
          exact .inr ⟨fenced, w, rfl⟩
  | marking reply =>
      simp only [ServiceCall.exec] at h
      split at h
      · exact .inl h
      · exact h.elim
  | ended => exact .inl h

theorem Apart.exec (h : Apart s) (hs : Sound e requestID attemptNumber [] s) {c : Caller}
    (hstarted : (s.call c).point ≠ .arriving)
    (happart : (s.call c).point = .looking → (s.call c.other).isOpen = false) :
    Apart (s.moved c ((s.call c).exec s.db).1 ((s.call c).exec s.db).2) := by
  have hclosed : (ServiceCall.mk (s.call c).input ((s.call c).exec s.db).1).isOpen = true →
      (s.call c.other).isOpen = false := by
    intro hopen
    obtain ⟨-, hwas | hlooking⟩ := isOpen_exec hopen
    · exact h.apart c hwas
    · exact happart hlooking
  refine ⟨fun d hopen => ?_, fun d receipt happlied => ?_⟩
  · obtain rfl | rfl := c.eq_or_other d
    · rw [moved_self] at hopen
      rw [moved_other]
      exact hclosed hopen
    · rw [moved_other] at hopen
      rw [Caller.other_other, moved_self, Bool.eq_false_iff]
      intro hself
      rw [hclosed hself] at hopen
      cases hopen
  · obtain rfl | rfl := c.eq_or_other d
    · rw [moved_self] at happlied
      rw [moved_other]
      obtain hwas | ⟨fenced, w, hpoint⟩ := hasApplied_exec happlied
      · exact h.follows d receipt hwas
      · -- the other call has neither ended, since the effect still applies, nor looked the record up
        have hopen : (s.call d).isOpen = true := by
          unfold ServiceCall.isOpen
          rw [hpoint]
        have hother := h.apart d hopen
        have hpast := hs.past d.other
        have hholds := hs.holds d
        rw [hpoint] at hholds
        have happlies : Applies e s.db receipt := by
          cases fenced with
          | true => exact hholds.2.1
          | false =>
              obtain ⟨-, record, -, hreply⟩ := hholds
              exact absurd hreply.symm existingReply_ne_applied
        generalize s.call d.other = x at hother hpast
        obtain ⟨input, p⟩ := x
        cases p with
        | arriving | looking => trivial
        | missed | ensured | passed | raised | approved | created | mutated | answering | closing =>
            cases hother
        | marking | ended =>
            obtain hmem | hnot := hpast rfl
            · cases hmem
            · exact absurd happlies (hnot receipt)
    · rw [moved_other] at happlied
      rw [Caller.other_other, moved_self]
      refine hs.follows_exec hstarted happlied ?_
      have hfollows := h.follows _ _ happlied
      rwa [Caller.other_other] at hfollows

theorem Step.apart (h : Step s [] s') (hs : Sound e requestID attemptNumber [] s) (hapart : Apart s) :
    Apart s' := by
  generalize hevents : ([] : List RaceEvent) = events at h
  cases h with
  | check c now harriving h => exact apart_check
  | refuse c now e' harriving h => cases hevents
  | exec c hstarted hfree =>
      refine hapart.exec hs hstarted (fun hlooking => ?_)
      rw [Bool.eq_false_iff]
      intro hopen
      have hlooks : (s.call c).isLooking = true := by
        unfold ServiceCall.isLooking
        rw [hlooking]
      rw [hlooks, hopen] at hevents
      cases hevents

-- ============================================================================
-- Rows
-- ============================================================================

/-- The row of a call, which writes it unless its key is taken. -/
def RowAt (row₀ : Option State.EffectCall) (input : EffectApplyInput) (row : Option State.EffectCall) :
    CallPoint → Prop
  | .answering _ w _ => w.call = none ∧ row = row₀
  | .closing _ w reply =>
      w.call = (if row₀.isNone then some (ServiceCall.row input reply) else none) ∧ row = row₀
  | .marking reply | .ended (.ok reply) => row = some (row₀.getD (ServiceCall.row input reply))
  | .ended (.error _) => True
  | _ => row = row₀

/-- The rows of the two calls, and the ones there were. -/
structure Rows (db₀ : DB) (s : Race) : Prop where
  elsewhere : ∀ k, (∀ c, k ≠ ServiceCall.rowKey (s.call c).input) →
    s.db.effects.calls.get k = db₀.effects.calls.get k
  own : ∀ c, RowAt (db₀.effects.calls.get (ServiceCall.rowKey (s.call c).input)) (s.call c).input
    (s.db.effects.calls.get (ServiceCall.rowKey (s.call c).input)) (s.call c).point

theorem rowAt_mutate {row₀ row : Option State.EffectCall} {input : EffectApplyInput}
    {fence : ResourceFence} {revision : Int} (h : row = row₀) :
    RowAt row₀ input row (ServiceCall.mutate input fence revision) := by
  unfold ServiceCall.mutate
  split
  · trivial
  · exact h

/-- A commit writes the row of its call, if its key is free. -/
theorem calls_commit {row₀ : Option State.EffectCall} {input : EffectApplyInput} {w : Writes}
    {fenced : Bool} {reply : CallReply} {db : DB}
    (h : RowAt row₀ input (db.effects.calls.get (ServiceCall.rowKey input)) (.closing fenced w reply)) :
    (w.commit db).effects.calls.get (ServiceCall.rowKey input) =
        some (row₀.getD (ServiceCall.row input reply)) ∧
      ∀ k, k ≠ ServiceCall.rowKey input →
        (w.commit db).effects.calls.get k = db.effects.calls.get k := by
  obtain ⟨hcall, hrow⟩ := h
  cases row₀ with
  | none =>
      simp only [Option.isNone_none, if_true] at hcall
      refine ⟨?_, fun k hk => ?_⟩
      · rw [Writes.commit_calls, hcall]
        exact if_pos (decide_eq_true rfl)
      · rw [Writes.commit_calls, hcall]
        refine if_neg fun hany => hk ?_
        exact (of_decide_eq_true hany).symm
  | some row =>
      simp only [Option.isNone_some, Bool.false_eq_true, if_false] at hcall
      simp only [Writes.commit_calls, hcall, Option.any_none, hrow]
      exact ⟨rfl, fun _ _ => rfl⟩

/-- A statement writes the row of its call, if any. -/
theorem calls_exec {row₀ : Option State.EffectCall} {c : ServiceCall} {db : DB}
    (h : RowAt row₀ c.input (db.effects.calls.get (ServiceCall.rowKey c.input)) c.point) :
    RowAt row₀ c.input ((c.exec db).2.effects.calls.get (ServiceCall.rowKey c.input)) (c.exec db).1 ∧
      ∀ k, k ≠ ServiceCall.rowKey c.input →
        (c.exec db).2.effects.calls.get k = db.effects.calls.get k := by
  obtain ⟨input, p⟩ := c
  cases p with
  | arriving | missed | passed | ended => exact ⟨h, fun _ _ => rfl⟩
  | looking =>
      simp only [ServiceCall.exec]
      split
      · exact ⟨⟨rfl, h⟩, fun _ _ => rfl⟩
      · exact ⟨h, fun _ _ => rfl⟩
  | ensured inserted =>
      simp only [ServiceCall.exec]
      split
      · exact ⟨trivial, fun _ _ => rfl⟩
      · refine ⟨?_, fun _ _ => rfl⟩
        unfold ServiceCall.checkFence
        split
        · exact ⟨by cases inserted <;> rfl, h⟩
        · exact h
  | raised fence =>
      simp only [ServiceCall.exec]
      split
      · exact ⟨⟨rfl, h⟩, fun _ _ => rfl⟩
      · exact ⟨h, fun _ _ => rfl⟩
  | approved fence sandbox =>
      cases sandbox with
      | none =>
          simp only [ServiceCall.exec]
          split
          · exact ⟨trivial, fun _ _ => rfl⟩
          · exact ⟨h, fun _ _ => rfl⟩
      | some sandbox => exact ⟨rowAt_mutate h, fun _ _ => rfl⟩
  | created fence => exact ⟨rowAt_mutate h, fun _ _ => rfl⟩
  | mutated fence sandbox =>
      unfold ServiceCall.exec ServiceCall.insertRecord
      dsimp only
      split
      · exact ⟨⟨rfl, h⟩, fun _ _ => rfl⟩
      · exact ⟨trivial, fun _ _ => rfl⟩
      · exact ⟨trivial, fun _ _ => rfl⟩
  | answering fenced w reply =>
      obtain ⟨hcall, rfl⟩ := h
      refine ⟨⟨?_, rfl⟩, fun _ _ => rfl⟩
      rfl
  | closing fenced w reply =>
      have hcalls := calls_commit h
      cases reply with
      | refused e => exact ⟨trivial, hcalls.2⟩
      | applied receipt | duplicate receipt => exact hcalls
  | marking reply =>
      simp only [ServiceCall.exec]
      split
      · rename_i u db' hmark
        obtain ⟨id, i, -, hdispatched⟩ := markGrantDispatched_intent hmark
        rw [hdispatched.frame]
        exact ⟨h, fun _ _ => rfl⟩
      · exact ⟨trivial, fun _ _ => rfl⟩

/-- The keys of the two calls differ. -/
theorem Sound.rowKey_ne (hs : Sound e requestID attemptNumber trace s)
    (hdistinct : requestID .first ≠ requestID .second) (c : Caller) :
    ServiceCall.rowKey (s.call c.other).input ≠ ServiceCall.rowKey (s.call c).input := by
  rw [hs.input, hs.input]
  intro hkey
  have hsame : requestID c.other = requestID c := congrArg CallKey.requestID hkey
  cases c with
  | first => exact hdistinct hsame.symm
  | second => exact hdistinct hsame

theorem Step.rows {db₀ : DB} (h : Step s events s') (hs : Sound e requestID attemptNumber trace s)
    (hdistinct : requestID .first ≠ requestID .second) (hrows : Rows db₀ s) : Rows db₀ s' := by
  have hmoved : ∀ {c p db}, RowAt (db₀.effects.calls.get (ServiceCall.rowKey (s.call c).input))
        (s.call c).input (db.effects.calls.get (ServiceCall.rowKey (s.call c).input)) p →
      (∀ k, k ≠ ServiceCall.rowKey (s.call c).input → db.effects.calls.get k = s.db.effects.calls.get k) →
      Rows db₀ (s.moved c p db) := by
    intro c p db hself hrest
    refine ⟨fun k hk => ?_, forall_moved
      (P := fun _ x => RowAt (db₀.effects.calls.get (ServiceCall.rowKey x.input)) x.input
        (db.effects.calls.get (ServiceCall.rowKey x.input)) x.point) hself ?_⟩
    · have hself := hk c
      have hother := hk c.other
      rw [moved_self] at hself
      rw [moved_other] at hother
      rw [moved_db, hrest k hself]
      refine hrows.elsewhere k (fun d => ?_)
      obtain rfl | rfl := c.eq_or_other d
      · exact hself
      · exact hother
    · rw [hrest _ (hs.rowKey_ne hdistinct c)]
      exact hrows.own c.other
  cases h with
  | check c now harriving h =>
      refine hmoved ?_ (fun _ _ => rfl)
      have hown := hrows.own c
      rw [harriving] at hown
      exact hown
  | refuse c now e' harriving h => exact hmoved trivial (fun _ _ => rfl)
  | exec c hstarted hfree =>
      have hcalls := calls_exec (hrows.own c)
      exact hmoved hcalls.1 hcalls.2

-- ============================================================================
-- Progress
-- ============================================================================

/-- A transaction writes no other row than that of its call. -/
theorem key_of_writes {row₀ row : Option State.EffectCall} {c : ServiceCall} {k : CallKey}
    (h : RowAt row₀ c.input row c.point) (hk : k ≠ ServiceCall.rowKey c.input) :
    c.writes.call.any (fun r => r.key = k) = false := by
  obtain ⟨input, p⟩ := c
  cases p with
  | arriving | looking | missed | raised | approved | created | mutated | marking | ended => rfl
  | ensured inserted | passed inserted fence => cases inserted <;> rfl
  | answering fenced w reply =>
      show w.call.any _ = false
      rw [h.1, Option.any_none]
  | closing fenced w reply =>
      show w.call.any _ = false
      rw [h.1]
      split
      · exact decide_eq_false hk.symm
      · rfl

/-- A call that waits waits for an open transaction that waits for nothing. -/
theorem Sound.free_of_waits {db₀ : DB} (hs : Sound e requestID attemptNumber trace s)
    (hdistinct : requestID .first ≠ requestID .second) (hrows : Rows db₀ s) {c : Caller}
    (hwaits : (s.call c).waitsFor (s.call c.other) s.db = true) :
    (s.call c.other).isOpen = true ∧ (s.call c.other).waitsFor (s.call c) s.db = false := by
  have hanswers : ∀ d, (s.call d.other).writes.call.any
      (fun r => r.key = ServiceCall.rowKey (s.call d).input) = false := fun d =>
    key_of_writes (hrows.own d.other) (hs.rowKey_ne hdistinct d).symm
  have hself := hanswers c.other
  rw [Caller.other_other] at hself
  have hother := hanswers c
  have hlocks := hs.locks c
  have hholds := hs.holds c.other
  clear hanswers
  generalize s.call c = x at *
  generalize s.call c.other = y at *
  obtain ⟨input, p⟩ := x
  obtain ⟨input', p'⟩ := y
  cases p with
  | arriving | passed | raised | approved | created | closing | marking | ended => cases hwaits
  | answering fenced w reply =>
      rw [show (ServiceCall.mk input (.answering fenced w reply)).waitsFor ⟨input', p'⟩ s.db = _ from hother]
        at hwaits
      cases hwaits
  | looking =>
      simp only [ServiceCall.waitsFor, Bool.and_eq_true] at hwaits
      have hlocked := hwaits.1.2
      cases p' with
      | arriving | looking | missed | ensured | passed | raised | approved | created | mutated | marking
      | ended => cases hlocked
      | answering | closing => exact ⟨rfl, rfl⟩
  | missed =>
      simp only [ServiceCall.waitsFor, Bool.and_eq_true] at hwaits
      have hwritten := hwaits.2
      cases p' with
      | arriving | looking | missed | marking | ended => cases hwritten
      | ensured | passed | raised | approved | created | mutated | answering | closing => exact ⟨rfl, rfl⟩
  | ensured inserted =>
      simp only [ServiceCall.waitsFor, Bool.and_eq_true] at hwaits
      have hlocked := hwaits.1
      have hinserted : inserted = false := by
        rw [Bool.eq_false_iff]
        intro hinserted
        rw [hlocks hinserted] at hlocked
        cases hlocked
      subst hinserted
      cases p' with
      | arriving | looking | missed | marking | ended => cases hlocked
      | ensured | passed | raised | approved | created | mutated | answering | closing => exact ⟨rfl, rfl⟩
  | mutated fence sandbox =>
      have hfree : (ServiceCall.mk input' p').locksFence = false := hlocks rfl
      cases p' with
      | arriving | looking | missed | marking | ended => cases hwaits
      | ensured inserted => cases inserted <;> cases hwaits
      | passed | raised | approved | created | mutated => cases hfree
      | answering fenced w reply | closing fenced w reply =>
          obtain rfl : fenced = false := hfree
          rw [show (ServiceCall.mk input (.mutated fence sandbox)).waitsFor _ s.db =
            w.record.any (fun r => r.key = input.key) from rfl, hholds.1.2.2] at hwaits
          cases hwaits

/-- The next statement of a call, if it need not wait; an arriving call reads the wall clock. -/
def next? (now : Int) (s : Race) (c : Caller) : Option (List RaceEvent × Race) :=
  match (s.call c).point with
  | .arriving =>
      match checkGrant now (s.call c).input s.db with
      | .ok () => some ([], s.moved c .looking s.db)
      | .error e => some ([.refused c], s.moved c (.ended (.error e)) s.db)
  | _ =>
      if (s.call c).waitsFor (s.call c.other) s.db then none
      else some (if (s.call c).isLooking && (s.call c.other).isOpen then [.overlapped c] else [],
        s.moved c ((s.call c).exec s.db).1 ((s.call c).exec s.db).2)

theorem step_of_next? {now : Int} {c : Caller} (h : s.next? now c = some (events, s')) :
    Step s events s' := by
  unfold next? at h
  split at h
  · rename_i harriving
    split at h
    · rename_i hcheck
      cases h
      exact .check s c now harriving hcheck
    · rename_i e' hcheck
      cases h
      exact .refuse s c now e' harriving hcheck
  · rename_i hstarted
    split at h
    · cases h
    · rename_i hfree
      cases h
      exact .exec s c hstarted (Bool.eq_false_iff.mpr hfree)

/-- A statement brings its call closer to its end. -/
theorem rank_exec {c : ServiceCall} {db : DB} (harrived : c.point ≠ .arriving) (hrank : c.point.rank ≠ 0) :
    (c.exec db).1.rank < c.point.rank := by
  obtain ⟨input, p⟩ := c
  have hmutate : ∀ fence revision, (ServiceCall.mutate input fence revision).rank ≤ 4 := by
    intro fence revision
    unfold ServiceCall.mutate
    split
    · exact Nat.zero_le 4
    · exact Nat.le_refl 4
  cases p with
  | arriving => exact absurd rfl harrived
  | missed | passed | answering => exact Nat.lt_succ_self _
  | looking =>
      simp only [ServiceCall.exec]
      split <;> simp only [CallPoint.rank, Nat.reduceLT]
  | ensured inserted =>
      simp only [ServiceCall.exec]
      split
      · exact Nat.succ_pos 8
      · unfold ServiceCall.checkFence
        split <;> simp only [CallPoint.rank, Nat.reduceLT]
  | raised fence =>
      simp only [ServiceCall.exec]
      split <;> simp only [CallPoint.rank, Nat.reduceLT]
  | approved fence sandbox =>
      cases sandbox with
      | none =>
          simp only [ServiceCall.exec]
          split <;> simp only [CallPoint.rank, Nat.reduceLT]
      | some sandbox => exact Nat.lt_of_le_of_lt (hmutate ..) (Nat.lt_add_of_pos_right Nat.two_pos)
  | created fence => exact Nat.lt_succ_of_le (hmutate ..)
  | mutated fence sandbox =>
      simp only [ServiceCall.exec, ServiceCall.insertRecord]
      split <;> simp only [CallPoint.rank, Nat.reduceLT]
  | closing fenced w reply => cases reply <;> simp only [ServiceCall.exec, CallPoint.rank, Nat.reduceLT]
  | marking reply =>
      simp only [ServiceCall.exec]
      split <;> exact Nat.one_pos
  | ended => exact absurd rfl hrank

/-- As long as a call has not returned, one of them can execute its next statement. -/
theorem Sound.next {db₀ : DB} (hs : Sound e requestID attemptNumber trace s)
    (hdistinct : requestID .first ≠ requestID .second) (hrows : Rows db₀ s) (now : Int) {c : Caller}
    (hrank : (s.call c).point.rank ≠ 0) :
    ∃ d events s', s.next? now d = some (events, s') ∧ (s'.call d).point.rank < (s.call d).point.rank ∧
      s'.call d.other = s.call d.other := by
  have hfree : ∀ d, (s.call d).point.rank ≠ 0 → (s.call d).waitsFor (s.call d.other) s.db = false →
      ∃ events s', s.next? now d = some (events, s') ∧ (s'.call d).point.rank < (s.call d).point.rank ∧
        s'.call d.other = s.call d.other := by
    intro d hrank hfree
    by_cases harriving : (s.call d).point = .arriving
    · cases hcheck : checkGrant now (s.call d).input s.db with
      | ok u =>
          refine ⟨[], _, ?_, ?_, s.moved_other d .looking s.db⟩
          · simp only [next?, harriving, hcheck]
          · rw [moved_self, harriving]
            exact Nat.lt_succ_self 11
      | error e' =>
          refine ⟨[.refused d], _, ?_, ?_, s.moved_other d (.ended (.error e')) s.db⟩
          · simp only [next?, harriving, hcheck]
          · rw [moved_self, harriving]
            exact Nat.succ_pos 11
    · refine ⟨if (s.call d).isLooking && (s.call d.other).isOpen then [.overlapped d] else [], _, ?_, ?_,
        s.moved_other d ((s.call d).exec s.db).1 ((s.call d).exec s.db).2⟩
      · unfold next?
        split
        · rename_i hpoint
          exact absurd hpoint harriving
        · rw [hfree, if_neg nofun]
      · rw [moved_self]
        exact rank_exec harriving hrank
  cases hwaits : (s.call c).waitsFor (s.call c.other) s.db with
  | false => exact ⟨c, hfree c hrank hwaits⟩
  | true =>
      obtain ⟨hopen, hother⟩ := hs.free_of_waits hdistinct hrows hwaits
      refine ⟨c.other, hfree c.other (fun hended => ?_) (by rwa [Caller.other_other])⟩
      generalize s.call c.other = x at hopen hended
      obtain ⟨input, p⟩ := x
      cases p with
      | ended => cases hopen
      | arriving | looking | missed | ensured | passed | raised | approved | created | mutated | answering
      | closing | marking => cases hended

-- ============================================================================
-- Runs
-- ============================================================================

/-- What holds of every state of a race. -/
structure Reached (e : EffectApplyInput) (requestID : Caller → String) (attemptNumber : Caller → Int)
    (db₀ : DB) (trace : List RaceEvent) (s : Race) : Prop where
  sound : Sound e requestID attemptNumber trace s
  paths : Paths e trace s
  rows : Rows db₀ s
  apart : trace = [] → Apart s

variable {db₀ : DB}

theorem reached_start (db₀ : DB) (e : EffectApplyInput) (requestID : Caller → String)
    (attemptNumber : Caller → Int) :
    Reached e requestID attemptNumber db₀ [] (start db₀ e requestID attemptNumber) where
  sound := ⟨fun _ => rfl, fun _ _ => rfl, fun _ => trivial, fun _ => .inl rfl, nofun, nofun⟩
  paths := ⟨nofun, nofun⟩
  rows := ⟨fun _ _ => rfl, fun _ => rfl⟩
  apart _ := ⟨fun _ _ => rfl, fun _ _ => False.elim⟩

theorem Reached.step (h : Reached e requestID attemptNumber db₀ trace s)
    (hdistinct : requestID .first ≠ requestID .second) (hs : Step s events s') :
    Reached e requestID attemptNumber db₀ (trace ++ events) s' where
  sound := hs.sound h.sound
  paths := hs.paths h.sound h.paths
  rows := hs.rows h.sound hdistinct h.rows
  apart hnil := by
    obtain ⟨rfl, rfl⟩ := List.append_eq_nil_iff.mp hnil
    exact hs.apart h.sound (h.apart rfl)

theorem Run.reached (h : Run (start db₀ e requestID attemptNumber) trace s)
    (hdistinct : requestID .first ≠ requestID .second) : Reached e requestID attemptNumber db₀ trace s :=
  h.invariant (reached_start ..) (fun _ _ _ _ h hs => h.step hdistinct hs)

/-- Both calls have returned. -/
def Over (s : Race) : Prop := ∀ c, (s.call c).point.rank = 0

/-- From every state both calls can return. -/
theorem Reached.finishes (h : Reached e requestID attemptNumber db₀ trace s)
    (hdistinct : requestID .first ≠ requestID .second) (now : Int) :
    ∃ trace' s', Run s trace' s' ∧ Over s' := by
  generalize hn : (s.call .first).point.rank + (s.call .second).point.rank = n
  induction n using Nat.strongRecOn generalizing s trace with
  | ind n ih =>
      by_cases hover : Over s
      · exact ⟨[], s, .refl, hover⟩
      · obtain ⟨c, hrank⟩ := not_forall.mp hover
        obtain ⟨d, events, s₁, hnext, hcloser, hother⟩ := h.sound.next hdistinct h.rows now hrank
        have hs := step_of_next? hnext
        have hless : (s₁.call .first).point.rank + (s₁.call .second).point.rank < n := by
          rw [← hn]
          cases d with
          | first =>
              rw [show s₁.call .second = s.call .second from hother]
              omega
          | second =>
              rw [show s₁.call .first = s.call .first from hother]
              omega
        obtain ⟨rest, s₂, hrest, hover⟩ := ih _ hless (h.step hdistinct hs) rfl
        exact ⟨_, s₂, .head hs hrest, hover⟩

/-- One call has applied the effect, the other has answered with its receipt, and there is a row for
    each of them, which there was not before; the other rows are those of before. -/
def Converged (db₀ : DB) (s : Race) : Prop :=
  ∃ c receipt, (s.call c).point = .ended (.ok (.applied receipt)) ∧
    (s.call c.other).point = .ended (.ok (.duplicate (some receipt))) ∧
    (∀ d, db₀.effects.calls.get (ServiceCall.rowKey (s.call d).input) = none) ∧
    s.db.effects.calls.get (ServiceCall.rowKey (s.call c).input) =
      some (ServiceCall.row (s.call c).input (.applied receipt)) ∧
    s.db.effects.calls.get (ServiceCall.rowKey (s.call c.other).input) =
      some (ServiceCall.row (s.call c.other).input (.duplicate (some receipt))) ∧
    ∀ k, (∀ d, k ≠ ServiceCall.rowKey (s.call d).input) →
      s.db.effects.calls.get k = db₀.effects.calls.get k

/-- Of two calls for one effect with request IDs of their own, one of which has returned the receipt
    of its mutation, the other can come to its end; once it has, it has answered with that receipt,
    and the calls have a row each, if and only if neither call was refused at its first check, none
    looked the record up while the transaction of the other was open, and neither request ID had a
    row before. -/
theorem calls_converge {db₀ : DB} {e : EffectApplyInput} {requestID : Caller → String}
    {attemptNumber : Caller → Int} {trace : List RaceEvent} {s : Race}
    (distinct : requestID .first ≠ requestID .second)
    (h : Run (start db₀ e requestID attemptNumber) trace s)
    (applied : ∃ c receipt, (s.call c).point = .ended (.ok (.applied receipt))) :
    (∃ trace' s', Run s trace' s' ∧ Over s') ∧
    (Over s → (Converged db₀ s ↔ trace = [] ∧
      ∀ c, db₀.effects.calls.get ⟨e.workflowID, requestID c⟩ = none)) := by
  have hreached := h.reached distinct
  refine ⟨hreached.finishes distinct 0, fun hover => ⟨?_, ?_⟩⟩
  · rintro ⟨c, receipt, happlied, hduplicate, hfree, -⟩
    refine ⟨List.eq_nil_iff_forall_not_mem.mpr fun event hmem => ?_, fun d => ?_⟩
    · cases event with
      | refused d =>
          obtain ⟨e', herror⟩ := hreached.sound.refused d hmem
          obtain rfl | rfl := c.eq_or_other d
          · rw [happlied] at herror
            cases herror
          · rw [hduplicate] at herror
            cases herror
      | overlapped d =>
          obtain hpath | hpath := hreached.paths.overlapped d hmem
          · have hself := hpath c
            rw [happlied] at hself
            cases hself
          · have hother := hpath c.other
            rw [hduplicate] at hother
            cases hother
    · have hnone := hfree d
      rw [hreached.sound.input d] at hnone
      exact hnone
  · rintro ⟨htrace, hfree⟩
    obtain ⟨c, receipt, happlied⟩ := applied
    have hended := hover c.other
    have hfollows := (hreached.apart htrace).follows c receipt (by
      rw [happlied]
      rfl)
    have hduplicate : (s.call c.other).point = .ended (.ok (.duplicate (some receipt))) := by
      generalize (s.call c.other).point = p at *
      cases p with
      | ended result =>
          cases result with
          | error e' => exact hfollows.elim
          | ok reply => rw [show reply = _ from hfollows]
      | arriving | looking | missed | ensured | passed | raised | approved | created | mutated
      | answering | closing | marking => cases hended
    have hfree : ∀ d, db₀.effects.calls.get (ServiceCall.rowKey (s.call d).input) = none := by
      intro d
      rw [hreached.sound.input d]
      exact hfree d
    have hself := hreached.rows.own c
    have hother := hreached.rows.own c.other
    rw [hfree, happlied] at hself
    rw [hfree, hduplicate] at hother
    exact ⟨c, receipt, happlied, hduplicate, hfree, hself, hother, hreached.rows.elsewhere⟩

/-- The statements in the order of the script. -/
def script? (now : Int) : List Caller → Race → Option (List RaceEvent × Race)
  | [], s => some ([], s)
  | c :: script, s =>
      match s.next? now c with
      | none => none
      | some (events, s') => (script? now script s').map fun r => (events ++ r.1, r.2)

theorem run_of_script? {now : Int} {script : List Caller}
    (h : script? now script s = some (trace, s')) : Run s trace s' := by
  induction script generalizing s trace with
  | nil =>
      cases h
      exact .refl
  | cons c script ih =>
      simp only [script?] at h
      split at h
      · cases h
      · rename_i events s₁ hnext
        obtain ⟨⟨rest, s₂⟩, hrest, heq⟩ := Option.map_eq_some_iff.mp h
        cases heq
        exact .head (step_of_next? hnext) (ih hrest)

/-- Two calls under one grant. -/
def soloRace (db : DB) : Race :=
  start db (soloEffect "" 1) (fun | .first => "first" | .second => "second") (fun _ => 1)

/-- The first call runs to its end before the second starts. -/
def serialScript : List Caller := List.replicate 12 Caller.first ++ List.replicate 5 Caller.second

/-- Both calls look the record up before either writes it. -/
def overlappingScript : List Caller :=
  ([.first, .second, .first, .second] : List Caller) ++ List.replicate 10 Caller.first ++
    List.replicate 6 Caller.second

/-- The first call has returned the receipt of its mutation. -/
def firstApplied (s : Race) : Bool :=
  match (s.call .first).point with
  | .ended (.ok (.applied _)) => true
  | _ => false

/-- The second call has been refused for the revision, with a row. -/
def secondRejected (s : Race) : Bool :=
  (match (s.call .second).point with
    | .ended (.error (.sentinel e)) => decide (e = .effectVersion)
    | _ => false) &&
    decide ((s.db.effects.calls.get ⟨"w", "second"⟩).map (·.outcome) = some .rejected)

theorem exists_applied (h : firstApplied s = true) :
    ∃ receipt, (s.call .first).point = .ended (.ok (.applied receipt)) := by
  unfold firstApplied at h
  split at h
  · rename_i receipt hpoint
    exact ⟨receipt, hpoint⟩
  · cases h

theorem rejected_of_secondRejected (h : secondRejected s = true) :
    (s.call .second).point = .ended (.error (.sentinel .effectVersion)) ∧
      (s.db.effects.calls.get ⟨"w", "second"⟩).map (·.outcome) = some .rejected := by
  simp only [secondRejected, Bool.and_eq_true, decide_eq_true_eq] at h
  obtain ⟨hpoint, hrow⟩ := h
  refine ⟨?_, hrow⟩
  split at hpoint
  · rename_i e' hended
    rw [hended, of_decide_eq_true hpoint]
  · cases hpoint

theorem soloRace_eq (db : DB) : soloRace db =
    start db (grantedEffect "" 1) (fun | .first => "first" | .second => "second") (fun _ => 1) := by
  rw [soloRace, soloEffect_eq]

/-- The two orders, from a database in which the grant has been issued. -/
theorem soloRace_scripts : (World.moves? .plain 0 approvedScript (World.start 0)).any (fun r =>
    r.2.db.effects.calls.rows.isEmpty &&
    (script? 0 serialScript (soloRace r.2.db)).any (fun r' => r'.1.isEmpty && firstApplied r'.2 &&
      [Caller.first, .second].all (fun c => (r'.2.call c).point.rank = 0)) &&
    (script? 0 overlappingScript (soloRace r.2.db)).any (fun r' =>
      firstApplied r'.2 && secondRejected r'.2)) = true := by
  rw [approved_moves, Option.any_some, soloRace_eq]
  decide +kernel

theorem calls_converge_serial : ∃ trace w, World.Run .plain (World.start 0) trace w ∧
    ∃ s, Run (soloRace w.db) [] s ∧ Over s ∧ Converged w.db s := by
  obtain ⟨⟨trace, w⟩, hmoves, hshown⟩ := (Option.any_eq_true _ _).mp soloRace_scripts
  simp only [Bool.and_eq_true, List.isEmpty_iff] at hshown
  obtain ⟨⟨hrows, hserial⟩, -⟩ := hshown
  obtain ⟨⟨events, s⟩, hscript, hshown⟩ := (Option.any_eq_true _ _).mp hserial
  simp only [Bool.and_eq_true, List.isEmpty_iff, List.all_cons, List.all_nil, decide_eq_true_eq] at hshown
  obtain ⟨⟨rfl, happlied⟩, hfirst, hsecond, -⟩ := hshown
  have hrun : Run (soloRace w.db) [] s := run_of_script? hscript
  have hover : Over s := fun c => by cases c <;> assumption
  obtain ⟨receipt, happlied⟩ := exists_applied happlied
  refine ⟨trace, w, World.run_of_moves? hmoves, s, hrun, hover, ?_⟩
  refine ((calls_converge (by decide) hrun ⟨.first, receipt, happlied⟩).2 hover).mpr ⟨rfl, fun c => ?_⟩
  refine Table.get_eq_none_iff.mpr fun row hrow => ?_
  rw [hrows] at hrow
  cases hrow

/-- The second call is refused for the revision that the first has raised, and has a row that says so. -/
theorem calls_diverge : ∃ trace w, World.Run .plain (World.start 0) trace w ∧
    ∃ events s, Run (soloRace w.db) events s ∧
      (∃ receipt, (s.call .first).point = .ended (.ok (.applied receipt))) ∧
      (s.call .second).point = .ended (.error (.sentinel .effectVersion)) ∧
      (s.db.effects.calls.get ⟨"w", "second"⟩).map (·.outcome) = some .rejected ∧
      ¬ Converged w.db s := by
  obtain ⟨⟨trace, w⟩, hmoves, hshown⟩ := (Option.any_eq_true _ _).mp soloRace_scripts
  simp only [Bool.and_eq_true] at hshown
  obtain ⟨-, hoverlapping⟩ := hshown
  obtain ⟨⟨events, s⟩, hscript, hshown⟩ := (Option.any_eq_true _ _).mp hoverlapping
  simp only [Bool.and_eq_true] at hshown
  obtain ⟨happlied, hrejected⟩ := hshown
  obtain ⟨hrefused, hrow⟩ := rejected_of_secondRejected hrejected
  refine ⟨trace, w, World.run_of_moves? hmoves, events, s, run_of_script? hscript, exists_applied happlied,
    hrefused, hrow, ?_⟩
  rintro ⟨c, receipt, hself, hother, -⟩
  cases c with
  | first => cases hrefused.symm.trans hother
  | second => cases hrefused.symm.trans hself

end Race

end DurableEngine.Services
