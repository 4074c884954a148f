/-
  DurableEngine.State.Identity

  The identity of a node's effect: the logical effect key and the grant scope
  of its attempts.

  `CreateAttempt` takes both from the node's first attempt, `TimeoutAttempt`
  from the attempt it replaces, so all attempts of a node whose effect is not
  pure share them, and a call that names others is refused.
-/

import DurableEngine.State.Ambiguity

namespace DurableEngine.State

open Lib

-- ============================================================================
-- The property
-- ============================================================================

/-- The attempts name the same effect. -/
structure Attempt.SameIdentity (a b : Attempt) : Prop where
  logicalEffectKey : b.logicalEffectKey = a.logicalEffectKey
  grantScopeHash : b.grantScopeHash = a.grantScopeHash

/-- The call names an effect key or a grant scope that is not that of the attempt. -/
def AttemptInput.namesOther (input : AttemptInput) (a : Attempt) : Prop :=
  (input.logicalEffectKey ≠ "" ∧ a.logicalEffectKey ≠ some input.logicalEffectKey) ∨
    (input.grantScopeHash ≠ "" ∧ a.grantScopeHash ≠ some input.grantScopeHash)

/-- The same call, naming nothing. -/
def AttemptInput.unnamed (input : AttemptInput) : AttemptInput :=
  { input with logicalEffectKey := "", grantScopeHash := "" }

/-- The call changes nothing and fails over the identity it names, unless it fails without one too. -/
def IdentityRefused (env : Env) (amb : Ambient) (input : AttemptInput) (db : DB) : Prop :=
  ∃ e, (Op.createAttempt input).exec env amb db = (.error e, db) ∧
    (e = .sentinel .effectIdentityMismatch ∨
      (Op.createAttempt input.unnamed).exec env amb db = (.error e, db))

/-- The effect of a node keeps its identity: all its attempts share it, now and later, and no call
    gives another one to a further attempt. -/
structure StableIdentity (env : Env) (db : DB) (k : NodeKey) (cls : EffectClass) : Prop where
  shared : ∀ m m' a b, db.attempts.get ⟨k, m⟩ = some a → db.attempts.get ⟨k, m'⟩ = some b →
    a.SameIdentity b
  kept : ∀ db', Relation.ReflTransGen (Step env) db db' → ∀ m a, db.attempts.get ⟨k, m⟩ = some a →
    ∃ a', db'.attempts.get ⟨k, m⟩ = some a' ∧ a.SameIdentity a'
  named : cls = .cooperating → ∀ m a, db.attempts.get ⟨k, m⟩ = some a →
    ∃ key, key ≠ "" ∧ a.logicalEffectKey = some key
  refused : ∀ m a, db.attempts.get ⟨k, m⟩ = some a → ∀ amb input, input.key = k →
    input.namesOther a → IdentityRefused env amb input db

-- ============================================================================
-- The first attempt
-- ============================================================================

theorem mem_of_foldl_lower {l : List Attempt} {best : Option Attempt} {a : Attempt}
    (h : l.foldl lower best = some a) : best = some a ∨ a ∈ l := by
  induction l generalizing best with
  | nil => exact .inl h
  | cons b l ih =>
      rcases ih h with hbest | hmem
      · unfold lower at hbest
        split at hbest
        · cases hbest
          exact .inr List.mem_cons_self
        · split at hbest
          · cases hbest
            exact .inr List.mem_cons_self
          · exact .inl hbest
      · exact .inr (List.mem_cons_of_mem _ hmem)

theorem foldl_lower_isSome {l : List Attempt} {best : Option Attempt}
    (h : best.isSome = true ∨ l ≠ []) : (l.foldl lower best).isSome = true := by
  induction l generalizing best with
  | nil => exact h.resolve_right (fun hne => hne rfl)
  | cons b l ih =>
      refine ih (.inl ?_)
      unfold lower
      split
      · rfl
      · split <;> rfl

theorem mem_attemptsOf {db : DB} {k : NodeKey} {a : Attempt} :
    a ∈ db.attemptsOf k ↔ db.attempts.get ⟨k, a.key.number⟩ = some a := by
  rw [DB.attemptsOf, Table.mem_select, decide_eq_true_eq, Table.mem_rows_iff]
  constructor
  · rintro ⟨hget, rfl⟩
    exact hget
  · intro hget
    have hkey : a.key = ⟨k, a.key.number⟩ := Table.key_of_get hget
    exact ⟨by rw [hkey]; exact hget, by rw [hkey]⟩

theorem firstAttempt_eq_some {db : DB} {k : NodeKey} {a : Attempt} (h : db.firstAttempt k = some a) :
    db.attempts.get ⟨k, a.key.number⟩ = some a :=
  mem_attemptsOf.mp ((mem_of_foldl_lower h).resolve_left (fun hnone => (nomatch hnone)))

/-- A node with an attempt has a first one. -/
theorem exists_firstAttempt {db : DB} {k : NodeKey} {m : Int} {a : Attempt}
    (ha : db.attempts.get ⟨k, m⟩ = some a) : ∃ first, db.firstAttempt k = some first := by
  refine Option.isSome_iff_exists.mp (foldl_lower_isSome (.inr (List.ne_nil_of_mem (a := a) ?_)))
  rw [mem_attemptsOf, show a.key = ⟨k, m⟩ from Table.key_of_get ha]
  exact ha

-- ============================================================================
-- The identity of a new attempt
-- ============================================================================

/-- The checks of `CreateAttempt` before it looks at the identity, with what they read. -/
def attemptClass (input : AttemptInput) (db : DB) : Except Err (Workflow × EffectClass) := do
  rejectIf (input.workflowID = "" ∨ input.nodeID = "" ∨ input.actorID = "")
    (.text "attempt identity and actor are required")
  let workflow ← lockOwnedWorkflow db input.lease input.workflowID input.expectedRevision
    "lock workflow for attempt"
  rejectIf (workflow.state ≠ .waitingActivity)
    (.text ("workflow state " ++ workflow.state.text ++ " cannot create an attempt"))
  let effectClass ← definitionClass db workflow input.nodeID
  rejectIf (input.effectClass ≠ effectClass)
    (.wrapped .effectClassMismatch
      ("got " ++ input.effectClass.text ++ ", want " ++ effectClass.text))
  return (workflow, effectClass)

theorem attemptClass_eq_ok {input : AttemptInput} {db : DB} {w : Workflow} {cls : EffectClass}
    (h : attemptClass input db = .ok (w, cls)) : db.effectClassOf input.key = some cls := by
  simp only [attemptClass, bind_eq_ok, rejectIf_eq_ok, exists_const, pure_eq_ok, Prod.mk.injEq] at h
  obtain ⟨-, w, hw, -, cls, hcls, -, rfl, rfl⟩ := h
  obtain ⟨hown, -⟩ := lockOwnedWorkflow_eq_ok hw
  exact effectClassOf_eq_some.mpr ⟨w, hown.get, hcls⟩

theorem createAttempt_eq (env : Env) (amb : Ambient) (input : AttemptInput) (db : DB) :
    ∃ rest : Workflow → EffectClass → String × String → Except Err (Attempt × DB),
      createAttempt env amb input db = attemptClass input db >>= fun r =>
        effectIdentity db input r.2 >>= rest r.1 r.2 := by
  apply Exists.intro
  simp only [createAttempt, attemptClass, bind_assoc, pure_bind]
  rfl

/-- The effect key and the grant scope of a created attempt are those `effectIdentity` chose. -/
theorem createAttempt_identity {env : Env} {amb : Ambient} {input : AttemptInput} {db db' : DB}
    {r : Attempt} (h : createAttempt env amb input db = .ok (r, db')) :
    ∃ key scope, r.key.node = input.key ∧ effectIdentity db input r.effectClass = .ok (key, scope) ∧
      (r.effectClass = .cooperating → key ≠ "") ∧ r.logicalEffectKey = nullableString key ∧
      r.grantScopeHash = nullableString scope := by
  simp only [createAttempt, bind_eq_ok, getOr_eq_ok, rejectIf_eq_ok, exists_const, pure_eq_ok,
    Prod.mk.injEq] at h
  obtain ⟨-, w, -, -, cls, -, -, ⟨key, scope⟩, hidentity, hnamed, n, -, -, -, db₁, -, db₂, -, db₃, -,
    rfl, -⟩ := h
  exact ⟨key, scope, rfl, hidentity, fun hcls hkey => hnamed ⟨hcls, hkey⟩, rfl, rfl⟩

theorem nullableString_ne (s : String) : nullableString s ≠ some "" := by
  unfold nullableString
  split
  · exact nofun
  · rename_i hs
    exact fun h => hs (Option.some.inj h)

/-- A stored text is chosen again, and so is an absent one. -/
theorem nullableString_getD {stored : Option String} {named : String} (hstored : stored ≠ some "")
    (hsame : ¬ (named ≠ "" ∧ stored ≠ some named)) :
    nullableString (stored.getD named) = stored := by
  cases stored with
  | none =>
      rw [not_and, not_not] at hsame
      by_cases hnamed : named = ""
      · rw [hnamed]
        rfl
      · cases hsame hnamed
  | some text =>
      have htext : text ≠ "" := fun h => hstored (by rw [h])
      rw [Option.getD_some, nullableString, if_neg htext]

variable {env : Env} {db db' : DB}

/-- After the first attempt of an effect, a call gives a further one its identity. -/
theorem effectIdentity_eq_ok {input : AttemptInput} {cls : EffectClass} {first : Attempt}
    {key scope : String} (hfirst : db.firstAttempt input.key = some first) (hcls : cls ≠ .pure)
    (h : effectIdentity db input cls = .ok (key, scope)) : ¬ input.namesOther first ∧
      key = first.logicalEffectKey.getD input.logicalEffectKey ∧
      scope = first.grantScopeHash.getD input.grantScopeHash := by
  unfold effectIdentity at h
  rw [hfirst] at h
  split at h
  · exact absurd rfl hcls
  · rename_i hnone
    cases hnone
  · rename_i heq
    cases heq
    simp only [bind_eq_ok, rejectIf_eq_ok, exists_const, pure_eq_ok, Prod.mk.injEq] at h
    obtain ⟨hkey, hscope, rfl, rfl⟩ := h
    exact ⟨not_or.mpr ⟨hkey, hscope⟩, rfl, rfl⟩

/-- A call that names another identity is refused there. -/
theorem effectIdentity_eq_error {input : AttemptInput} {cls : EffectClass} {first : Attempt}
    (hfirst : db.firstAttempt input.key = some first) (hcls : cls ≠ .pure)
    (hother : input.namesOther first) :
    effectIdentity db input cls = .error (.sentinel .effectIdentityMismatch) := by
  unfold effectIdentity
  rw [hfirst]
  split
  · exact absurd rfl hcls
  · rename_i hnone
    cases hnone
  · rename_i heq
    cases heq
    by_cases hkey : input.logicalEffectKey ≠ "" ∧ first.logicalEffectKey ≠ some input.logicalEffectKey
    · rw [rejectIf_of _ hkey, error_bind]
    · rw [rejectIf_of_not _ hkey, ok_bind, rejectIf_of _ (hother.resolve_left hkey), error_bind]

-- ============================================================================
-- All attempts of a node
-- ============================================================================

theorem AttemptStep.sameIdentity {a : Attempt} {o' : Option Attempt} (h : AttemptStep (some a) o') :
    ∃ a', o' = some a' ∧ a.SameIdentity a' := by
  cases h with
  | same | claimed | extended | recorded | timedOut => exact ⟨_, rfl, rfl, rfl⟩
  | canceled =>
      refine ⟨_, rfl, ?_⟩
      unfold Attempt.cancel
      split <;> exact ⟨rfl, rfl⟩

theorem Attempt.SameIdentity.trans {a b c : Attempt} (h : a.SameIdentity b) (h' : b.SameIdentity c) :
    a.SameIdentity c :=
  ⟨h'.logicalEffectKey.trans h.logicalEffectKey, h'.grantScopeHash.trans h.grantScopeHash⟩

theorem Attempt.SameIdentity.symm {a b : Attempt} (h : a.SameIdentity b) : b.SameIdentity a :=
  ⟨h.logicalEffectKey.symm, h.grantScopeHash.symm⟩

/-- The identity a stored attempt has: no text of it is empty, and a cooperating effect has a key. -/
structure Attempt.Identified (a : Attempt) : Prop where
  key : a.logicalEffectKey ≠ some ""
  scope : a.grantScopeHash ≠ some ""
  named : a.effectClass = .cooperating → ∃ key, key ≠ "" ∧ a.logicalEffectKey = some key

/-- Each attempt has an identity, and the attempts of a node share it unless they are pure. -/
structure Identities (db : DB) : Prop where
  identified : ∀ k a, db.attempts.get k = some a → a.Identified
  shared : ∀ k m m' a b, db.attempts.get ⟨k, m⟩ = some a → db.attempts.get ⟨k, m'⟩ = some b →
    a.effectClass ≠ .pure → a.SameIdentity b

theorem Attempt.Identified.of_same {a b : Attempt} (h : a.Identified) (hsame : a.SameIdentity b)
    (hcls : b.effectClass = a.effectClass) : b.Identified where
  key := by rw [hsame.logicalEffectKey]; exact h.key
  scope := by rw [hsame.grantScopeHash]; exact h.scope
  named hb := by rw [hsame.logicalEffectKey]; exact h.named (hcls.symm.trans hb)

/-- An operation adds at most one attempt to a node. -/
theorem Change.new_unique {α : Type} {op : Op α} (h : Change db op db') {k : NodeKey}
    (hgeneration : ∀ k, ∃ N, Generation db k N) {m m' : Int} {a b : Attempt}
    (hm : db.attempts.get ⟨k, m⟩ = none) (hm' : db.attempts.get ⟨k, m'⟩ = none)
    (ha : db'.attempts.get ⟨k, m⟩ = some a) (hb : db'.attempts.get ⟨k, m'⟩ = some b) : m' = m := by
  have hnone : ∀ n, db.attempts.get ⟨k, n⟩ = none → ¬ ∃ c, db.attempts.get ⟨k, n⟩ = some c := by
    rintro n hn ⟨c, hc⟩
    rw [hn] at hc
    cases hc
  cases h.pointerStep hgeneration k with
  | keep _ numbers => exact (hnone m hm ((numbers m).mp ⟨a, ha⟩)).elim
  | clear _ _ _ numbers _ => exact (hnone m hm ((numbers m).mp ⟨a, ha⟩)).elim
  | next N _ numbers _ =>
      have hN := ((numbers m).mp ⟨a, ha⟩).resolve_right (hnone m hm)
      exact (((numbers m').mp ⟨b, hb⟩).resolve_right (hnone m' hm')).trans hN.symm

/-- A new attempt is identified, and it shares the identity of the attempts that were there. -/
theorem Identities.new (h : Identities db) (hreach : Reachable env db) {α : Type} {op : Op α}
    {amb : Ambient} {r : α} (hrun : op.run env amb db = .ok (r, db')) {k : AttemptKey} {a : Attempt}
    (hnone : db.attempts.get k = none) (ha : db'.attempts.get k = some a) :
    a.Identified ∧ ∀ m b, db.attempts.get ⟨k.node, m⟩ = some b → a.effectClass ≠ .pure →
      b.SameIdentity a := by
  have hclass : ∀ m b, db.attempts.get ⟨k.node, m⟩ = some b → b.effectClass = a.effectClass := by
    intro m b hb
    have hb' := (Op.run_commit hrun).effectClassOf (hreach.effectClass hb)
    have ha' := (hreach.step (.commit amb op r hrun)).effectClass ha
    exact Option.some.inj (hb'.symm.trans ha')
  obtain ⟨input, hcreated⟩ | ⟨m, b, hb, hcls, hkey, hscope⟩ := attempt_of_new hrun hnone ha
  · obtain ⟨key, scope, hnode, hidentity, hnamed, hkey, hscope⟩ := createAttempt_identity hcreated
    refine ⟨⟨by rw [hkey]; exact nullableString_ne _, by rw [hscope]; exact nullableString_ne _,
      fun hcoop => ⟨key, hnamed hcoop, ?_⟩⟩, fun m b hb hpure => ?_⟩
    · rw [hkey, nullableString, if_neg (hnamed hcoop)]
    · rw [← Table.key_of_get ha, hnode] at hb
      obtain ⟨first, hfirst⟩ := exists_firstAttempt hb
      obtain ⟨hsame, rfl, rfl⟩ := effectIdentity_eq_ok hfirst hpure hidentity
      have hget := firstAttempt_eq_some hfirst
      have hstored := h.identified _ _ hget
      obtain ⟨hsame₁, hsame₂⟩ := not_or.mp hsame
      rw [nullableString_getD hstored.key hsame₁] at hkey
      rw [nullableString_getD hstored.scope hsame₂] at hscope
      have hfirstClass : first.effectClass ≠ .pure := by
        rw [← hnode, Table.key_of_get ha] at hget
        rw [hclass _ _ hget]
        exact hpure
      exact (h.shared _ _ _ _ _ hget hb hfirstClass).symm.trans ⟨hkey, hscope⟩
  · have hsame : b.SameIdentity a := ⟨hkey, hscope⟩
    refine ⟨(h.identified _ _ hb).of_same hsame hcls.symm, fun m' b' hb' hpure => ?_⟩
    exact (h.shared _ _ _ _ _ hb hb' (by rw [hcls]; exact hpure)).symm.trans hsame

theorem Identities.step (h : Identities db) (hreach : Reachable env db) (hs : Step env db db') :
    Identities db' := by
  cases hs with
  | tick _ d => exact ⟨h.identified, h.shared⟩
  | commit amb op r hrun =>
      have hcommit := Op.run_commit hrun
      -- an attempt that was there keeps its identity and its class
      have hold : ∀ k a a', db.attempts.get k = some a → db'.attempts.get k = some a' →
          a.SameIdentity a' ∧ a'.effectClass = a.effectClass := by
        intro k a a' ha ha'
        have hstep := hcommit.change.attemptStep k
        rw [ha, ha'] at hstep
        obtain ⟨_, heq, hsame⟩ := hstep.sameIdentity
        cases heq
        exact ⟨hsame, hstep.effectClass_eq⟩
      refine ⟨fun k a' ha' => ?_, fun k m m' a' b' ha' hb' hpure => ?_⟩
      · cases ha : db.attempts.get k with
        | some a =>
            obtain ⟨hsame, hcls⟩ := hold k a a' ha ha'
            exact (h.identified k a ha).of_same hsame hcls
        | none => exact (h.new hreach hrun ha ha').1
      · have hclass : b'.effectClass = a'.effectClass := by
          have hclsA : db'.effectClassOf k = _ := (hreach.step (.commit amb op r hrun)).effectClass ha'
          have hclsB : db'.effectClassOf k = _ := (hreach.step (.commit amb op r hrun)).effectClass hb'
          exact Option.some.inj (hclsB.symm.trans hclsA)
        cases ha : db.attempts.get ⟨k, m⟩ with
        | some a =>
            obtain ⟨hsameA, hclsA⟩ := hold _ a a' ha ha'
            cases hb : db.attempts.get ⟨k, m'⟩ with
            | some b =>
                obtain ⟨hsameB, hclsB⟩ := hold _ b b' hb hb'
                have hshared := h.shared k m m' a b ha hb (by rw [← hclsA]; exact hpure)
                exact hsameA.symm.trans (hshared.trans hsameB)
            | none =>
                have hnew := (h.new hreach hrun hb hb').2 m a ha (by rw [hclass]; exact hpure)
                exact hsameA.symm.trans hnew
        | none =>
            cases hb : db.attempts.get ⟨k, m'⟩ with
            | some b =>
                obtain ⟨hsameB, -⟩ := hold _ b b' hb hb'
                exact ((h.new hreach hrun ha ha').2 m' b hb hpure).symm.trans hsameB
            | none =>
                rw [hcommit.change.new_unique hreach.generation ha hb ha' hb', ha',
                  Option.some.injEq] at hb'
                exact hb' ▸ ⟨rfl, rfl⟩

theorem Reachable.identities (h : Reachable env db) : Identities db :=
  h.invariant (fun _ => ⟨fun _ _ hget => (nomatch hget), fun _ _ _ _ _ hget => (nomatch hget)⟩)
    (fun _ _ hreach hi hs => hi.step hreach hs)

/-- An attempt stays, and it keeps its identity. -/
theorem sameIdentity_kept (hrun : Relation.ReflTransGen (Step env) db db') {k : AttemptKey}
    {a : Attempt} (ha : db.attempts.get k = some a) :
    ∃ a', db'.attempts.get k = some a' ∧ a.SameIdentity a' := by
  induction hrun with
  | refl => exact ⟨a, ha, rfl, rfl⟩
  | tail _ hlast ih =>
      obtain ⟨b, hb, hsame⟩ := ih
      cases hlast with
      | tick _ d => exact ⟨b, hb, hsame⟩
      | commit amb op r hop =>
          have hstep := (Op.run_commit hop).change.attemptStep k
          rw [hb] at hstep
          obtain ⟨b', hb', hsame'⟩ := hstep.sameIdentity
          exact ⟨b', hb', hsame.trans hsame'⟩

-- ============================================================================
-- Refused calls
-- ============================================================================

theorem exec_of_error {α : Type} {op : Op α} {amb : Ambient} {e : Err}
    (h : op.run env amb db = .error e) : op.exec env amb db = (.error e, db) := by
  rw [Op.exec, h]

/-- A call that names another identity than the node's attempts have is refused. -/
theorem Reachable.identityRefused (h : Reachable env db) {k : NodeKey} {m : Int} {a : Attempt}
    (ha : db.attempts.get ⟨k, m⟩ = some a) (hpure : a.effectClass ≠ .pure) (amb : Ambient)
    {input : AttemptInput} (hkey : input.key = k) (hother : input.namesOther a) :
    IdentityRefused env amb input db := by
  obtain ⟨rest, hrest⟩ := createAttempt_eq env amb input db
  obtain ⟨rest', hrest'⟩ := createAttempt_eq env amb input.unnamed db
  cases hclass : attemptClass input db with
  | error e =>
      -- the checks before the identity do not read what the call names
      have hunnamed : attemptClass input.unnamed db = .error e := hclass
      rw [hclass, error_bind] at hrest
      rw [hunnamed, error_bind] at hrest'
      exact ⟨e, exec_of_error hrest, .inr (exec_of_error hrest')⟩
  | ok r =>
      obtain ⟨w, cls⟩ := r
      have hcls : a.effectClass = cls := by
        have hdeclared := attemptClass_eq_ok hclass
        rw [hkey] at hdeclared
        exact Option.some.inj ((h.effectClass ha).symm.trans hdeclared)
      obtain ⟨first, hfirst⟩ := exists_firstAttempt ha
      have hsame := h.identities.shared k _ _ a first ha (firstAttempt_eq_some hfirst) hpure
      have hmismatch : effectIdentity db input cls = .error (.sentinel .effectIdentityMismatch) := by
        refine effectIdentity_eq_error (hkey ▸ hfirst) (hcls ▸ hpure) ?_
        rw [AttemptInput.namesOther, hsame.logicalEffectKey, hsame.grantScopeHash]
        exact hother
      rw [hclass, ok_bind, hmismatch, error_bind] at hrest
      exact ⟨_, exec_of_error hrest, .inl rfl⟩

-- ============================================================================
-- Stable identity
-- ============================================================================

/-- In every reachable state, a node whose effect is not pure keeps the identity of its effect. -/
theorem stable_effect_identity (h : Reachable env db) {k : NodeKey} {cls : EffectClass}
    (hcls : db.effectClassOf k = some cls) (hpure : cls ≠ .pure) : StableIdentity env db k cls := by
  have hclass : ∀ m a, db.attempts.get ⟨k, m⟩ = some a → a.effectClass = cls := fun m a ha =>
    Option.some.inj ((h.effectClass ha).symm.trans hcls)
  refine ⟨fun m m' a b ha hb => ?_, fun db' hrun m a ha => sameIdentity_kept hrun ha,
    fun hcoop m a ha => ?_, fun m a ha amb input hkey hother => ?_⟩
  · exact h.identities.shared k m m' a b ha hb (by rw [hclass m a ha]; exact hpure)
  · exact (h.identities.identified _ _ ha).named ((hclass m a ha).trans hcoop)
  · exact h.identityRefused ha (by rw [hclass m a ha]; exact hpure) amb hkey hother

/-- The solo definition with an effect that cooperates. -/
def cooperatingDefinition : DefinitionInput := { soloDefinition with
  effectClasses := .json (.obj [("a", .str "COOPERATING_EFFECT")]) }

/-- The effect is dispatched under a key and claimed; its deadline passes and it gets a replacement. -/
def replacedScript : List Action := .call (.createDefinition cooperatingDefinition) ::
  (soloScript.drop 1).take 3 ++ ([
  .call (.createAttempt ⟨soloLease, "w", "a", 0, 2, .cooperating, "charge", "", 0, "scheduler"⟩),
  .call (.claimAttempt ⟨1, "w", "a", 0, "worker", "request", 0⟩),
  .tick 60000000000,
  .call (.acquireLease 0 (uuidOf 8 0) 1000),
  .call (.timeoutAttempt ⟨⟨0, uuidOf 8 0, 2⟩, "w", "a", 0, 1, 3, "scheduler", 0⟩)] : List Action)

/-- The replacement has the key of the first attempt. -/
theorem stable_effect_identity_replaced : ∃ db a b, Reachable .plain db ∧
    db.attempts.get ⟨⟨"w", "a", 0⟩, 1⟩ = some a ∧ db.attempts.get ⟨⟨"w", "a", 0⟩, 2⟩ = some b ∧
    b.logicalEffectKey = some "charge" ∧ StableIdentity .plain db ⟨"w", "a", 0⟩ .cooperating := by
  have hrun : (runScript? .plain 0 replacedScript (DB.init 0)).any (fun db =>
      db.effectClassOf ⟨"w", "a", 0⟩ = some .cooperating &&
      (db.attempts.get ⟨⟨"w", "a", 0⟩, 1⟩).isSome &&
      (db.attempts.get ⟨⟨"w", "a", 0⟩, 2⟩).any (fun b => b.logicalEffectKey = some "charge")) =
      true := by
    decide +kernel
  obtain ⟨db, hdb, hcheck⟩ := (Option.any_eq_true _ _).mp hrun
  simp only [Bool.and_eq_true, decide_eq_true_eq, Option.any_eq_true] at hcheck
  obtain ⟨⟨hclass, hfirst⟩, b, hb, hkey⟩ := hcheck
  obtain ⟨a, ha⟩ := Option.isSome_iff_exists.mp hfirst
  have hreach := reachable_of_runScript? hdb
  exact ⟨db, a, b, hreach, ha, hb, hkey, stable_effect_identity hreach hclass (by decide)⟩

end DurableEngine.State
