/-
  DurableEngine.State.Generations

  The attempts of a node are numbered 1, 2, ..., n.  The node's pointer
  (`current_attempt_number`) and the current attempt can only be the last of
  them, so both ways of allocating a number agree and no insert collides.
-/

import DurableEngine.State.AttemptLife

namespace DurableEngine.State

open Lib

/-- `current_attempt_number` of a node. -/
def DB.pointer (db : DB) (k : NodeKey) : Option Int := (db.nodes.get k).bind (·.currentAttempt)

theorem pointer_eq_some {db : DB} {k : NodeKey} {m : Int} :
    db.pointer k = some m ↔ ∃ n, db.nodes.get k = some n ∧ n.currentAttempt = some m :=
  Option.bind_eq_some_iff

theorem pointer_of_get {db : DB} {k : NodeKey} {n : NodeInstance} (h : db.nodes.get k = some n) :
    db.pointer k = n.currentAttempt := by
  rw [DB.pointer, h, Option.bind_some]

/-- An update of a node that keeps its pointer. -/
theorem pointer_modifyNode {db db' : DB} {key : NodeKey} {f : NodeInstance → NodeInstance}
    {hf : ∀ n, (f n).key = n.key} (h : db'.nodes = (db.modifyNode key f hf).nodes)
    (hptr : ∀ n, (f n).currentAttempt = n.currentAttempt) (k : NodeKey) :
    db'.pointer k = db.pointer k := by
  rw [DB.pointer, DB.pointer, h, DB.get_modifyNode]
  split
  · cases db.nodes.get k with
    | none => rfl
    | some n => exact hptr n
  · rfl

-- ============================================================================
-- The generation of a node
-- ============================================================================

/-- The attempts of the node `k` are numbered 1 to `N`. -/
structure Generation (db : DB) (k : NodeKey) (N : Int) : Prop where
  nonneg : 0 ≤ N
  numbers : ∀ m, (∃ a, db.attempts.get ⟨k, m⟩ = some a) ↔ 1 ≤ m ∧ m ≤ N
  current : ∀ m a, db.attempts.get ⟨k, m⟩ = some a → a.isCurrent = true → db.pointer k = some m
  pointer : ∀ m, db.pointer k = some m → m = N ∧ 1 ≤ N

theorem le_foldl_max {α : Type} (f : α → Int) (l : List α) (init : Int) :
    init ≤ l.foldl (fun m a => max m (f a)) init ∧
      ∀ a ∈ l, f a ≤ l.foldl (fun m a => max m (f a)) init := by
  induction l generalizing init with
  | nil => exact ⟨Int.le_refl _, fun a ha => absurd ha List.not_mem_nil⟩
  | cons x l ih =>
      obtain ⟨hinit, hall⟩ := ih (max init (f x))
      refine ⟨Int.le_trans (Int.le_max_left _ _) hinit, fun a ha => ?_⟩
      rcases List.mem_cons.mp ha with rfl | ha
      · exact Int.le_trans (Int.le_max_right _ _) hinit
      · exact hall a ha

theorem foldl_max_le {α : Type} (f : α → Int) (l : List α) (init N : Int) (hinit : init ≤ N)
    (h : ∀ a ∈ l, f a ≤ N) : l.foldl (fun m a => max m (f a)) init ≤ N := by
  induction l generalizing init with
  | nil => exact hinit
  | cons x l ih =>
      refine ih _ (Int.max_le.mpr ⟨hinit, h x List.mem_cons_self⟩) (fun a ha => ?_)
      exact h a (List.mem_cons_of_mem _ ha)

/-- `MAX(attempt_number)` is the last number. -/
theorem Generation.maxAttempt {db : DB} {k : NodeKey} {N : Int} (h : Generation db k N) :
    db.maxAttempt k = N := by
  apply Int.le_antisymm
  · refine foldl_max_le _ _ _ _ h.nonneg (fun a ha => ?_)
    obtain ⟨hmem, hk⟩ := Table.mem_select.mp ha
    have hget := Table.get_of_mem hmem
    have hkey : a.key = ⟨k, a.key.number⟩ := by
      cases hak : a.key
      simp_all
    exact ((h.numbers a.key.number).mp ⟨a, hkey ▸ hget⟩).2
  · by_cases hN : 1 ≤ N
    · obtain ⟨a, ha⟩ := (h.numbers N).mpr ⟨hN, Int.le_refl N⟩
      have hkey := Table.key_of_get ha
      have hmem : a ∈ db.attemptsOf k :=
        Table.mem_select.mpr ⟨Table.mem_of_get ha, by simp [hkey]⟩
      have hle := (le_foldl_max (fun a : Attempt => a.key.number) (db.attemptsOf k) 0).2 a hmem
      simpa only [hkey, DB.maxAttempt] using hle
    · have hzero := (le_foldl_max (fun a : Attempt => a.key.number) (db.attemptsOf k) 0).1
      have hnonneg := h.nonneg
      simp only [DB.maxAttempt]
      omega

-- ============================================================================
-- One step
-- ============================================================================

theorem AttemptStep.current_of {o o' : Option Attempt} (hs : AttemptStep o o') {a a' : Attempt}
    (ha : o = some a) (ha' : o' = some a') (hcur : a'.isCurrent = true) : a.isCurrent = true := by
  cases hs with
  | same =>
      rw [ha, Option.some.injEq] at ha'
      exact ha' ▸ hcur
  | created => cases ha
  | claimed b token workerID requestID deadline hdisp hnamed =>
      cases ha
      exact hdisp.1
  | extended b deadline =>
      cases ha
      cases ha'
      exact hcur
  | recorded b outcome document hterm hclaimed | timedOut b hclaimed =>
      cases ha
      exact hclaimed.1
  | canceled b =>
      cases ha
      cases ha'
      unfold Attempt.cancel at hcur
      split at hcur
      · cases hcur
      · exact hcur

/-- What a committed operation does to the attempts of the node `k`: they and
    the pointer stay, the pointer is cleared with its attempt, or the next
    attempt is created. -/
inductive PointerStep (db db' : DB) (k : NodeKey) : Prop where
  | keep (pointer : db'.pointer k = db.pointer k)
      (numbers : ∀ m, (∃ a, db'.attempts.get ⟨k, m⟩ = some a) ↔ ∃ a, db.attempts.get ⟨k, m⟩ = some a)
  | clear (p : Int) (before : db.pointer k = some p) (after : db'.pointer k = none)
      (numbers : ∀ m, (∃ a, db'.attempts.get ⟨k, m⟩ = some a) ↔ ∃ a, db.attempts.get ⟨k, m⟩ = some a)
      (settled : ∀ a, db'.attempts.get ⟨k, p⟩ = some a → a.isCurrent = false)
  | next (N : Int) (after : db'.pointer k = some N)
      (numbers : ∀ m, (∃ a, db'.attempts.get ⟨k, m⟩ = some a) ↔
        m = N ∨ ∃ a, db.attempts.get ⟨k, m⟩ = some a)
      (before : (N = db.maxAttempt k + 1 ∧ db.pointer k = none) ∨
        (db.pointer k = some (N - 1) ∧
          ∀ a, db'.attempts.get ⟨k, N - 1⟩ = some a → a.isCurrent = false))

theorem Generation.step {db db' : DB} {k : NodeKey} {N : Int} (h : Generation db k N)
    (hptr : PointerStep db db' k)
    (hatt : ∀ m, AttemptStep (db.attempts.get ⟨k, m⟩) (db'.attempts.get ⟨k, m⟩)) :
    ∃ N', Generation db' k N' := by
  cases hptr with
  | keep pointer numbers =>
      refine ⟨N, h.nonneg, fun m => (numbers m).trans (h.numbers m), fun m a' ha' hcur => ?_,
        fun m hm => h.pointer m (pointer ▸ hm)⟩
      obtain ⟨a, ha⟩ := (numbers m).mp ⟨a', ha'⟩
      rw [pointer]
      exact h.current m a ha ((hatt m).current_of ha ha' hcur)
  | clear p before after numbers settled =>
      refine ⟨N, h.nonneg, fun m => (numbers m).trans (h.numbers m), fun m a' ha' hcur => ?_,
        fun m hm => by rw [after] at hm; cases hm⟩
      obtain ⟨a, ha⟩ := (numbers m).mp ⟨a', ha'⟩
      have hm := h.current m a ha ((hatt m).current_of ha ha' hcur)
      rw [before, Option.some.injEq] at hm
      subst hm
      rw [settled a' ha'] at hcur
      cases hcur
  | next N' after numbers before =>
      have hN' : N' = N + 1 := by
        rcases before with ⟨hN', -⟩ | ⟨hp, -⟩
        · rw [hN', h.maxAttempt]
        · have := (h.pointer _ hp).1
          omega
      have hnonneg := h.nonneg
      refine ⟨N', by omega, fun m => ?_, fun m a' ha' hcur => ?_, fun m hm => ?_⟩
      · rw [numbers m, h.numbers m]
        omega
      · by_cases hm : m = N'
        · rw [hm, after]
        · -- an earlier attempt is not current: its pointer was cleared or it timed out
          obtain hm' | ⟨a, ha⟩ := (numbers m).mp ⟨a', ha'⟩
          · exact absurd hm' hm
          · have hp := h.current m a ha ((hatt m).current_of ha ha' hcur)
            rcases before with ⟨-, hnone⟩ | ⟨hp', hsettled⟩
            · rw [hnone] at hp
              cases hp
            · rw [hp', Option.some.injEq] at hp
              rw [hsettled a' (hp ▸ ha')] at hcur
              cases hcur
      · rw [after, Option.some.injEq] at hm
        exact ⟨hm.symm, by omega⟩

-- ============================================================================
-- Every operation
-- ============================================================================

/-- An update of attempts creates none. -/
theorem exists_get_modifyAttempt {db db' : DB} {key : AttemptKey} {f : Attempt → Attempt}
    {hf : ∀ a, (f a).key = a.key} (h : db'.attempts = (db.modifyAttempt key f hf).attempts)
    (k : AttemptKey) :
    (∃ a, db'.attempts.get k = some a) ↔ ∃ a, db.attempts.get k = some a := by
  rw [h, DB.get_modifyAttempt]
  split
  · simp only [Option.map_eq_some_iff]
    constructor
    · rintro ⟨_, a, ha, _⟩
      exact ⟨a, ha⟩
    · rintro ⟨a, ha⟩
      exact ⟨_, a, ha, rfl⟩
  · exact Iff.rfl

/-- Pointers and attempts stay. -/
theorem PointerStep.of_same {db db' : DB} {k : NodeKey} (hptr : db'.pointer k = db.pointer k)
    (hatt : db'.attempts = db.attempts) : PointerStep db db' k :=
  .keep hptr (fun m => by rw [hatt])

theorem pointer_of_nodes {db db' : DB} (h : db'.nodes = db.nodes) (k : NodeKey) :
    db'.pointer k = db.pointer k := by
  rw [DB.pointer, DB.pointer, h]

theorem Attempt.isCurrent_cancel (a : Attempt) : a.cancel.isCurrent = false := by
  unfold Attempt.cancel
  split
  · rfl
  · rename_i hcur
    simpa using hcur

theorem Change.Owner.pointerStep {db db' : DB} {input : OwnerTransitionInput} {w : Workflow}
    {row : TransitionRecord} {current : Option Int} {timer : Option Timer}
    (c : Change.Owner db input w row current timer db') (k : NodeKey) : PointerStep db db' k := by
  have hnumbers : ∀ m, (∃ a, db'.attempts.get ⟨k, m⟩ = some a) ↔
      ∃ a, db.attempts.get ⟨k, m⟩ = some a := by
    intro m
    rw [c.attempts, moveOwnedNode_attempts]
    split
    · simp
    · exact Iff.rfl
  have hget := moveOwnedNode_nodes db input w.state current (timer.map (·.purpose)) k
  by_cases hk : k = input.key ∧ input.cancels w.state = true ∧ current.isSome = true
  · obtain ⟨rfl, hcancels, hsome⟩ := hk
    obtain ⟨p, rfl⟩ := Option.isSome_iff_exists.mp hsome
    have hnode : input.nodeID ≠ "" := fun he => by
      have := c.noNode he
      cases this
    obtain ⟨n, hn, hp⟩ := c.node hnode
    refine .clear p (pointer_eq_some.mpr ⟨n, hn, hp⟩) ?_ hnumbers (fun a ha => ?_)
    · rw [DB.pointer, c.nodes, hget, if_pos rfl, hn, Option.map_some, NodeInstance.ownerMove,
        if_pos ⟨hcancels, hsome⟩]
      rfl
    · rw [c.attempts, moveOwnedNode_attempts, if_pos ⟨rfl, hcancels, rfl⟩] at ha
      obtain ⟨b, -, rfl⟩ := Option.map_eq_some_iff.mp ha
      exact b.isCurrent_cancel
  · refine .keep ?_ hnumbers
    rw [DB.pointer, c.nodes, hget, DB.pointer]
    split
    · rename_i hkey
      cases db.nodes.get k with
      | none => rfl
      | some n =>
          rw [Option.map_some, Option.bind_some, Option.bind_some, NodeInstance.ownerMove,
            if_neg (fun hc => hk ⟨hkey, hc⟩)]
          cases input.target <;> rfl
    · rfl

theorem Change.Canceled.pointerStep {db db' : DB} {w : Workflow} (c : Change.Canceled db w db')
    (k : NodeKey) : PointerStep db db' k := by
  have hnumbers : ∀ m, (∃ a, db'.attempts.get ⟨k, m⟩ = some a) ↔
      ∃ a, db.attempts.get ⟨k, m⟩ = some a := by
    intro m
    rw [c.attempts]
    simp
  cases hn : db.nodes.get k with
  | none =>
      refine .keep ?_ hnumbers
      rw [DB.pointer, DB.pointer, c.nodes, hn]
      rfl
  | some n =>
      have hptr : db'.pointer k =
          if n.cancelable w.workflowID = true then none else n.currentAttempt := by
        rw [DB.pointer, c.nodes, hn, Option.map_some, Option.bind_some]
        split <;> rfl
      cases hp : n.currentAttempt with
      | none =>
          refine .keep ?_ hnumbers
          rw [hptr, pointer_of_get hn, hp]
          split <;> rfl
      | some p =>
          by_cases hc : n.cancelable w.workflowID = true
          · refine .clear p (pointer_eq_some.mpr ⟨n, hn, hp⟩) (by rw [hptr, if_pos hc]) hnumbers
              (fun a ha => ?_)
            have hcancels : db.cancelsAttempt w.workflowID ⟨k, p⟩ = true := by
              simp [DB.cancelsAttempt, hn, hc, hp]
            rw [c.attempts] at ha
            obtain ⟨b, -, rfl⟩ := Option.map_eq_some_iff.mp ha
            rw [if_pos hcancels]
            exact b.isCurrent_cancel
          · refine .keep ?_ hnumbers
            rw [hptr, if_neg hc, pointer_of_get hn]

theorem Change.Advanced.pointer {db db' : DB} {input : AdvanceGraphInput} {w : Workflow}
    {n : NodeInstance} {definition : Definition} {graph : DefinitionGraph}
    {source : DefinitionGraphNode} (c : Change.Advanced db input w n definition graph source db')
    (k : NodeKey) : db'.pointer k = db.pointer k := by
  by_cases hk : k = input.key
  · rw [hk, pointer_of_get c.node, pointer_of_get ((c.nodes _).trans (if_pos rfl))]
  · cases hget : db.nodes.get k with
    | some m =>
        have hget' := c.nodes k
        rw [if_neg hk, hget, Option.some_or] at hget'
        rw [pointer_of_get hget, pointer_of_get hget']
    | none =>
        cases hget' : db'.nodes.get k with
        | none => rw [DB.pointer, DB.pointer, hget, hget']
        | some m =>
            obtain ⟨hfresh, -⟩ := c.fresh k m hk hget hget'
            rw [pointer_of_get hget', hfresh.2.2.1, DB.pointer, hget]
            rfl

/-- A change of the pointer of `key` only. -/
theorem pointer_modifyNode_ne {db db' : DB} {key k : NodeKey} {f : NodeInstance → NodeInstance}
    {hf : ∀ n, (f n).key = n.key} (h : db'.nodes = (db.modifyNode key f hf).nodes) (hk : k ≠ key) :
    db'.pointer k = db.pointer k := by
  rw [DB.pointer, DB.pointer, h, DB.get_modifyNode, if_neg hk]

theorem pointer_modifyNode_self {db db' : DB} {key : NodeKey} {n : NodeInstance}
    {f : NodeInstance → NodeInstance} {hf : ∀ n, (f n).key = n.key}
    (h : db'.nodes = (db.modifyNode key f hf).nodes) (hn : db.nodes.get key = some n) :
    db'.pointer key = (f n).currentAttempt := by
  rw [DB.pointer, h, DB.get_modifyNode, if_pos rfl, hn]
  rfl

theorem exists_get_insertAttempt {t t' : Table Attempt.key} {a : Attempt} (h : Inserted t a t')
    (k : AttemptKey) : (∃ b, t'.get k = some b) ↔ k = a.key ∨ ∃ b, t.get k = some b := by
  rw [Table.get_insert h]
  by_cases hk : k = a.key <;> simp [hk]

theorem Change.Consumed.pointerStep {db db' : DB} {input : ConsumeResultInput} {w : Workflow}
    {n : NodeInstance} {a : Attempt} {result : Jsonb} {newState nodeState : WorkflowState}
    {retryAfter : Option Int}
    (c : Change.Consumed db input w n a result newState nodeState retryAfter db') (k : NodeKey) :
    PointerStep db db' k := by
  by_cases hk : k = input.key
  · subst hk
    refine .clear input.attemptNumber (pointer_eq_some.mpr ⟨n, c.node, c.current⟩)
      (pointer_modifyNode_self c.nodes c.node) (fun m => by rw [c.attempts]) (fun b hb => ?_)
    rw [c.attempts, c.attempt, Option.some.injEq] at hb
    exact hb ▸ c.recorded.1
  · exact .of_same (pointer_modifyNode_ne c.nodes hk) c.attempts

theorem Change.AttemptCreated.pointerStep {db db' : DB} {input : AttemptInput} {w : Workflow}
    {n : NodeInstance} {effectClass : EffectClass} {deadline : Int} {effectKey scope : Option String}
    (c : Change.AttemptCreated db input w n effectClass deadline effectKey scope db') {N : Int}
    (hN : Generation db input.key N) (k : NodeKey) : PointerStep db db' k := by
  by_cases hk : k = input.key
  · subst hk
    refine .next _ (pointer_modifyNode_self c.nodes c.node) (fun m => ?_) (.inl ⟨rfl, ?_⟩)
    · rw [exists_get_insertAttempt c.attempts]
      simp [freshAttempt]
    · -- a stored pointer is positive
      rw [pointer_of_get c.node]
      cases hp : n.currentAttempt with
      | none => rfl
      | some p =>
          have hpos := hN.pointer p (pointer_eq_some.mpr ⟨n, c.node, hp⟩)
          have hfree := c.free
          rw [hp, Option.getD_some] at hfree
          omega
  · refine .keep (pointer_modifyNode_ne c.nodes hk) (fun m => ?_)
    rw [exists_get_insertAttempt c.attempts]
    simp [freshAttempt, hk]

/-- The replaced attempt is the one the node points to. -/
theorem Change.Replaced.pointer {db db' : DB} {input : TimeoutInput} {w : Workflow}
    {n : NodeInstance} {a : Attempt} {deadline : Int}
    (c : Change.Replaced db input w n a deadline db') {N : Int}
    (hN : Generation db input.key.node N) : db.pointer input.key.node = some input.attemptNumber := by
  have hpos := (hN.numbers input.attemptNumber).mp ⟨a, c.attempt⟩
  have hcur := c.current
  rw [pointer_of_get c.node]
  cases hp : n.currentAttempt with
  | none =>
      rw [hp, Option.getD_none] at hcur
      omega
  | some p =>
      rw [hp, Option.getD_some] at hcur
      rw [hcur]

theorem Change.Replaced.pointerStep {db db' : DB} {input : TimeoutInput} {w : Workflow}
    {n : NodeInstance} {a : Attempt} {deadline : Int}
    (c : Change.Replaced db input w n a deadline db') {N : Int}
    (hN : Generation db input.key.node N) (k : NodeKey) : PointerStep db db' k := by
  have hnumbers : ∀ m, (∃ b, db'.attempts.get ⟨k, m⟩ = some b) ↔
      (k = input.key.node ∧ m = input.attemptNumber + 1) ∨
        ∃ b, db.attempts.get ⟨k, m⟩ = some b := by
    intro m
    rw [exists_get_insertAttempt c.attempts, exists_get_modifyAttempt rfl]
    simp [freshAttempt]
  by_cases hk : k = input.key.node
  · subst hk
    refine .next (input.attemptNumber + 1) (pointer_modifyNode_self c.nodes c.node)
      (fun m => by simp [hnumbers m]) (.inr ⟨?_, fun b hb => ?_⟩)
    · rw [c.pointer hN, Int.add_sub_cancel]
    · rw [Int.add_sub_cancel, Table.get_insert_ne c.attempts (by simp [freshAttempt]),
        DB.get_modifyAttempt] at hb
      rw [if_pos (show (⟨input.key.node, input.attemptNumber⟩ : AttemptKey) = input.key from rfl)]
        at hb
      obtain ⟨b', -, rfl⟩ := Option.map_eq_some_iff.mp hb
      rfl
  · exact .keep (pointer_modifyNode_ne c.nodes hk) (fun m => by simp [hnumbers m, hk])

theorem Change.pointerStep {db db' : DB} {α : Type} {op : Op α} (h : Change db op db')
    (hgen : ∀ k, ∃ N, Generation db k N) (k : NodeKey) : PointerStep db db' k := by
  cases h with
  | idle rows => exact .of_same (pointer_of_nodes rows.nodes k) rows.attempts
  | created c =>
      refine .of_same ?_ c.attempts
      rw [DB.pointer, DB.pointer, Table.get_insert c.nodes]
      split
      · rename_i hk
        rw [hk, (Table.insert?_eq_some_iff.mp c.nodes).1, Option.bind_some, c.node.2.2.2.1]
        rfl
      · rfl
  | owner c => exact c.pointerStep k
  | consumed c => exact c.pointerStep k
  | attemptCreated c =>
      obtain ⟨N, hN⟩ := hgen _
      exact c.pointerStep hN k
  | claimed c | extended c | recorded c | redispatched c | expired c =>
      exact .keep (pointer_of_nodes c.nodes k) (fun m => exists_get_modifyAttempt c.attempts _)
  | replaced c =>
      obtain ⟨N, hN⟩ := hgen _
      exact c.pointerStep hN k
  | timerScheduled c | approvalRequested c | approvalGranted c | approvalRejected c =>
      exact .of_same (pointer_modifyNode c.nodes (fun _ => rfl) k) c.attempts
  | canceled c => exact c.pointerStep k
  | advanced c => exact .of_same (c.pointer k) c.attempts

theorem Reachable.generation {env : Env} {db : DB} (h : Reachable env db) (k : NodeKey) :
    ∃ N, Generation db k N := by
  have hall : ∀ k, ∃ N, Generation db k N := by
    refine h.induction (I := fun db => ∀ k, ∃ N, Generation db k N) (fun _ k => ⟨0, ?_⟩) ?_
    · exact ⟨Int.le_refl 0, fun m => ⟨fun ⟨_, ha⟩ => (nomatch ha), fun hm => by omega⟩,
        fun _ _ ha => (nomatch ha), fun _ hm => (nomatch hm)⟩
    · intro db db' hi hs k
      obtain ⟨N, hN⟩ := hi k
      cases hs with
      | tick d => exact ⟨N, hN.nonneg, hN.numbers, hN.current, hN.pointer⟩
      | commit amb op r hrun =>
          have hchange := (Op.run_commit hrun).change
          exact hN.step (hchange.pointerStep hi k) (fun m => hchange.attemptStep ⟨k, m⟩)
  exact hall k

-- ============================================================================
-- No insert collides
-- ============================================================================

/-- The error is not a violated key of the attempts. -/
def Err.noCollision (e : Err) : Prop :=
  ∀ context, e ≠ .constraint context "activity_attempts_pkey" ∧
    e ≠ .constraint context "activity_attempts_one_current"

theorem Err.noCollision.of_constraint {context name : String} (h : name ≠ "activity_attempts_pkey")
    (h' : name ≠ "activity_attempts_one_current") : (Err.constraint context name).noCollision := by
  intro context'
  simp [h, h']

theorem fails_lockLease {db : DB} {ref : LeaseRef} : Fails Err.noCollision (lockLease db ref) := by
  unfold lockLease
  refine .bind (.getOr (fun _ => by simp [Err.noCollision])) (fun row _ => ?_)
  refine .bind (.getOr (fun _ => by simp [Err.noCollision])) (fun owner _ => ?_)
  refine .bind (.getOr (fun _ => by simp [Err.noCollision])) (fun expiry _ => ?_)
  refine .bind (.rejectIf (fun _ => by simp [Err.noCollision])) (fun _ _ => .ok _)

theorem fails_lockOwnedWorkflow {db : DB} {lease : LeaseRef} {workflowID : String} {revision : Int}
    {context : String} :
    Fails Err.noCollision (lockOwnedWorkflow db lease workflowID revision context) := by
  unfold lockOwnedWorkflow
  refine .bind fails_lockLease (fun _ _ => ?_)
  refine .bind (.getOr (fun _ => by simp [Err.noCollision])) (fun w _ => ?_)
  refine .bind (.rejectIf (fun _ => by simp [Err.noCollision])) (fun _ _ => ?_)
  refine .bind (.rejectIf (fun _ => by simp [Err.noCollision])) (fun _ _ => .ok _)

theorem fails_insertHistory {db : DB} {workflowID : String} {revision : Int}
    {actorKind actorID : String} {epoch : Option Int} {nodeID : String}
    {iteration attemptNumber : Option Int} {oldState : Option WorkflowState}
    {newState : WorkflowState} {reason : String} :
    Fails Err.noCollision (insertHistory db workflowID revision actorKind actorID epoch nodeID
      iteration attemptNumber oldState newState reason) := by
  unfold insertHistory
  refine .bind (.rejectIf (fun _ => .of_constraint (by decide) (by decide))) (fun _ _ => ?_)
  refine .bind (.getOr (fun _ => .of_constraint (by decide) (by decide))) (fun _ _ => .ok _)

theorem fails_insertOutbox {amb : Ambient} {db : DB} {workflowID : String} {revision : Int}
    {eventType : String} {payload : Option Jsonb} :
    Fails Err.noCollision (insertOutbox amb db workflowID revision eventType payload) := by
  unfold insertOutbox
  refine .bind (.getOr (fun _ => by simp [Err.noCollision])) (fun _ _ => ?_)
  refine .bind (.getOr (fun _ => by simp [Err.noCollision])) (fun _ _ => ?_)
  refine .bind (.getOr (fun _ => .of_constraint (by decide) (by decide))) (fun _ _ => .ok _)

theorem fails_definitionClass {db : DB} {w : Workflow} {nodeID : String} :
    Fails Err.noCollision (definitionClass db w nodeID) := by
  unfold definitionClass
  refine .bind (.getOr (fun _ => by simp [Err.noCollision])) (fun _ _ => ?_)
  refine .bind (.getOr (fun _ => by simp [Err.noCollision])) (fun _ _ => ?_)
  refine .bind (.rejectIf (fun _ => by simp [Err.noCollision])) (fun _ _ => .getOr (fun _ => by simp [Err.noCollision]))

theorem fails_effectIdentity {db : DB} {input : AttemptInput} {effectClass : EffectClass} :
    Fails Err.noCollision (effectIdentity db input effectClass) := by
  unfold effectIdentity
  split
  · exact .ok _
  · exact .ok _
  · refine .bind (.rejectIf (fun _ => by simp [Err.noCollision])) (fun _ _ => ?_)
    refine .bind (.rejectIf (fun _ => by simp [Err.noCollision])) (fun _ _ => .ok _)

/-- The next attempt of a node can be inserted once no other one is current. -/
theorem insertAttempt_of_next {db : DB} {context : String} {a : Attempt} {N : Int}
    (hN : ∀ m, (∃ b, db.attempts.get ⟨a.key.node, m⟩ = some b) ↔ 1 ≤ m ∧ m ≤ N)
    (hnext : a.key.number = N + 1)
    (hcur : ∀ m b, db.attempts.get ⟨a.key.node, m⟩ = some b → b.isCurrent = false) :
    Fails Err.noCollision (insertAttempt db context a) := by
  unfold insertAttempt
  refine .bind (.rejectIf ?_) (fun _ _ => .bind (.getOr ?_) (fun _ _ => .ok _))
  · rintro ⟨-, b, hb, hkey, hb'⟩
    have hget : db.attempts.get ⟨a.key.node, b.key.number⟩ = some b := by
      rw [← hkey]
      exact Table.get_of_mem hb
    rw [hcur _ b hget] at hb'
    cases hb'
  · intro hins
    obtain ⟨b, hb⟩ := Table.get_of_insert?_none hins
    have := (hN a.key.number).mp ⟨b, hb⟩
    omega

theorem createAttempt_noCollision {env : Env} {db : DB} (h : Reachable env db) (amb : Ambient)
    (input : AttemptInput) : Fails Err.noCollision (createAttempt env amb input db) := by
  unfold createAttempt
  refine .bind (.rejectIf (fun _ => by simp [Err.noCollision])) (fun _ _ => ?_)
  refine .bind fails_lockOwnedWorkflow (fun w _ => ?_)
  refine .bind (.rejectIf (fun _ => by simp [Err.noCollision])) (fun _ _ => ?_)
  refine .bind fails_definitionClass (fun effectClass _ => ?_)
  refine .bind (.rejectIf (fun _ => by simp [Err.noCollision])) (fun _ _ => ?_)
  refine .bind fails_effectIdentity (fun identity _ => ?_)
  refine .bind (.rejectIf (fun _ => by simp [Err.noCollision])) (fun _ _ => ?_)
  refine .bind (.getOr (fun _ => by simp [Err.noCollision])) (fun n hn => ?_)
  refine .bind (.rejectIf (fun _ => by simp [Err.noCollision])) (fun _ _ => ?_)
  refine .bind (.rejectIf (fun _ => by simp [Err.noCollision])) (fun _ hfree => ?_)
  refine .bind ?_ (fun _ _ => .bind fails_insertHistory (fun _ _ =>
    .bind fails_insertOutbox (fun _ _ => .ok _)))
  obtain ⟨N, hN⟩ := h.generation input.key
  refine insertAttempt_of_next hN.numbers (by simp [freshAttempt, hN.maxAttempt]) (fun m b hb => ?_)
  -- a current attempt would be the one the node points to
  by_contra hcur
  have hptr := hN.current m b hb (by simpa using hcur)
  have hpos := hN.pointer m hptr
  rw [getOr_eq_ok] at hn
  rw [rejectIf_eq_ok, not_not] at hfree
  rw [pointer_of_get hn] at hptr
  rw [hptr, Option.getD_some] at hfree
  omega

theorem replaceAttempt_noCollision {env : Env} {amb : Ambient} {input : TimeoutInput} {w : Workflow}
    {a : Attempt} {deadline N : Int} {db : DB} (hN : Generation db input.key.node N)
    (hptr : db.pointer input.key.node = some input.attemptNumber) :
    Fails Err.noCollision (replaceAttempt env amb input w a deadline db) := by
  unfold replaceAttempt
  refine .bind ?_ (fun _ _ => .bind fails_insertHistory (fun _ _ =>
    .bind fails_insertOutbox (fun _ _ => .ok _)))
  have hlast := (hN.pointer _ hptr).1
  refine insertAttempt_of_next (fun m => ?_) (show input.attemptNumber + 1 = N + 1 by omega)
    (fun m b hb => ?_)
  · rw [exists_get_modifyAttempt rfl]
    exact hN.numbers m
  · -- the attempt the node points to has just timed out
    rw [DB.get_modifyAttempt] at hb
    split at hb
    · obtain ⟨b', -, rfl⟩ := Option.map_eq_some_iff.mp hb
      rfl
    · rename_i hne
      by_contra hcur
      have hptr' := hN.current m b hb (by simpa using hcur)
      rw [hptr, Option.some.injEq] at hptr'
      exact hne (by rw [← hptr']; rfl)

theorem timeoutAttempt_noCollision {env : Env} {db : DB} (h : Reachable env db) (amb : Ambient)
    (input : TimeoutInput) : Fails Err.noCollision (timeoutAttempt env amb input db) := by
  unfold timeoutAttempt
  refine .bind fails_lockLease (fun _ _ => ?_)
  refine .bind (.getOr (fun _ => by simp [Err.noCollision])) (fun w _ => ?_)
  refine .bind (.rejectIf (fun _ => by simp [Err.noCollision])) (fun _ _ => ?_)
  refine .bind (.rejectIf (fun _ => by simp [Err.noCollision])) (fun _ _ => ?_)
  refine .bind (.rejectIf (fun _ => by simp [Err.noCollision])) (fun _ _ => ?_)
  refine .bind (.getOr (fun _ => by simp [Err.noCollision])) (fun n hn => ?_)
  refine .bind (.rejectIf (fun _ => by simp [Err.noCollision])) (fun _ hnum => ?_)
  refine .bind (.getOr (fun _ => by simp [Err.noCollision])) (fun a ha => ?_)
  refine .bind (.rejectIf (fun _ => by simp [Err.noCollision])) (fun _ _ => ?_)
  obtain ⟨N, hN⟩ := h.generation input.key.node
  simp only [getOr_eq_ok, rejectIf_eq_ok, not_not, Option.filter_eq_some_iff] at hn hnum ha
  have hptr : db.pointer input.key.node = some input.attemptNumber :=
    hN.current input.attemptNumber a ha.1 ha.2
  refine .ite (fun _ => ?_) (fun _ => .ite (fun _ => .error (by simp [Err.noCollision]))
    (fun _ => .ite (fun _ => ?_) (fun _ => replaceAttempt_noCollision hN hptr)))
  · exact .bind fails_insertHistory (fun _ _ => .bind fails_insertOutbox (fun _ _ => .ok _))
  · refine .bind (.getOr (fun _ => by simp [Err.noCollision])) (fun _ _ => ?_)
    exact .bind fails_insertHistory (fun _ _ => .bind fails_insertOutbox (fun _ _ => .ok _))

/-- A replacement has the number a new attempt would get. -/
theorem replacementNumber_eq {env : Env} {amb : Ambient} {input : TimeoutInput} {db db' : DB}
    {r : TimeoutResult} (h : Reachable env db) (hrun : timeoutAttempt env amb input db = .ok (r, db'))
    {m : Int} (hm : r.replacementNumber = some m) : m = db.maxAttempt input.key.node + 1 := by
  obtain ⟨w, n, a, deadline, -, -, hn, hnum, ha, hcur, ⟨-, hrun⟩ | ⟨-, -, hrun⟩ | ⟨-, -, hrun⟩⟩ :=
    timeoutAttempt_eq_ok hrun
  · simp only [redispatch, bind_eq_ok, pure_eq_ok, Prod.mk.injEq] at hrun
    obtain ⟨_, _, _, _, rfl, -⟩ := hrun
    cases hm
  · simp only [requireReconciliation, bind_eq_ok, pure_eq_ok, Prod.mk.injEq] at hrun
    obtain ⟨_, _, _, _, _, _, rfl, -⟩ := hrun
    cases hm
  · simp only [replaceAttempt, bind_eq_ok, pure_eq_ok, Prod.mk.injEq] at hrun
    obtain ⟨_, _, _, _, _, _, rfl, -⟩ := hrun
    obtain ⟨N, hN⟩ := h.generation input.key.node
    have hlast := (hN.pointer _ (hN.current input.attemptNumber a ha hcur)).1
    rw [hN.maxAttempt, ← hlast]
    exact (Option.some.inj hm).symm

/-- The attempts of every node are numbered 1 to some `N`, only the last one
    can be current or pointed to, and the two ways to allocate the next number
    agree and never collide. -/
structure AttemptGenerations (env : Env) (db : DB) : Prop where
  numbered : ∀ k, ∃ N, db.maxAttempt k = N ∧
    (∀ m, (∃ a, db.attempts.get ⟨k, m⟩ = some a) ↔ 1 ≤ m ∧ m ≤ N) ∧
    (∀ a, db.attempts.get a.key = some a → a.key.node = k → a.isCurrent = true →
      a.key.number = N) ∧
    (∀ n m, db.nodes.get k = some n → n.currentAttempt = some m → m = N)
  replacement : ∀ amb input r db' m, timeoutAttempt env amb input db = .ok (r, db') →
    r.replacementNumber = some m → m = db.maxAttempt input.key.node + 1
  create : ∀ amb input, Fails Err.noCollision (createAttempt env amb input db)
  timeout : ∀ amb input, Fails Err.noCollision (timeoutAttempt env amb input db)

theorem attempt_generations {env : Env} {db : DB} (h : Reachable env db) :
    AttemptGenerations env db where
  numbered k := by
    obtain ⟨N, hN⟩ := h.generation k
    refine ⟨N, hN.maxAttempt, hN.numbers, fun a ha hk hcur => ?_, fun n m hn hm => ?_⟩
    · have hget : db.attempts.get ⟨k, a.key.number⟩ = some a := by
        rw [← hk]
        exact ha
      exact (hN.pointer _ (hN.current _ a hget hcur)).1
    · exact (hN.pointer m (pointer_eq_some.mpr ⟨n, hn, hm⟩)).1
  replacement _ _ _ _ _ hrun hm := replacementNumber_eq h hrun hm
  create := createAttempt_noCollision h
  timeout := timeoutAttempt_noCollision h

/-- A claimed attempt times out and is replaced by the second one. -/
theorem attempt_generations_replaced :
    ∃ db, Reachable .plain db ∧ db.maxAttempt ⟨"w", "a", 0⟩ = 2 ∧ AttemptGenerations .plain db := by
  have hrun : (runScript? .plain 0 (soloScript.take 5 ++ ([
      .call (.claimAttempt ⟨1, "w", "a", 0, "worker", "request", 10⟩), .tick 20,
      .call (.timeoutAttempt ⟨soloLease, "w", "a", 0, 1, 3, "scheduler", 0⟩)] : List Action)) (DB.init 0)).any
      (fun db => db.maxAttempt ⟨"w", "a", 0⟩ = 2) = true := by decide +kernel
  obtain ⟨db, hdb, hmax⟩ := (Option.any_eq_true _ _).mp hrun
  have hreach : Reachable .plain db := reachable_of_runScript? hdb
  exact ⟨db, hreach, by simpa using hmax, attempt_generations hreach⟩

end DurableEngine.State
