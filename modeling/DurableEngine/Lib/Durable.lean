/-
  DurableEngine.Lib.Durable

  Calls that commit to a store one transaction at a time and may stop after
  any of them.

  A call is what it leaves behind: the states after its commits and the result it
  returns or raises.  `Holds` says that a property holds after every commit,
  which is what a crash can leave, and that another one holds of a call that
  returns.
-/

import Mathlib

namespace DurableEngine.Lib

/-- The states after the commits of a call, oldest first, and how it ends. -/
@[ext]
structure Commits (σ ε α : Type) where
  states : List σ
  result : Except ε α

/-- The state after the commits `states`, from `s`. -/
def lastOf {σ : Type} (s : σ) (states : List σ) : σ := states.getLast?.getD s

/-- The commits one by one: the state before and the state after. -/
def changes {σ : Type} (s : σ) (states : List σ) : List (σ × σ) := (s :: states).zip states

section Chains

variable {σ : Type} {s t : σ} {states rest : List σ}

@[simp] theorem lastOf_nil : lastOf s [] = s := rfl

@[simp] theorem lastOf_cons : lastOf s (t :: states) = lastOf t states := by
  cases states with
  | nil => rfl
  | cons u us => rfl

theorem lastOf_append : lastOf s (states ++ rest) = lastOf (lastOf s states) rest := by
  induction states generalizing s with
  | nil => rfl
  | cons t states ih =>
      rw [List.cons_append, lastOf_cons, lastOf_cons]
      exact ih

@[simp] theorem changes_nil : changes s [] = [] := rfl

@[simp] theorem changes_cons : changes s (t :: states) = (s, t) :: changes t states := rfl

/-- What holds at the start and after every commit holds wherever the commits stop. -/
theorem lastOf_of_forall {I : σ → Prop} (hs : I s) (h : ∀ t ∈ states, I t) : I (lastOf s states) := by
  induction states generalizing s with
  | nil => exact hs
  | cons t states ih =>
      rw [lastOf_cons]
      apply ih (h t List.mem_cons_self)
      exact fun u hu => h u (List.mem_cons_of_mem t hu)

/-- A commit leaves what the chain leaves when it is cut off right after it. -/
theorem mem_changes {c : σ × σ} (h : c ∈ changes s states) :
    ∃ n, n ≤ states.length ∧ c.2 = lastOf s (states.take n) := by
  induction states generalizing s with
  | nil => exact nomatch h
  | cons t states ih =>
      rcases List.mem_cons.mp h with rfl | h
      · exact ⟨1, Nat.le_add_left 1 _, rfl⟩
      · obtain ⟨n, hn, hc⟩ := ih h
        exact ⟨n + 1, Nat.succ_le_succ hn, by rw [List.take_succ_cons, lastOf_cons, hc]⟩

end Chains

/-- The state a call that started in `s` ends in. -/
def Commits.last {σ ε α : Type} (c : Commits σ ε α) (s : σ) : σ := lastOf s c.states

def Durable (σ ε α : Type) : Type := σ → Commits σ ε α

namespace Durable

variable {σ ε α β : Type}

/-- `m`, then `f` on its result in the state that `m` leaves. -/
def andThen (m : Durable σ ε α) (f : α → Durable σ ε β) : Durable σ ε β := fun s =>
  match (m s).result with
  | .error e => ⟨(m s).states, .error e⟩
  | .ok a => ⟨(m s).states ++ (f a ((m s).last s)).states, (f a ((m s).last s)).result⟩

instance : Monad (Durable σ ε) where
  pure a := fun _ => ⟨[], .ok a⟩
  bind := andThen

/-- The state as it stands. -/
def read : Durable σ ε σ := fun s => ⟨[], .ok s⟩

/-- One transaction. -/
def commit (f : σ → σ) : Durable σ ε Unit := fun s => ⟨[f s], .ok ()⟩

def raise (e : ε) : Durable σ ε α := fun _ => ⟨[], .error e⟩

-- ============================================================================
-- Execution
-- ============================================================================

variable {m : Durable σ ε α} {f : α → Durable σ ε β} {s : σ}

@[simp] theorem run_pure (a : α) : (pure a : Durable σ ε α) s = ⟨[], .ok a⟩ := rfl

@[simp] theorem run_read_bind (f : σ → Durable σ ε β) : (read >>= f) s = f s s := rfl

@[simp] theorem run_commit_bind (g : σ → σ) (f : Unit → Durable σ ε β) :
    (commit g >>= f) s = ⟨g s :: (f () (g s)).states, (f () (g s)).result⟩ := rfl

@[simp] theorem run_commit (g : σ → σ) : (commit g : Durable σ ε Unit) s = ⟨[g s], .ok ()⟩ := rfl

@[simp] theorem run_raise (e : ε) : (raise e : Durable σ ε α) s = ⟨[], .error e⟩ := rfl

@[simp] theorem run_raise_bind (e : ε) (f : α → Durable σ ε β) : (raise e >>= f) s = ⟨[], .error e⟩ := rfl

theorem run_bind_ok {a : α} (h : (m s).result = .ok a) :
    (m >>= f) s = ⟨(m s).states ++ (f a ((m s).last s)).states, (f a ((m s).last s)).result⟩ := by
  show andThen m f s = _
  rw [andThen, h]

theorem run_bind_error {e : ε} (h : (m s).result = .error e) : (m >>= f) s = ⟨(m s).states, .error e⟩ := by
  show andThen m f s = _
  rw [andThen, h]

theorem last_append {c : Commits σ ε α} {d : Commits σ ε β} (r : Except ε β) :
    Commits.last ⟨c.states ++ d.states, r⟩ s = d.last (c.last s) :=
  lastOf_append

-- ============================================================================
-- Crash conditions
-- ============================================================================

/-- `I` holds after every commit, and `Q` of the result and the last state of a call that returns. -/
structure Holds (I : σ → Prop) (m : Durable σ ε α) (s : σ) (Q : α → σ → Prop) : Prop where
  states : ∀ t ∈ (m s).states, I t
  result : ∀ a, (m s).result = .ok a → Q a ((m s).last s)

variable {I : σ → Prop} {Q : α → σ → Prop} {R : β → σ → Prop}

theorem Holds.pure {a : α} (h : Q a s) : Holds (ε := ε) I (Pure.pure a) s Q where
  states _ ht := nomatch ht
  result b hb := by
    cases hb
    exact h

theorem Holds.raise {e : ε} : Holds I (raise e) s Q where
  states _ ht := nomatch ht
  result _ hb := nomatch hb

theorem Holds.commit {g : σ → σ} {Q : Unit → σ → Prop} (hI : I (g s)) (h : Q () (g s)) :
    Holds (ε := ε) I (commit g) s Q where
  states t ht := by
    rw [List.mem_singleton.mp ht]
    exact hI
  result _ hb := by
    cases hb
    exact h

theorem Holds.read {Q : σ → σ → Prop} (h : Q s s) : Holds (ε := ε) I read s Q where
  states _ ht := nomatch ht
  result _ hb := by
    cases hb
    exact h

/-- Sequencing: `f` starts from what `m` leaves. -/
theorem Holds.bind (hm : Holds I m s Q) (hf : ∀ a t, Q a t → Holds I (f a) t R) : Holds I (m >>= f) s R := by
  cases hresult : (m s).result with
  | error e =>
      refine ⟨?_, ?_⟩ <;> rw [run_bind_error hresult]
      · exact hm.states
      · exact fun _ hb => nomatch hb
  | ok a =>
      have hnext := hf a _ (hm.result a hresult)
      refine ⟨?_, ?_⟩ <;> rw [run_bind_ok hresult]
      · intro t ht
        apply (List.mem_append.mp ht).elim
        · exact hm.states t
        · exact hnext.states t
      · intro b hb
        rw [last_append]
        exact hnext.result b hb

/-- `m` writes `t` and goes on as `m'`. -/
theorem Holds.cons {m' : Durable σ ε α} {t : σ} (h : m s = ⟨t :: (m' t).states, (m' t).result⟩) (ht : I t)
    (h' : Holds I m' t Q) : Holds I m s Q where
  states u hu := by
    rw [h] at hu
    rcases List.mem_cons.mp hu with rfl | hu
    · exact ht
    · exact h'.states u hu
  result a ha := by
    rw [h] at ha ⊢
    rw [Commits.last, lastOf_cons]
    exact h'.result a ha

theorem Holds.congr {m' : Durable σ ε α} (h : m s = m' s) (h' : Holds I m' s Q) : Holds I m s Q :=
  ⟨h ▸ h'.states, h ▸ h'.result⟩

theorem Holds.ite {p : Prop} [Decidable p] {m' : Durable σ ε α} (h : p → Holds I m s Q)
    (h' : ¬ p → Holds I m' s Q) : Holds I (if p then m else m') s Q := by
  split
  · exact h ‹_›
  · exact h' ‹_›

end Durable

end DurableEngine.Lib
