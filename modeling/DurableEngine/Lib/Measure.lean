/-
  DurableEngine.Lib.Measure

  A number that every step lowers bounds the length of every run.  The number of
  a family of processes is the sum of theirs, so a step of one process is a
  statement about its own.
-/

import Mathlib

namespace DurableEngine.Lib

universe u v

/-- The first `k` states of a sequence follow each other. -/
def Follows {σ : Type u} {ε : Type v} (step : σ → List ε → σ → Prop) (f : ℕ → σ) (k : ℕ) : Prop :=
  ∀ j < k, ∃ events, step (f j) events (f (j + 1))

theorem Follows.measure_le {σ : Type u} {ε : Type v} {step : σ → List ε → σ → Prop} {f : ℕ → σ} {k : ℕ}
    (h : Follows step f k) {μ : σ → ℕ} (hstep : ∀ s events s', step s events s' → μ s' < μ s) :
    k + μ (f k) ≤ μ (f 0) := by
  induction k with
  | zero => rw [Nat.zero_add]
  | succ k ih =>
      have hprefix := ih (fun j hj => h j (hj.trans (Nat.lt_succ_self k)))
      obtain ⟨events, hlast⟩ := h k (Nat.lt_succ_self k)
      have hlt := hstep _ _ _ hlast
      omega

/-- One process goes on. -/
theorem sum_update_add {ι α : Type} [Fintype ι] [DecidableEq ι] (w : α → ℕ) (f : ι → α) (i : ι) (a : α) :
    ∑ j, w (Function.update f i a j) + w (f i) = ∑ j, w (f j) + w a := by
  have hupdate : (fun j => w (Function.update f i a j)) = Function.update (fun j => w (f j)) i (w a) := by
    funext j
    by_cases hj : j = i
    · rw [hj, Function.update_self, Function.update_self]
    · rw [Function.update_of_ne hj, Function.update_of_ne hj]
  have hrest := Finset.add_sum_erase Finset.univ (fun j => w (f j)) (Finset.mem_univ i)
  rw [hupdate, Finset.sum_update_of_mem (Finset.mem_univ i), ← Finset.erase_eq]
  omega

end DurableEngine.Lib
