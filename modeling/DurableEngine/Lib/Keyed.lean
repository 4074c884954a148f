/-
  DurableEngine.Lib.Keyed

  Folds over interleaved records.

  When every record changes only the state under its own key, folding an
  interleaving is folding the records of each key on their own
  (`foldlM_keyed_iff`), so the order in which keys take turns is immaterial.
-/

import DurableEngine.Lib.Tx
import Mathlib

namespace DurableEngine.Lib

section Keyed

variable {κ ρ σ ε : Type} [DecidableEq κ] (key : ρ → κ) (step : σ → ρ → Except ε σ)

/-- One record changes the state under its key. -/
def keyedStep (s : κ → σ) (r : ρ) : Except ε (κ → σ) :=
  (step (s (key r)) r).map (Function.update s (key r))

variable {key step}

theorem keyedStep_eq_ok_iff {s s' : κ → σ} {r : ρ} :
    keyedStep key step s r = .ok s' ↔ ∃ x, step (s (key r)) r = .ok x ∧ s' = Function.update s (key r) x := by
  rw [keyedStep]
  cases step (s (key r)) r with
  | error e => exact ⟨fun h => (nomatch h), fun ⟨_, h, _⟩ => (nomatch h)⟩
  | ok x =>
      simp only [Except.map, Except.ok.injEq]
      exact ⟨fun h => ⟨x, rfl, h.symm⟩, fun ⟨_, hx, h⟩ => by rw [h, hx]⟩

theorem foldlM_cons_eq_ok {τ : Type} {f : τ → ρ → Except ε τ} {s s' : τ} {r : ρ} {rs : List ρ} :
    (r :: rs).foldlM f s = .ok s' ↔ ∃ t, f s r = .ok t ∧ rs.foldlM f t = .ok s' := by
  rw [List.foldlM_cons, bind_eq_ok]

/-- A fold over an interleaving is a fold for each key. -/
theorem foldlM_keyed_iff {rs : List ρ} {s s' : κ → σ} :
    rs.foldlM (keyedStep key step) s = .ok s' ↔
      ∀ k, (rs.filter (fun r => key r = k)).foldlM step (s k) = .ok (s' k) := by
  induction rs generalizing s with
  | nil =>
      constructor
      · intro h k
        cases pure_eq_ok.mp h
        rfl
      · intro h
        exact congrArg Except.ok (funext (fun k => pure_eq_ok.mp (h k)))
  | cons r rs ih =>
      have hfilter : ∀ k, (r :: rs).filter (fun r => key r = k) =
          if key r = k then r :: rs.filter (fun r => key r = k) else rs.filter (fun r => key r = k) := by
        intro k
        rw [List.filter_cons]
        simp only [decide_eq_true_eq]
      rw [foldlM_cons_eq_ok]
      constructor
      · rintro ⟨t, hstep, hrest⟩ k
        obtain ⟨x, hx, rfl⟩ := keyedStep_eq_ok_iff.mp hstep
        have hk := ih.mp hrest k
        rw [hfilter k]
        split
        · rename_i hkey
          subst hkey
          rw [Function.update_self] at hk
          exact foldlM_cons_eq_ok.mpr ⟨x, hx, hk⟩
        · rename_i hkey
          rw [Function.update_of_ne (Ne.symm hkey)] at hk
          exact hk
      · intro h
        have hself := h (key r)
        rw [hfilter, if_pos rfl, foldlM_cons_eq_ok] at hself
        obtain ⟨x, hx, hrest⟩ := hself
        refine ⟨Function.update s (key r) x, keyedStep_eq_ok_iff.mpr ⟨x, hx, rfl⟩, ih.mpr (fun k => ?_)⟩
        by_cases hkey : key r = k
        · subst hkey
          rw [Function.update_self]
          exact hrest
        · have hk := h k
          rw [hfilter, if_neg hkey] at hk
          rw [Function.update_of_ne (Ne.symm hkey)]
          exact hk

end Keyed

end DurableEngine.Lib
