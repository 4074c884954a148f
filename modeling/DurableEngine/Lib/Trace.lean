/-
  DurableEngine.Lib.Trace

  Runs of a transition system whose steps are labelled with the events they
  show.  A trace lists the events of a run in order, so a property of what has
  happened so far is an invariant of the trace and the state together.
-/

import Mathlib

namespace DurableEngine.Lib

universe u v

/-- A run of `step` from `start` that shows the events of `trace`. -/
inductive Trace {σ : Type u} {ε : Type v} (step : σ → List ε → σ → Prop) (start : σ) : List ε → σ → Prop where
  | refl : Trace step start [] start
  | tail {trace events : List ε} {s s' : σ} (run : Trace step start trace s)
      (last : step s events s') : Trace step start (trace ++ events) s'

namespace Trace

variable {σ : Type u} {ε : Type v} {step : σ → List ε → σ → Prop} {s₀ s s' : σ} {trace trace' : List ε}

theorem single {events : List ε} (h : step s events s') : Trace step s events s' := by
  exact List.nil_append events ▸ Trace.tail .refl h

theorem append (h : Trace step s₀ trace s) (h' : Trace step s trace' s') :
    Trace step s₀ (trace ++ trace') s' := by
  induction h' with
  | refl => rwa [List.append_nil]
  | tail _ hlast ih =>
      rw [← List.append_assoc]
      exact ih.tail hlast

theorem head {events : List ε} {s₁ : σ} (h : step s events s₁) (h' : Trace step s₁ trace s') :
    Trace step s (events ++ trace) s' :=
  (single h).append h'

/-- What holds at the start and is kept by every step, the events included, holds at the end. -/
theorem invariant {I : List ε → σ → Prop} (h : Trace step s₀ trace s) (hinit : I [] s₀)
    (hstep : ∀ trace events s s', I trace s → step s events s' → I (trace ++ events) s') :
    I trace s := by
  induction h with
  | refl => exact hinit
  | tail _ hlast ih => exact hstep _ _ _ _ ih hlast

/-- A property of states that every step keeps. -/
theorem keeps {I : σ → Prop} (h : Trace step s trace s') (hs : I s)
    (hstep : ∀ events s s', I s → step s events s' → I s') : I s' := by
  induction h with
  | refl => exact hs
  | tail _ hlast ih => exact hstep _ _ _ ih hlast

/-- A reflexive and transitive relation that contains every step relates the ends of a run. -/
theorem relates {R : σ → σ → Prop} (h : Trace step s trace s') (hrefl : ∀ s, R s s)
    (htrans : ∀ a b c, R a b → R b c → R a c) (hstep : ∀ events s s', step s events s' → R s s') :
    R s s' := by
  induction h with
  | refl => exact hrefl _
  | tail _ hlast ih => exact htrans _ _ _ ih (hstep _ _ _ hlast)

end Trace

end DurableEngine.Lib
