/-
  DurableEngine.Lib.Tx

  Transactions as `Except` computations: a failed check aborts the whole
  transaction, so an error never carries a new state.

  `rejectIf c e` is the early return of an imperative check and `getOr o e`
  a row that has to be there.  The `_eq_ok` lemmas take a committed
  transaction apart into the checks it passed and the values it read; the
  `_of_` lemmas run one forwards.
-/

import Mathlib

namespace DurableEngine.Lib

variable {ε α β : Type}

/-- Abort with `e` when `c` holds. -/
def rejectIf (c : Prop) [Decidable c] (e : ε) : Except ε Unit :=
  if c then .error e else .ok ()

/-- The value of `o`, or abort with `e`. -/
def getOr (o : Option α) (e : ε) : Except ε α :=
  match o with
  | some a => .ok a
  | none => .error e

theorem bind_eq_ok {x : Except ε α} {f : α → Except ε β} {b : β} :
    (x >>= f) = .ok b ↔ ∃ a, x = .ok a ∧ f a = .ok b := by
  cases x with
  | error e => simp [bind, Except.bind]
  | ok a => simp [bind, Except.bind]

@[simp] theorem ok_bind (a : α) (f : α → Except ε β) : (Except.ok a >>= f) = f a := rfl

theorem pure_eq_ok {a b : α} : (pure a : Except ε α) = .ok b ↔ a = b := by
  simp [pure, Except.pure]

theorem rejectIf_eq_ok {c : Prop} [Decidable c] {e : ε} {u : Unit} :
    rejectIf c e = .ok u ↔ ¬ c := by
  unfold rejectIf
  split <;> simp_all

theorem getOr_eq_ok {o : Option α} {e : ε} {a : α} : getOr o e = .ok a ↔ o = some a := by
  cases o <;> simp [getOr]

theorem rejectIf_of_not {c : Prop} [Decidable c] (e : ε) (h : ¬ c) : rejectIf c e = .ok () := by
  simp [rejectIf, h]

theorem rejectIf_of {c : Prop} [Decidable c] (e : ε) (h : c) : rejectIf c e = .error e := by
  simp [rejectIf, h]

@[simp] theorem getOr_some (a : α) (e : ε) : getOr (some a) e = .ok a := rfl

@[simp] theorem error_bind (e : ε) (f : α → Except ε β) :
    ((Except.error e : Except ε α) >>= f) = .error e := rfl

-- ============================================================================
-- Errors of a transaction
-- ============================================================================

/-- Every error of `x` satisfies `P`. -/
def Fails (P : ε → Prop) (x : Except ε α) : Prop := ∀ e, x = .error e → P e

theorem Fails.ok {P : ε → Prop} (a : α) : Fails P (.ok a) := fun _ h => nomatch h

theorem Fails.error {P : ε → Prop} {e : ε} (h : P e) : Fails P (.error e : Except ε α) := by
  intro e' he'
  cases he'
  exact h

theorem Fails.rejectIf {P : ε → Prop} {c : Prop} [Decidable c] {e : ε} (h : c → P e) :
    Fails P (rejectIf c e) := by
  unfold Lib.rejectIf
  split
  · rename_i hc
    exact .error (h hc)
  · exact .ok ()

theorem Fails.getOr {P : ε → Prop} {o : Option α} {e : ε} (h : o = none → P e) :
    Fails P (getOr o e) := by
  cases o with
  | none => exact .error (h rfl)
  | some a => exact .ok a

theorem Fails.bind {P : ε → Prop} {x : Except ε α} {f : α → Except ε β} (hx : Fails P x)
    (hf : ∀ a, x = .ok a → Fails P (f a)) : Fails P (x >>= f) := by
  cases x with
  | error e => exact .error (hx e rfl)
  | ok a => exact hf a rfl

theorem Fails.ite {P : ε → Prop} {c : Prop} [Decidable c] {x y : Except ε α}
    (hx : c → Fails P x) (hy : ¬ c → Fails P y) : Fails P (if c then x else y) := by
  split
  · rename_i hc
    exact hx hc
  · rename_i hc
    exact hy hc

-- ============================================================================
-- Transactions that commit
-- ============================================================================

/-- `x` commits, with a result that satisfies `P`. -/
def Succeeds (P : α → Prop) (x : Except ε α) : Prop := ∃ a, x = .ok a ∧ P a

theorem Succeeds.ok {P : α → Prop} {a : α} (h : P a) : Succeeds P (.ok a : Except ε α) :=
  ⟨a, rfl, h⟩

theorem Succeeds.bind {P : α → Prop} {Q : β → Prop} {x : Except ε α} {f : α → Except ε β}
    (hx : Succeeds P x) (hf : ∀ a, P a → Succeeds Q (f a)) : Succeeds Q (x >>= f) := by
  obtain ⟨a, rfl, ha⟩ := hx
  exact hf a ha

/-- A check that passes. -/
theorem Succeeds.unless {Q : β → Prop} {c : Prop} [Decidable c] {e : ε} {f : Unit → Except ε β}
    (hc : ¬ c) (hf : Succeeds Q (f ())) : Succeeds Q (Lib.rejectIf c e >>= f) := by
  rw [rejectIf_of_not e hc]
  exact hf

/-- A lookup that finds its row. -/
theorem Succeeds.found {Q : β → Prop} {o : Option α} {e : ε} {f : α → Except ε β} {a : α}
    (ho : o = some a) (hf : Succeeds Q (f a)) : Succeeds Q (Lib.getOr o e >>= f) := by
  rw [ho]
  exact hf

-- ============================================================================
-- Invariants of a transition relation
-- ============================================================================

/-- What holds at the start and is kept by every step holds in every reachable state. -/
theorem invariant_of_step {σ : Type*} {step : σ → σ → Prop} {I : σ → Prop} {s₀ s : σ}
    (h : Relation.ReflTransGen step s₀ s) (hinit : I s₀)
    (hstep : ∀ s s', I s → step s s' → I s') : I s := by
  induction h with
  | refl => exact hinit
  | tail _ hlast ih => exact hstep _ _ ih hlast

/-- A reflexive and transitive relation that contains every step relates the ends of a run. -/
theorem relates_of_step {σ : Type*} {step : σ → σ → Prop} {R : σ → σ → Prop} {s s' : σ}
    (h : Relation.ReflTransGen step s s') (hrefl : ∀ s, R s s)
    (htrans : ∀ a b c, R a b → R b c → R a c) (hstep : ∀ s s', step s s' → R s s') : R s s' := by
  induction h with
  | refl => exact hrefl _
  | tail _ hlast ih => exact htrans _ _ _ ih (hstep _ _ hlast)

theorem toOption_eq_some {ε α : Type} {x : Except ε α} {a : α} (h : x.toOption = some a) :
    x = .ok a := by
  cases x with
  | error e => cases h
  | ok b =>
      cases h
      rfl

end DurableEngine.Lib
