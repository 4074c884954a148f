/-
  DurableEngine.Lib.Ensures

  What every result of a transaction satisfies, by the shape of its program.
-/

import DurableEngine.Lib.Tx

namespace DurableEngine.Lib

variable {ε α β : Type}

/-- Every result of `x` satisfies `P`. -/
def Ensures (P : α → Prop) (x : Except ε α) : Prop := ∀ a, x = .ok a → P a

namespace Ensures

variable {P : α → Prop} {Q : β → Prop} {x y : Except ε α} {f : α → Except ε β}

theorem ok {a : α} (h : P a) : Ensures P (.ok a : Except ε α) := by
  intro a' ha'
  cases ha'
  exact h

theorem error {e : ε} : Ensures P (.error e : Except ε α) := fun _ h => nomatch h

theorem bind (hx : Ensures P x) (hf : ∀ a, P a → Ensures Q (f a)) : Ensures Q (x >>= f) := by
  cases x with
  | error e => exact error
  | ok a => exact hf a (hx a rfl)

/-- A statement whose result says nothing about the outcome. -/
theorem skip (hf : ∀ a, Ensures Q (f a)) : Ensures Q (x >>= f) :=
  bind (P := fun _ => True) (fun _ _ => trivial) (fun a _ => hf a)

theorem ite {c : Prop} [Decidable c] (hx : Ensures P x) (hy : Ensures P y) : Ensures P (if c then x else y) := by
  split
  · exact hx
  · exact hy

end Ensures

end DurableEngine.Lib
