/-
  DurableEngine.Lib.Search

  The loop `for p(n) { n++ }` over a predicate that holds at finitely many
  numbers.

  `firstGap p fuel n` runs the loop for at most `fuel` rounds.  When every
  number where `p` holds is in a list, that many rounds are enough
  (`firstGap_false`), and whatever the fuel is, `p` holds at every number the
  loop has passed (`firstGap_covered`).
-/

import Mathlib

namespace DurableEngine.Lib

/-- The first number from `n` on where `p` fails, found within `fuel` rounds. -/
def firstGap (p : Int → Bool) : Nat → Int → Int
  | 0, n => n
  | fuel + 1, n => if p n then firstGap p fuel (n + 1) else n

theorem le_firstGap (p : Int → Bool) (fuel : Nat) (n : Int) : n ≤ firstGap p fuel n := by
  induction fuel generalizing n with
  | zero => exact Int.le_refl n
  | succ fuel ih =>
      unfold firstGap
      split
      · have hnext := ih (n + 1)
        omega
      · exact Int.le_refl n

/-- The loop passes only numbers where `p` holds. -/
theorem firstGap_covered (p : Int → Bool) (fuel : Nat) (n : Int) :
    ∀ m, n ≤ m → m < firstGap p fuel n → p m = true := by
  induction fuel generalizing n with
  | zero =>
      intro m hle hlt
      simp only [firstGap] at hlt
      omega
  | succ fuel ih =>
      intro m hle hlt
      unfold firstGap at hlt
      split at hlt
      · rename_i hp
        rcases Int.lt_or_eq_of_le hle with hlt' | rfl
        · exact ih (n + 1) m (by omega) hlt
        · exact hp
      · omega

/-- The loop that has not found a gap has passed as many numbers as it had rounds. -/
theorem firstGap_of_true {p : Int → Bool} {fuel : Nat} {n : Int}
    (h : p (firstGap p fuel n) = true) : firstGap p fuel n = n + fuel := by
  induction fuel generalizing n with
  | zero => simp [firstGap]
  | succ fuel ih =>
      unfold firstGap at h ⊢
      split at h
      · rename_i hp
        rw [if_pos hp, ih h]
        omega
      · rename_i hp
        exact absurd h hp

/-- As many rounds as there are candidates are enough. -/
theorem firstGap_false {p : Int → Bool} {candidates : List Int}
    (h : ∀ m, p m = true → m ∈ candidates) (n : Int) :
    p (firstGap p candidates.length n) = false := by
  by_contra hne
  have htrue : p (firstGap p candidates.length n) = true := by simpa using hne
  have hend := firstGap_of_true htrue
  -- the numbers from `n` to the end are one more than the candidates, and all of them are one
  have hsub : Finset.Icc n (n + candidates.length) ⊆ candidates.toFinset := by
    intro m hm
    obtain ⟨hle, hge⟩ := Finset.mem_Icc.mp hm
    refine List.mem_toFinset.mpr (h m ?_)
    rcases Int.lt_or_eq_of_le hge with hlt | rfl
    · exact firstGap_covered p _ n m hle (by rw [hend]; exact hlt)
    · rw [hend] at htrue
      exact htrue
  have hcard := (Finset.card_le_card hsub).trans (List.toFinset_card_le candidates)
  rw [Int.card_Icc] at hcard
  omega

end DurableEngine.Lib
