/-
  DurableEngine.Lib.Numbered

  Lists whose elements are numbered in order without a gap.

  A list of elements with different numbers, those from `n` to `N`, is
  numbered from `n` on once it is sorted (`Numbered.insertionSort`), so a scan
  of the sorted list is an induction on `Numbered`.
-/

import Mathlib

namespace DurableEngine.Lib

/-- The numbers of the elements are `n`, `n + 1` and so on. -/
inductive Numbered {ρ : Type} (number : ρ → Int) : Int → List ρ → Prop where
  | nil (n : Int) : Numbered number n []
  | cons {n : Int} {r : ρ} {rs : List ρ} (head : number r = n) (tail : Numbered number (n + 1) rs) :
      Numbered number n (r :: rs)

namespace Numbered

variable {ρ : Type} {number : ρ → Int} {n N : Int} {rs : List ρ}

theorem le (h : Numbered number n rs) : ∀ r ∈ rs, n ≤ number r := by
  induction h with
  | nil n => exact fun r hr => nomatch hr
  | cons head tail ih =>
      intro r hr
      obtain rfl | hr := List.mem_cons.mp hr
      · exact Int.le_of_eq head.symm
      · have hle := ih r hr
        omega

theorem pairwise (h : Numbered number n rs) : rs.Pairwise (fun r s => number r < number s) := by
  induction h with
  | nil n => exact .nil
  | cons head tail ih =>
      refine List.pairwise_cons.mpr ⟨fun s hs => ?_, ih⟩
      have hle := tail.le s hs
      omega

theorem of_pairwise (hsorted : rs.Pairwise (fun r s => number r < number s))
    (hrange : ∀ m, (∃ r ∈ rs, number r = m) ↔ n ≤ m ∧ m ≤ N) : Numbered number n rs := by
  induction rs generalizing n with
  | nil => exact .nil n
  | cons r rs ih =>
      obtain ⟨hfirst, hrest⟩ := List.pairwise_cons.mp hsorted
      have hr := (hrange (number r)).mp ⟨r, List.mem_cons_self, rfl⟩
      -- the least number is there, and only the first element can carry it
      have hhead : number r = n := by
        obtain ⟨s, hs, hnum⟩ := (hrange n).mpr ⟨Int.le_refl _, by omega⟩
        obtain rfl | hs := List.mem_cons.mp hs
        · exact hnum
        · have hlt := hfirst s hs
          omega
      refine .cons hhead (ih hrest (fun m => ⟨?_, ?_⟩))
      · rintro ⟨s, hs, rfl⟩
        have hlt := hfirst s hs
        have hle := ((hrange (number s)).mp ⟨s, List.mem_cons_of_mem _ hs, rfl⟩).2
        omega
      · rintro ⟨hlow, hhigh⟩
        obtain ⟨s, hs, hnum⟩ := (hrange m).mpr ⟨by omega, hhigh⟩
        obtain rfl | hs := List.mem_cons.mp hs
        · omega
        · exact ⟨s, hs, hnum⟩

/-- Elements with different numbers, those from `n` to `N`, are numbered once they are sorted. -/
theorem insertionSort (hdistinct : rs.Pairwise (fun r s => number r ≠ number s))
    (hrange : ∀ m, (∃ r ∈ rs, number r = m) ↔ n ≤ m ∧ m ≤ N) :
    Numbered number n (rs.insertionSort (fun r s => number r ≤ number s)) := by
  have hperm := List.perm_insertionSort (fun r s : ρ => number r ≤ number s) rs
  have hne := (hperm.pairwise_iff (fun h => Ne.symm h)).mpr hdistinct
  have hle := List.pairwise_insertionSort (fun r s : ρ => number r ≤ number s) rs
  refine of_pairwise (N := N) ((hle.and hne).imp (fun hboth => by omega)) (fun m => ?_)
  rw [← hrange m]
  simp only [hperm.mem_iff]

/-- At most one element has the property when all that have it carry the number `m`. -/
theorem countP_le_one (h : Numbered number n rs) {p : ρ → Bool} {m : Int}
    (hp : ∀ r ∈ rs, p r = true → number r = m) : rs.countP p ≤ 1 := by
  induction h with
  | nil n => exact Nat.zero_le 1
  | cons head tail ih =>
      rename_i n r rs
      rw [List.countP_cons]
      by_cases hr : p r = true
      · have hm := hp r List.mem_cons_self hr
        have hrest : rs.countP p = 0 := by
          refine List.countP_eq_zero.mpr (fun s hs hps => ?_)
          have hlow := tail.le s hs
          have hsame := hp s (List.mem_cons_of_mem _ hs) hps
          omega
        rw [hrest, if_pos hr]
      · rw [if_neg hr]
        exact ih (fun s hs => hp s (List.mem_cons_of_mem _ hs))

end Numbered

end DurableEngine.Lib
