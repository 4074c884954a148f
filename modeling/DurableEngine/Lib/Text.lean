/-
  DurableEngine.Lib.Text

  Texts built from parts: a separator that the parts do not hold, and decimal
  numbers.
-/

import Mathlib

namespace DurableEngine.Lib

/-- The part before the first separator and the rest are determined. -/
theorem append_cons_inj {α : Type} {c : α} {a b x y : List α} (ha : c ∉ a) (hb : c ∉ b)
    (h : a ++ c :: x = b ++ c :: y) : a = b ∧ x = y := by
  induction a generalizing b with
  | nil =>
      cases b with
      | nil => exact ⟨rfl, (List.cons.inj h).2⟩
      | cons d b => exact absurd ((List.cons.inj h).1 ▸ List.mem_cons_self) hb
  | cons d a ih =>
      cases b with
      | nil => exact absurd ((List.cons.inj h).1 ▸ List.mem_cons_self) ha
      | cons e b =>
          obtain ⟨hde, hrest⟩ := List.cons.inj h
          obtain ⟨hab, hxy⟩ := ih (fun hm => ha (List.mem_cons_of_mem _ hm))
            (fun hm => hb (List.mem_cons_of_mem _ hm)) hrest
          exact ⟨by rw [hde, hab], hxy⟩

/-- The rest after the last separator and the part before it are determined. -/
theorem append_cons_inj_last {α : Type} {c : α} {a b x y : List α} (hx : c ∉ x) (hy : c ∉ y)
    (h : a ++ c :: x = b ++ c :: y) : a = b ∧ x = y := by
  have hreverse := congrArg List.reverse h
  simp only [List.reverse_append, List.reverse_cons, List.append_assoc, List.singleton_append] at hreverse
  obtain ⟨hxy, hab⟩ := append_cons_inj (fun hc => hx (List.mem_reverse.mp hc)) (fun hc => hy (List.mem_reverse.mp hc))
    hreverse
  exact ⟨List.reverse_injective hab, List.reverse_injective hxy⟩

/-- The texts before and after a separator, when the first holds none. -/
theorem separated_inj {c : Char} {a b x y : String} (ha : c ∉ a.toList) (hb : c ∉ b.toList)
    (h : a ++ String.singleton c ++ x = b ++ String.singleton c ++ y) : a = b ∧ x = y := by
  have hchars := congrArg String.toList h
  simp only [String.toList_append, String.toList_singleton, List.append_assoc,
    List.singleton_append] at hchars
  obtain ⟨hab, hxy⟩ := append_cons_inj ha hb hchars
  exact ⟨String.toList_inj.mp hab, String.toList_inj.mp hxy⟩

/-- The texts before and after a separator, when the last holds none. -/
theorem separated_inj_last {c : Char} {a b x y : String} (hx : c ∉ x.toList) (hy : c ∉ y.toList)
    (h : a ++ String.singleton c ++ x = b ++ String.singleton c ++ y) : a = b ∧ x = y := by
  have hchars := congrArg String.toList h
  simp only [String.toList_append, String.toList_singleton, List.append_assoc,
    List.singleton_append] at hchars
  obtain ⟨hab, hxy⟩ := append_cons_inj_last hx hy hchars
  exact ⟨String.toList_inj.mp hab, String.toList_inj.mp hxy⟩

theorem repr_inj {m n : Nat} (h : m.repr = n.repr) : m = n := by
  have hdigits := congrArg String.toList h
  rw [Nat.toList_repr, Nat.toList_repr] at hdigits
  have hvalue := congrArg (fun l => Nat.ofDigitChars 10 l 0) hdigits
  simpa only [Nat.ofDigitChars_toDigits (b := 10) (by decide) (by decide)] using hvalue

/-- `%d` of two counts. -/
theorem toString_inj_of_nonneg {i j : Int} (hi : 0 ≤ i) (hj : 0 ≤ j)
    (h : toString i = toString j) : i = j := by
  obtain ⟨m, rfl⟩ := Int.eq_ofNat_of_zero_le hi
  obtain ⟨n, rfl⟩ := Int.eq_ofNat_of_zero_le hj
  exact congrArg _ (repr_inj h)

/-- `%d` of a count holds digits only. -/
theorem not_mem_toString_of_nonneg {c : Char} {i : Int} (hi : 0 ≤ i) (hc : c.isDigit = false) :
    c ∉ (toString i).toList := by
  obtain ⟨n, rfl⟩ := Int.eq_ofNat_of_zero_le hi
  intro hmem
  have hdigit : c.isDigit = true := by
    refine Nat.isDigit_of_mem_toDigits (b := 10) (n := n) (by decide) (by decide) ?_
    rw [← Nat.toList_repr]
    exact hmem
  rw [hc] at hdigit
  cases hdigit

end DurableEngine.Lib
