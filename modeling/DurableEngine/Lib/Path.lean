/-
  DurableEngine.Lib.Path

  Texts joined with slashes.

  A number at the end of a path can be told from the rest.  Two names cannot,
  when they may hold slashes themselves: their path stays the same when a
  part that ends at a slash moves from one name to the other
  (`joinPath_eq_iff`).
-/

import DurableEngine.Lib.Text

namespace DurableEngine.Lib

/-- `%s/%s`. -/
def joinPath (a b : String) : String := a ++ "/" ++ b

theorem toList_joinPath (a b : String) : (joinPath a b).toList = a.toList ++ '/' :: b.toList := by
  simp [joinPath, String.toList_append]

theorem slash_mem_joinPath (a b : String) : '/' ∈ (joinPath a b).toList := by
  rw [toList_joinPath]
  exact List.mem_append_right _ List.mem_cons_self

-- ============================================================================
-- The last part
-- ============================================================================

/-- The part after the last separator and what stands before it are determined. -/
theorem append_cons_inj_right {α : Type} {c : α} {a b x y : List α} (hx : c ∉ x) (hy : c ∉ y)
    (h : a ++ c :: x = b ++ c :: y) : a = b ∧ x = y := by
  have hreverse := congrArg List.reverse h
  simp only [List.reverse_append, List.reverse_cons, List.append_assoc, List.singleton_append] at hreverse
  obtain ⟨hxy, hab⟩ := append_cons_inj (by rwa [List.mem_reverse]) (by rwa [List.mem_reverse]) hreverse
  exact ⟨List.reverse_inj.mp hab, List.reverse_inj.mp hxy⟩

theorem joinPath_inj_right {a b x y : String} (hx : '/' ∉ x.toList) (hy : '/' ∉ y.toList)
    (h : joinPath a x = joinPath b y) : a = b ∧ x = y := by
  have hchars := congrArg String.toList h
  rw [toList_joinPath, toList_joinPath] at hchars
  obtain ⟨hab, hxy⟩ := append_cons_inj_right hx hy hchars
  exact ⟨String.toList_inj.mp hab, String.toList_inj.mp hxy⟩

/-- A count is written without slashes. -/
theorem slash_not_mem_toString {i : Int} (hi : 0 ≤ i) : '/' ∉ (toString i).toList := by
  obtain ⟨n, rfl⟩ := Int.eq_ofNat_of_zero_le hi
  intro hmem
  have hdigit := Nat.isDigit_of_mem_toDigits (b := 10) (by decide) (by decide)
    (c := '/') (n := n) (by rw [← Nat.toList_repr]; exact hmem)
  cases hdigit

theorem joinPath_count_inj {a b : String} {i j : Int} (hi : 0 ≤ i) (hj : 0 ≤ j)
    (h : joinPath a (toString i) = joinPath b (toString j)) : a = b ∧ i = j := by
  obtain ⟨hab, hij⟩ := joinPath_inj_right (slash_not_mem_toString hi) (slash_not_mem_toString hj) h
  exact ⟨hab, toString_inj_of_nonneg hi hj hij⟩

-- ============================================================================
-- Two names
-- ============================================================================

/-- A part that ends at a slash has moved from the front of the second name to the end of the
    first. -/
def Shifted (p q : String × String) : Prop := ∃ t, q.1 = joinPath p.1 t ∧ p.2 = joinPath t q.2

/-- The names have one path. -/
def SamePath (p q : String × String) : Prop := p = q ∨ Shifted p q ∨ Shifted q p

/-- Where two texts can be cut at the same separator. -/
theorem append_cons_eq_iff {α : Type} {c : α} {a b x y : List α} :
    a ++ c :: x = b ++ c :: y ↔ (a = b ∧ x = y) ∨ (∃ t, b = a ++ c :: t ∧ x = t ++ c :: y) ∨
      ∃ t, a = b ++ c :: t ∧ y = t ++ c :: x := by
  have hcut : ∀ {t x y : List α}, c :: x = t ++ c :: y ↔
      (t = [] ∧ x = y) ∨ ∃ s, t = c :: s ∧ x = s ++ c :: y := by
    intro t x y
    cases t with
    | nil => simp
    | cons d s => simp [eq_comm]
  rw [List.append_eq_append_iff]
  constructor
  · rintro (⟨t, rfl, hx⟩ | ⟨t, rfl, hy⟩)
    · obtain ⟨rfl, rfl⟩ | ⟨s, rfl, rfl⟩ := hcut.mp hx
      · exact .inl ⟨(List.append_nil a).symm, rfl⟩
      · exact .inr (.inl ⟨s, rfl, rfl⟩)
    · obtain ⟨rfl, rfl⟩ | ⟨s, rfl, rfl⟩ := hcut.mp hy
      · exact .inl ⟨List.append_nil b, rfl⟩
      · exact .inr (.inr ⟨s, rfl, rfl⟩)
  · rintro (⟨rfl, rfl⟩ | ⟨t, rfl, rfl⟩ | ⟨t, rfl, rfl⟩)
    · exact .inl ⟨[], by simp⟩
    · exact .inl ⟨c :: t, rfl, rfl⟩
    · exact .inr ⟨c :: t, rfl, rfl⟩

theorem joinPath_eq_iff {p q : String × String} : joinPath p.1 p.2 = joinPath q.1 q.2 ↔ SamePath p q := by
  have hjoin : ∀ {l : List Char} {a b : String}, l = a.toList ++ '/' :: b.toList ↔
      String.ofList l = joinPath a b := by
    intro l a b
    rw [← toList_joinPath, ← String.toList_inj, String.toList_ofList]
  have hshift : ∀ {a b x y : String},
      (∃ t, b.toList = a.toList ++ '/' :: t ∧ x.toList = t ++ '/' :: y.toList) ↔
        ∃ t, b = joinPath a t ∧ x = joinPath t y := by
    intro a b x y
    constructor
    · rintro ⟨t, hb, hx⟩
      rw [show t = (String.ofList t).toList from String.toList_ofList.symm, hjoin, String.ofList_toList] at hb hx
      exact ⟨String.ofList t, hb, hx⟩
    · rintro ⟨t, rfl, rfl⟩
      exact ⟨t.toList, toList_joinPath a t, toList_joinPath t y⟩
  rw [← String.toList_inj, toList_joinPath, toList_joinPath, append_cons_eq_iff, hshift, hshift,
    String.toList_inj, String.toList_inj, SamePath, Shifted, Shifted, Prod.ext_iff]

/-- Names without slashes are given by their path. -/
theorem SamePath.eq_of_plain {p q : String × String} (h : SamePath p q) (hp : '/' ∉ p.2.toList)
    (hq : '/' ∉ q.2.toList) : p = q := by
  rcases h with h | ⟨t, -, h⟩ | ⟨t, -, h⟩
  · exact h
  · rw [h] at hp
    exact absurd (slash_mem_joinPath _ _) hp
  · rw [h] at hq
    exact absurd (slash_mem_joinPath _ _) hq

end DurableEngine.Lib
