/-
  DurableEngine.Lib.JsonValue

  What a JSON document means.

  A value forgets how a document is written: an object is a function from
  names to values, so the order of its members is gone, and so is every
  binding of a name but the last.  What a number means is a parameter.

  `canon` computes a representative: two documents have the same canonical
  form exactly when they mean the same (`denote_eq_iff`).
-/

import DurableEngine.Lib.Json

namespace DurableEngine.Lib

/-- A JSON value with strings of type `σ` and numbers of type `μ`. -/
inductive JsonValue (σ μ : Type) where
  | null
  | bool (b : Bool)
  | num (n : μ)
  | str (s : σ)
  | arr (xs : List (JsonValue σ μ))
  | obj (ms : σ → Option (JsonValue σ μ))

-- ============================================================================
-- Bindings
-- ============================================================================

section Bindings

variable {α β : Type}

/-- The last value bound to a name. -/
def lastBinding {σ : Type} [DecidableEq σ] : List (σ × α) → σ → Option α
  | [], _ => none
  | (l, v) :: ms, k => (lastBinding ms k).or (if l = k then some v else none)

theorem lastBinding_map (f : α → β) (ms : List (String × α)) (k : String) :
    lastBinding (ms.map (Prod.map id f)) k = (lastBinding ms k).map f := by
  induction ms with
  | nil => rfl
  | cons m ms ih =>
      obtain ⟨l, v⟩ := m
      simp only [List.map_cons, Prod.map_apply, id_eq, lastBinding, ih, Option.map_or]
      split <;> rfl

theorem lastBinding_eq_none_iff {ms : List (String × α)} {k : String} :
    lastBinding ms k = none ↔ k ∉ ms.map Prod.fst := by
  induction ms with
  | nil => simp [lastBinding]
  | cons m ms ih =>
      obtain ⟨l, v⟩ := m
      simp only [lastBinding, Option.or_eq_none_iff, ih, List.map_cons, List.mem_cons, not_or,
        ite_eq_right_iff, reduceCtorEq, imp_false]
      rw [and_comm, eq_comm]

theorem lastBinding_eq_some_iff {ms : List (String × α)} {k : String} {v : α} :
    lastBinding ms k = some v ↔ (k, v) ∈ dedupLast ms := by
  induction ms with
  | nil => simp [lastBinding, dedupLast]
  | cons m ms ih =>
      obtain ⟨l, x⟩ := m
      simp only [lastBinding, dedupLast]
      by_cases hbound : k ∈ ms.map Prod.fst
      · obtain ⟨y, hy⟩ := Option.ne_none_iff_exists'.mp (fun hnone =>
          lastBinding_eq_none_iff.mp hnone hbound)
        rw [hy, Option.some_or, ← hy, ih]
        split
        · rfl
        · rename_i hl
          rw [List.mem_cons, or_iff_right]
          rintro heq
          cases heq
          exact hl hbound
      · have hnone : lastBinding ms k = none := lastBinding_eq_none_iff.mpr hbound
        have hout : (k, v) ∉ dedupLast ms := fun hmem =>
          hbound (List.mem_map_of_mem (mem_dedupLast hmem))
        rw [hnone, Option.none_or]
        split
        · rename_i hl
          subst hl
          rw [if_neg hbound]
          simp only [Option.some.injEq, List.mem_cons, Prod.mk.injEq, true_and, hout, or_false]
          exact eq_comm
        · rename_i hl
          have hother : (k, v) ≠ (l, x) := fun heq => hl (congrArg Prod.fst heq).symm
          split <;> simp [hout, hother]

theorem mem_of_lastBinding {ms : List (String × α)} {k : String} {v : α}
    (h : lastBinding ms k = some v) : (k, v) ∈ ms :=
  mem_dedupLast (lastBinding_eq_some_iff.mp h)

theorem keyRank_injective : Function.Injective keyRank := by
  intro k l h
  have hchars := congrArg Prod.snd (toLex.injective h)
  exact String.toList_injective (List.map_injective_iff.mpr (fun _ _ => Char.toNat_inj.mp) hchars)

/-- Members without repetitions, sorted by their names, are given by the bindings. -/
theorem sorted_eq_iff {le : String × α → String × α → Prop} [DecidableRel le] [Std.Total le]
    [IsTrans (String × α) le] (hnames : ∀ a b, le a b → le b a → a.1 = b.1) {ms ns : List (String × α)} :
    (dedupLast ms).insertionSort le = (dedupLast ns).insertionSort le ↔
      ∀ k, lastBinding ms k = lastBinding ns k := by
  have hperm : ∀ ms : List (String × α), ((dedupLast ms).insertionSort le).Perm (dedupLast ms) :=
    fun ms => List.perm_insertionSort _ _
  constructor
  · intro h k
    refine Option.ext (fun v => ?_)
    rw [lastBinding_eq_some_iff, lastBinding_eq_some_iff, ← (hperm ms).mem_iff, h, (hperm ns).mem_iff]
  · intro h
    have hsame : (dedupLast ms).Perm (dedupLast ns) := by
      refine (List.perm_ext_iff_of_nodup (nodup_dedupLast ms).of_map (nodup_dedupLast ns).of_map).mpr ?_
      rintro ⟨k, v⟩
      rw [← lastBinding_eq_some_iff, ← lastBinding_eq_some_iff, h]
    refine List.Perm.eq_of_pairwise ?_ (List.pairwise_insertionSort le _)
      (List.pairwise_insertionSort le _) ((hperm ms).trans (hsame.trans (hperm ns).symm))
    rintro ⟨k, v⟩ ⟨l, w⟩ hm hn hle hge
    obtain rfl : k = l := hnames _ _ hle hge
    have hv := lastBinding_eq_some_iff.mpr ((hperm ms).mem_iff.mp hm)
    have hw := lastBinding_eq_some_iff.mpr ((hperm ns).mem_iff.mp hn)
    rw [h, hw] at hv
    rw [Option.some.inj hv]

/-- A list of members in normal form is given by its bindings. -/
theorem normalize_eq_iff {ms ns : List (String × α)} :
    normalize ms = normalize ns ↔ ∀ k, lastBinding ms k = lastBinding ns k :=
  sorted_eq_iff (fun _ _ hle hge => keyRank_injective (le_antisymm hle hge))

end Bindings

-- ============================================================================
-- Meaning
-- ============================================================================

namespace JsonTree

variable {ν μ : Type}

mutual

/-- The value a document means when `f` says what its numbers mean. -/
def denote (f : ν → μ) : JsonTree ν → JsonValue String μ
  | .null => .null
  | .bool b => .bool b
  | .num n => .num (f n)
  | .str s => .str s
  | .arr xs => .arr (denoteList f xs)
  | .obj ms => .obj (lastBinding (denoteMembers f ms))

def denoteList (f : ν → μ) : List (JsonTree ν) → List (JsonValue String μ)
  | [] => []
  | x :: xs => denote f x :: denoteList f xs

def denoteMembers (f : ν → μ) : List (String × JsonTree ν) → List (String × JsonValue String μ)
  | [] => []
  | (k, x) :: ms => (k, denote f x) :: denoteMembers f ms

end

theorem denoteMembers_eq_map (f : ν → μ) (ms : List (String × JsonTree ν)) :
    denoteMembers f ms = ms.map (Prod.map id (denote f)) := by
  induction ms with
  | nil => rfl
  | cons m ms ih =>
      obtain ⟨k, x⟩ := m
      rw [denoteMembers, ih, List.map_cons]
      rfl

theorem denote_obj_eq_iff {f : ν → μ} {ms ns : List (String × JsonTree ν)} :
    denote f (.obj ms) = denote f (.obj ns) ↔
      ∀ k, (lastBinding ms k).map (denote f) = (lastBinding ns k).map (denote f) := by
  simp only [denote, denoteMembers_eq_map, JsonValue.obj.injEq, funext_iff, lastBinding_map]

theorem canon_obj_eq_iff {f : ν → μ} {ms ns : List (String × JsonTree ν)} :
    canon f (.obj ms) = canon f (.obj ns) ↔
      ∀ k, (lastBinding ms k).map (canon f) = (lastBinding ns k).map (canon f) := by
  simp only [canon, canonMembers_eq_map, JsonTree.obj.injEq, normalize_eq_iff, lastBinding_map]

/-- Two partial values agree under one reading when they do under another. -/
theorem map_eq_map_of {α β γ : Type} {f : α → β} {g : α → γ} {a b : Option α}
    (h : ∀ x ∈ a, ∀ y, f x = f y → g x = g y) (heq : a.map f = b.map f) : a.map g = b.map g := by
  cases a with
  | none =>
      rw [Option.map_none, eq_comm, Option.map_eq_none_iff] at heq
      rw [heq]
  | some x =>
      rw [Option.map_some, eq_comm, Option.map_eq_some_iff] at heq
      obtain ⟨y, rfl, hy⟩ := heq
      rw [Option.map_some, Option.map_some, h x rfl y hy.symm]

mutual

/-- Documents that mean the same have one canonical form. -/
theorem canon_eq_of_denote (f : ν → μ) :
    ∀ x y : JsonTree ν, denote f x = denote f y → canon f x = canon f y
  | .null, y, h => by cases y <;> simp [denote, canon] at h ⊢
  | .bool b, y, h => by cases y <;> simp_all [denote, canon]
  | .num n, y, h => by cases y <;> simp_all [denote, canon]
  | .str s, y, h => by cases y <;> simp_all [denote, canon]
  | .arr xs, y, h => by
      cases y with
      | arr ys => exact congrArg JsonTree.arr (canonList_eq_of_denote f xs ys (JsonValue.arr.inj h))
      | null | bool | num | str | obj => simp [denote] at h
  | .obj ms, y, h => by
      cases y with
      | obj ns =>
          refine canon_obj_eq_iff.mpr (fun k => map_eq_map_of (fun x hx y => ?_) (denote_obj_eq_iff.mp h k))
          exact canonMembers_eq_of_denote f ms (k, x) (mem_of_lastBinding hx) y
      | null | bool | num | str | arr => simp [denote] at h

theorem canonList_eq_of_denote (f : ν → μ) :
    ∀ xs ys : List (JsonTree ν), denoteList f xs = denoteList f ys → canonList f xs = canonList f ys
  | [], [], _ => rfl
  | x :: xs, y :: ys, h => by
      simp only [denoteList, List.cons.injEq] at h
      rw [canonList, canonList, canon_eq_of_denote f x y h.1, canonList_eq_of_denote f xs ys h.2]
  | [], _ :: _, h => by simp [denoteList] at h
  | _ :: _, [], h => by simp [denoteList] at h

theorem canonMembers_eq_of_denote (f : ν → μ) :
    ∀ ms : List (String × JsonTree ν), ∀ m ∈ ms, ∀ y, denote f m.2 = denote f y →
      canon f m.2 = canon f y
  | [], _, hm => nomatch hm
  | (k, x) :: ms, m, hm => by
      obtain rfl | hm := List.mem_cons.mp hm
      · exact canon_eq_of_denote f x
      · exact canonMembers_eq_of_denote f ms m hm

end

mutual

/-- The canonical form has the meaning of the document. -/
theorem denote_eq_of_canon (f : ν → μ) :
    ∀ x y : JsonTree ν, canon f x = canon f y → denote f x = denote f y
  | .null, y, h => by cases y <;> simp [denote, canon] at h ⊢
  | .bool b, y, h => by cases y <;> simp_all [denote, canon]
  | .num n, y, h => by cases y <;> simp_all [denote, canon]
  | .str s, y, h => by cases y <;> simp_all [denote, canon]
  | .arr xs, y, h => by
      cases y with
      | arr ys => exact congrArg JsonValue.arr (denoteList_eq_of_canon f xs ys (JsonTree.arr.inj h))
      | null | bool | num | str | obj => simp [canon] at h
  | .obj ms, y, h => by
      cases y with
      | obj ns =>
          refine denote_obj_eq_iff.mpr (fun k => map_eq_map_of (fun x hx y => ?_) (canon_obj_eq_iff.mp h k))
          exact denoteMembers_eq_of_canon f ms (k, x) (mem_of_lastBinding hx) y
      | null | bool | num | str | arr => simp [canon] at h

theorem denoteList_eq_of_canon (f : ν → μ) :
    ∀ xs ys : List (JsonTree ν), canonList f xs = canonList f ys → denoteList f xs = denoteList f ys
  | [], [], _ => rfl
  | x :: xs, y :: ys, h => by
      simp only [canonList, List.cons.injEq] at h
      rw [denoteList, denoteList, denote_eq_of_canon f x y h.1, denoteList_eq_of_canon f xs ys h.2]
  | [], _ :: _, h => by simp [canonList] at h
  | _ :: _, [], h => by simp [canonList] at h

theorem denoteMembers_eq_of_canon (f : ν → μ) :
    ∀ ms : List (String × JsonTree ν), ∀ m ∈ ms, ∀ y, canon f m.2 = canon f y →
      denote f m.2 = denote f y
  | [], _, hm => nomatch hm
  | (k, x) :: ms, m, hm => by
      obtain rfl | hm := List.mem_cons.mp hm
      · exact denote_eq_of_canon f x
      · exact denoteMembers_eq_of_canon f ms m hm

end

theorem denote_eq_iff {f : ν → μ} {x y : JsonTree ν} : denote f x = denote f y ↔ canon f x = canon f y :=
  ⟨canon_eq_of_denote f x y, denote_eq_of_canon f x y⟩

/-- Equal meanings stay equal when numbers are read more coarsely. -/
theorem denote_comp_eq {ξ : Type} {f : ν → μ} (g : μ → ξ) {x y : JsonTree ν}
    (h : denote f x = denote f y) : denote (g ∘ f) x = denote (g ∘ f) y := by
  rw [denote_eq_iff] at h ⊢
  rw [← canon_canon, ← canon_canon, h]

end JsonTree

end DurableEngine.Lib
