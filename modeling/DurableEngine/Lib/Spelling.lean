/-
  DurableEngine.Lib.Spelling

  Marshalling as a normal form: two values have one text exactly when they
  are the same document up to the order of members and overwritten bindings,
  number literals included (`marshalTree_eq_iff`).
-/

import DurableEngine.Lib.JsonValue
import DurableEngine.Lib.RoundTrip
import Mathlib

namespace DurableEngine.Lib

open JsonTree

-- ============================================================================
-- Members as they are written
-- ============================================================================

section Members

variable {α : Type}

/-- The written members are given by the bindings. -/
theorem written_eq_iff {ms ns : List (String × α)} :
    (dedupLast ms).insertionSort nameLe = (dedupLast ns).insertionSort nameLe ↔
      ∀ k, lastBinding ms k = lastBinding ns k :=
  sorted_eq_iff (fun _ _ hle hge => le_antisymm hle hge)

/-- Sorting members without repetitions keeps the bindings. -/
theorem lastBinding_sorted (le : String × α → String × α → Prop) [DecidableRel le]
    (ms : List (String × α)) (k : String) :
    lastBinding ((dedupLast ms).insertionSort le) k = lastBinding ms k := by
  have hperm : ((dedupLast ms).insertionSort le).Perm (dedupLast ms) := List.perm_insertionSort _ _
  have hnodup : (((dedupLast ms).insertionSort le).map Prod.fst).Nodup :=
    (hperm.map Prod.fst).nodup_iff.mpr (nodup_dedupLast ms)
  refine Option.ext (fun v => ?_)
  rw [lastBinding_eq_some_iff, lastBinding_eq_some_iff, dedupLast_of_nodup hnodup, hperm.mem_iff]

end Members

/-- Members with equal texts are joined alike. -/
theorem joinMembers_map {f : Json → Json} {ms : List (String × Json)}
    (h : ∀ m ∈ ms, marshalTree (f m.2) = marshalTree m.2) :
    joinMembers (ms.map (Prod.map id f)) = joinMembers ms := by
  have htext : ∀ m ∈ ms, (memberText (Prod.map id f m)).2 = (memberText m).2 := by
    intro m hm
    simp only [memberText, Prod.map_fst, Prod.map_snd, id_eq, h m hm]
  induction ms with
  | nil => rfl
  | cons m ms ih =>
      have hrest := ih (fun m hm => h m (List.mem_cons_of_mem _ hm))
        (fun m hm => htext m (List.mem_cons_of_mem _ hm))
      cases ms with
      | nil => exact congrArg (· ++ ['\x7d']) (htext m List.mem_cons_self)
      | cons m' ms =>
          rw [List.map_cons] at hrest
          have hcons : ∀ a b cs, joinMembers (a :: b :: cs) =
              (memberText a).2 ++ ',' :: joinMembers (b :: cs) := fun _ _ _ => rfl
          rw [List.map_cons, List.map_cons, hcons, hcons, hrest, htext m List.mem_cons_self]

-- ============================================================================
-- One text for one value
-- ============================================================================

mutual

/-- The canonical form of a value has the text of the value. -/
theorem marshalTree_canon : ∀ v : Json, marshalTree (canon id v) = marshalTree v
  | .null => rfl
  | .bool _ => rfl
  | .num _ => rfl
  | .str _ => rfl
  | .arr xs => by simp only [canon, marshalTree, marshalList_canon xs]
  | .obj ms => by
      have hwritten : writtenMembers (normalize (canonMembers id ms)) =
          (writtenMembers ms).map (Prod.map id (canon id)) := by
        rw [canonMembers_eq_map]
        have hsame : writtenMembers (normalize (ms.map (Prod.map id (canon id)))) =
            writtenMembers (ms.map (Prod.map id (canon id))) :=
          written_eq_iff.mpr (fun k => lastBinding_sorted memberLe _ k)
        rw [hsame]
        exact sorted_map (fun _ x => canon id x) ms
      rw [canon, marshalTree_obj, marshalTree_obj, hwritten, joinMembers_map]
      exact fun m hm => marshalMembers_canon ms m (mem_dedupLast ((List.mem_insertionSort nameLe).mp hm))

theorem marshalList_canon : ∀ xs : List Json, marshalList (canonList id xs) = marshalList xs
  | [] => rfl
  | [x] => by simp only [canonList, marshalList, marshalTree_canon x]
  | x :: y :: xs => by
      have hrest := marshalList_canon (y :: xs)
      simp only [canonList] at hrest ⊢
      simp only [marshalList, marshalTree_canon x, hrest]

theorem marshalMembers_canon : ∀ ms : List (String × Json), ∀ m ∈ ms,
    marshalTree (canon id m.2) = marshalTree m.2
  | [], _, hm => nomatch hm
  | (k, x) :: ms, m, hm => by
      obtain heq | hm := List.mem_cons.mp hm
      · rw [heq]
        exact marshalTree_canon x
      · exact marshalMembers_canon ms m hm

end

mutual

/-- Ordering the members keeps the meaning. -/
theorem denote_ordered : ∀ v : Json, denote id (ordered v) = denote id v
  | .null => rfl
  | .bool _ => rfl
  | .num _ => rfl
  | .str _ => rfl
  | .arr xs => by simp only [ordered, denote, denoteList_ordered xs]
  | .obj ms => by
      rw [ordered_obj, denote_obj_eq_iff]
      intro k
      have hwritten : (writtenMembers ms).map (Prod.map id ordered) =
          (dedupLast (ms.map (Prod.map id ordered))).insertionSort nameLe :=
        (sorted_map (fun _ x => ordered x) ms).symm
      rw [hwritten, lastBinding_sorted, lastBinding_map, Option.map_map]
      cases hk : lastBinding ms k with
      | none => rfl
      | some x => exact congrArg some (denoteMembers_ordered ms (k, x) (mem_of_lastBinding hk))

theorem denoteList_ordered : ∀ xs : List Json, denoteList id (orderedList xs) = denoteList id xs
  | [] => rfl
  | x :: xs => by simp only [orderedList, denoteList, denote_ordered x, denoteList_ordered xs]

theorem denoteMembers_ordered : ∀ ms : List (String × Json), ∀ m ∈ ms,
    denote id (ordered m.2) = denote id m.2
  | [], _, hm => nomatch hm
  | (k, x) :: ms, m, hm => by
      obtain heq | hm := List.mem_cons.mp hm
      · rw [heq]
        exact denote_ordered x
      · exact denoteMembers_ordered ms m hm

end

/-- A text is written for one document, up to the order of members and overwritten bindings. -/
theorem marshalTree_eq_iff {v w : Json} : marshalTree v = marshalTree w ↔ denote id v = denote id w := by
  constructor
  · intro h
    have hordered : ordered v = ordered w := by
      have hread := readDocument_marshal v
      rw [h, readDocument_marshal] at hread
      exact (Option.some.inj hread).symm
    rw [← denote_ordered v, hordered, denote_ordered]
  · intro h
    rw [denote_eq_iff] at h
    rw [← marshalTree_canon v, h, marshalTree_canon]

/-- Reading the text and writing it again changes nothing. -/
theorem marshalTree_ordered (v : Json) : marshalTree (ordered v) = marshalTree v :=
  marshalTree_eq_iff.mpr (denote_ordered v)

theorem marshal_eq_iff {v w : Json} : marshal v = marshal w ↔ denote id v = denote id w := by
  rw [marshal, marshal, String.ofList_inj, marshalTree_eq_iff]

-- ============================================================================
-- Texts a column gives back
-- ============================================================================

/-- The literal is spelled as a `numeric` prints: no exponent, no negative zero. -/
def JsonNumber.printed (n : JsonNumber) : Bool := n.exponent.isNone && !(n.neg && decide (n.coeff = 0))

theorem JsonNumber.toNumeric_eq_self_iff {n : JsonNumber} : n.toNumeric = n ↔ n.printed = true := by
  obtain ⟨neg, coeff, scale, exponent⟩ := n
  constructor
  · intro h
    have hexponent : exponent = none := by
      have := congrArg JsonNumber.exponent h
      unfold toNumeric at this
      split at this <;> exact this.symm
    have hneg : (neg && decide (coeff ≠ 0)) = neg := by
      have := congrArg JsonNumber.neg h
      unfold toNumeric at this
      split at this <;> exact this
    subst hexponent
    cases neg
    · rfl
    · simpa [printed] using hneg
  · intro h
    simp only [printed, Bool.and_eq_true, Option.isNone_iff_eq_none] at h
    obtain ⟨rfl, hneg⟩ := h
    have hsign : (neg && decide (coeff ≠ 0)) = neg := by
      cases neg
      · rfl
      · simpa using hneg
    unfold toNumeric
    split
    · rename_i hscale
      obtain rfl : scale = 0 := by simpa using hscale
      simpa using hsign
    · simpa using hsign

namespace JsonTree

variable {ν μ : Type}

/-- Readings of two objects agree when they do on what each name is bound to. -/
theorem canon_obj_eq_canon_iff {f g : ν → μ} {ms ns : List (String × JsonTree ν)} :
    canon f (.obj ms) = canon g (.obj ns) ↔
      ∀ k, (lastBinding ms k).map (canon f) = (lastBinding ns k).map (canon g) := by
  simp only [canon, canonMembers_eq_map, JsonTree.obj.injEq, normalize_eq_iff, lastBinding_map]

theorem allMembers_normalize_iff {p : ν → Bool} {ms : List (String × JsonTree ν)} :
    allMembers p (fun _ => true) (normalize ms) = true ↔
      ∀ k x, lastBinding ms k = some x → all p (fun _ => true) x = true := by
  rw [allMembers_iff]
  constructor
  · intro h k x hx
    exact (h (k, x) ((List.mem_insertionSort memberLe).mpr (lastBinding_eq_some_iff.mp hx))).2
  · rintro h ⟨k, x⟩ hm
    exact ⟨rfl, h k x (lastBinding_eq_some_iff.mpr ((List.mem_insertionSort memberLe).mp hm))⟩

mutual

/-- A reading of the numbers changes nothing exactly when it fixes those that are not overwritten. -/
theorem canon_eq_canon_id_iff {f : ν → ν} {p : ν → Bool} (h : ∀ n, f n = n ↔ p n = true) :
    ∀ x : JsonTree ν, canon f x = canon id x ↔ all p (fun _ => true) (canon id x) = true
  | .null => by simp [canon, all]
  | .bool _ => by simp [canon, all]
  | .num n => by simp [canon, all, h]
  | .str _ => by simp [canon, all]
  | .arr xs => by
      rw [canon, canon, all, JsonTree.arr.injEq]
      exact canonList_eq_canonList_id_iff h xs
  | .obj ms => by
      rw [canon_obj_eq_canon_iff]
      simp only [canon, all, canonMembers_eq_map, allMembers_normalize_iff, lastBinding_map]
      refine forall_congr' (fun k => ?_)
      cases hk : lastBinding ms k with
      | none => simp
      | some x =>
          have hx := canonMembers_eq_canonMembers_id_iff h ms (k, x) (mem_of_lastBinding hk)
          simpa using hx

theorem canonList_eq_canonList_id_iff {f : ν → ν} {p : ν → Bool} (h : ∀ n, f n = n ↔ p n = true) :
    ∀ xs : List (JsonTree ν),
      canonList f xs = canonList id xs ↔ allList p (fun _ => true) (canonList id xs) = true
  | [] => by simp [canonList, allList]
  | x :: xs => by
      rw [canonList, canonList, allList, Bool.and_eq_true, List.cons.injEq, canon_eq_canon_id_iff h x,
        canonList_eq_canonList_id_iff h xs]

theorem canonMembers_eq_canonMembers_id_iff {f : ν → ν} {p : ν → Bool}
    (h : ∀ n, f n = n ↔ p n = true) : ∀ ms : List (String × JsonTree ν), ∀ m ∈ ms,
      (canon f m.2 = canon id m.2 ↔ all p (fun _ => true) (canon id m.2) = true)
  | [], _, hm => nomatch hm
  | (k, x) :: ms, m, hm => by
      obtain heq | hm := List.mem_cons.mp hm
      · rw [heq]
        exact canon_eq_canon_id_iff h x
      · exact canonMembers_eq_canonMembers_id_iff h ms m hm

end

end JsonTree

/-- Every number of the document that is not overwritten is spelled as a `numeric` prints. -/
def Json.printed (v : Json) : Bool := (canon id v).all JsonNumber.printed (fun _ => true)

/-- What a `jsonb` column gives back has the text of the document when its numbers do. -/
theorem marshal_jsonb_eq_iff {v : Json} : marshal v.jsonb = marshal v ↔ v.printed = true := by
  rw [marshal_eq_iff, denote_eq_iff, Json.jsonb, canon_canon, Function.id_comp, Json.printed]
  exact canon_eq_canon_id_iff (fun _ => JsonNumber.toNumeric_eq_self_iff) v

end DurableEngine.Lib
