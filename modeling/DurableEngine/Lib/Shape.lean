/-
  DurableEngine.Lib.Shape

  The shape of a document: whether the names of each object differ, and how
  deep its arrays and objects are nested.  Writing a document and reading it
  back leaves names that differ and nests no deeper.
-/

import DurableEngine.Lib.RoundTrip

namespace DurableEngine.Lib

namespace JsonTree

mutual

/-- No object, at any depth, has two members of one name. -/
def uniqueNames : Json → Bool
  | .null | .bool _ | .num _ | .str _ => true
  | .arr xs => uniqueNamesList xs
  | .obj ms => decide (ms.map Prod.fst).Nodup && uniqueNamesMembers ms

def uniqueNamesList : List Json → Bool
  | [] => true
  | x :: xs => uniqueNames x && uniqueNamesList xs

def uniqueNamesMembers : List (String × Json) → Bool
  | [] => true
  | (_, x) :: ms => uniqueNames x && uniqueNamesMembers ms

end

theorem uniqueNamesMembers_iff {ms : List (String × Json)} :
    uniqueNamesMembers ms = true ↔ ∀ m ∈ ms, uniqueNames m.2 = true := by
  induction ms with
  | nil => simp [uniqueNamesMembers]
  | cons m ms ih =>
      obtain ⟨k, x⟩ := m
      simp only [uniqueNamesMembers, Bool.and_eq_true, ih, List.forall_mem_cons]

/-- The members that are written have different names. -/
theorem nodup_writtenMembers (ms : List (String × Json)) : ((writtenMembers ms).map Prod.fst).Nodup := by
  have hperm : (writtenMembers ms).Perm (dedupLast ms) := List.perm_insertionSort nameLe _
  exact (hperm.map Prod.fst).nodup_iff.mpr (nodup_dedupLast ms)

theorem mem_of_writtenMembers {ms : List (String × Json)} {m : String × Json} (h : m ∈ writtenMembers ms) :
    m ∈ ms :=
  mem_dedupLast ((List.mem_insertionSort nameLe).mp h)

mutual

/-- What is written and read back has different names. -/
theorem uniqueNames_ordered : ∀ v : Json, uniqueNames (ordered v) = true
  | .null => rfl
  | .bool _ => rfl
  | .num _ => rfl
  | .str _ => rfl
  | .arr xs => by rw [ordered, uniqueNames, uniqueNames_orderedList xs]
  | .obj ms => by
      rw [ordered_obj, uniqueNames, Bool.and_eq_true, decide_eq_true_iff, uniqueNamesMembers_iff]
      refine ⟨?_, ?_⟩
      · rw [map_fst_map]
        exact nodup_writtenMembers ms
      · intro m hm
        obtain ⟨m', hm', rfl⟩ := List.mem_map.mp hm
        exact uniqueNames_orderedMembers ms m' (mem_of_writtenMembers hm')

theorem uniqueNames_orderedList : ∀ xs : List Json, uniqueNamesList (orderedList xs) = true
  | [] => rfl
  | x :: xs => by
      rw [orderedList, uniqueNamesList, uniqueNames_ordered x, uniqueNames_orderedList xs]
      rfl

theorem uniqueNames_orderedMembers : ∀ ms : List (String × Json), ∀ m ∈ ms,
    uniqueNames (ordered m.2) = true
  | [], _, hm => nomatch hm
  | (k, x) :: ms, m, hm => by
      obtain heq | hm := List.mem_cons.mp hm
      · rw [heq]
        exact uniqueNames_ordered x
      · exact uniqueNames_orderedMembers ms m hm

end

mutual

/-- What is written and read back is nested no deeper. -/
theorem depth_ordered : ∀ v : Json, depth (ordered v) ≤ depth v
  | .null => Nat.le_refl _
  | .bool _ => Nat.le_refl _
  | .num _ => Nat.le_refl _
  | .str _ => Nat.le_refl _
  | .arr xs => by
      rw [ordered, depth, depth]
      exact Nat.succ_le_succ (depth_orderedList xs)
  | .obj ms => by
      rw [ordered_obj, depth, depth]
      refine Nat.succ_le_succ (depthMembers_le_iff.mpr ?_)
      intro m hm
      obtain ⟨m', hm', rfl⟩ := List.mem_map.mp hm
      have hmem := mem_of_writtenMembers hm'
      exact Nat.le_trans (depth_orderedMembers ms m' hmem) (depthMembers_le_iff.mp (Nat.le_refl _) m' hmem)

theorem depth_orderedList : ∀ xs : List Json, depthList (orderedList xs) ≤ depthList xs
  | [] => Nat.le_refl _
  | x :: xs => by
      have hhead := depth_ordered x
      have htail := depth_orderedList xs
      rw [orderedList, depthList, depthList]
      omega

theorem depth_orderedMembers : ∀ ms : List (String × Json), ∀ m ∈ ms, depth (ordered m.2) ≤ depth m.2
  | [], _, hm => nomatch hm
  | (k, x) :: ms, m, hm => by
      obtain heq | hm := List.mem_cons.mp hm
      · rw [heq]
        exact depth_ordered x
      · exact depth_orderedMembers ms m hm

end

end JsonTree

end DurableEngine.Lib
