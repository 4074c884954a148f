/-
  DurableEngine.Lib.Table

  Relational tables with a primary key, as lists of rows whose keys are
  pairwise distinct.

  A table can only be changed by statements that keep the key unique:
  `insert?` refuses a row whose key is taken, `update` rewrites rows without
  touching their key, `delete` drops rows.  Everything downstream reads a
  table through `get` (the partial function from keys to rows), and the
  `get_*` lemmas say how each statement changes that function.
-/

import Mathlib

namespace DurableEngine.Lib

/-- A relation whose rows have pairwise distinct primary keys. -/
structure Table {ρ κ : Type} (key : ρ → κ) where
  rows : List ρ
  nodup : (rows.map key).Nodup

namespace Table

variable {ρ κ : Type} {key : ρ → κ}

@[ext]
theorem ext {t u : Table key} (h : t.rows = u.rows) : t = u := by
  cases t
  cases u
  cases h
  rfl

instance [DecidableEq ρ] : DecidableEq (Table key) := fun t u =>
  decidable_of_iff (t.rows = u.rows) ⟨ext, fun h => h ▸ rfl⟩

/-- The table without rows. -/
def empty : Table key := ⟨[], List.nodup_nil⟩

/-- A table from a list of rows whose keys are distinct. -/
def ofRows (rows : List ρ) (h : (rows.map key).Nodup) : Table key := ⟨rows, h⟩

/-- `SELECT * WHERE p`. -/
def select (t : Table key) (p : ρ → Bool) : List ρ := t.rows.filter p

/-- `UPDATE ... SET f WHERE p`; `f` does not change the key. -/
def update (t : Table key) (p : ρ → Bool) (f : ρ → ρ) (hf : ∀ r, key (f r) = key r) :
    Table key where
  rows := t.rows.map (fun r => if p r then f r else r)
  nodup := by
    have hkeys : (t.rows.map (fun r => if p r then f r else r)).map key = t.rows.map key := by
      rw [List.map_map]
      apply List.map_congr_left
      intro r _
      by_cases hp : p r <;> simp [hp, hf]
    rw [hkeys]
    exact t.nodup

/-- `DELETE WHERE p`. -/
def delete (t : Table key) (p : ρ → Bool) : Table key where
  rows := t.rows.filter (fun r => !p r)
  nodup := t.nodup.sublist (List.filter_sublist.map key)

theorem mem_select {t : Table key} {p : ρ → Bool} {r : ρ} :
    r ∈ t.select p ↔ r ∈ t.rows ∧ p r = true := by
  simp [select]

section Lookup

variable [DecidableEq κ]

/-- The row stored under `k`. -/
def get (t : Table key) (k : κ) : Option ρ := t.rows.find? (fun r => decide (key r = k))

/-- `INSERT`, refused when the key is taken. -/
def insert? (t : Table key) (r : ρ) : Option (Table key) :=
  if h : key r ∈ t.rows.map key then none
  else some ⟨t.rows ++ [r], by
    rw [List.map_append, List.map_singleton]
    exact t.nodup.append (List.nodup_singleton _) (by simpa using h)⟩

/-- `UPDATE ... SET f WHERE key = k`. -/
def modify (t : Table key) (k : κ) (f : ρ → ρ) (hf : ∀ r, key (f r) = key r) : Table key :=
  t.update (fun r => decide (key r = k)) f hf

-- ============================================================================
-- Lookup and membership
-- ============================================================================

theorem get_of_mem {t : Table key} {r : ρ} (h : r ∈ t.rows) : t.get (key r) = some r := by
  obtain ⟨rows, hnd⟩ := t
  simp only [get] at h ⊢
  induction rows with
  | nil => exact absurd h (List.not_mem_nil)
  | cons x xs ih =>
      rw [List.map_cons, List.nodup_cons] at hnd
      rcases List.mem_cons.mp h with rfl | hx
      · simp
      · have hne : key x ≠ key r := fun he => hnd.1 (he ▸ List.mem_map_of_mem hx)
        simpa [hne] using ih hnd.2 hx

theorem get_eq_some_iff {t : Table key} {k : κ} {r : ρ} :
    t.get k = some r ↔ r ∈ t.rows ∧ key r = k := by
  constructor
  · intro h
    exact ⟨List.mem_of_find?_eq_some h, by simpa using List.find?_some h⟩
  · rintro ⟨hm, rfl⟩
    exact get_of_mem hm

theorem get_eq_none_iff {t : Table key} {k : κ} :
    t.get k = none ↔ ∀ r ∈ t.rows, key r ≠ k := by
  simp [get]

theorem mem_of_get {t : Table key} {k : κ} {r : ρ} (h : t.get k = some r) : r ∈ t.rows :=
  (get_eq_some_iff.mp h).1

theorem key_of_get {t : Table key} {k : κ} {r : ρ} (h : t.get k = some r) : key r = k :=
  (get_eq_some_iff.mp h).2

theorem mem_rows_iff {t : Table key} {r : ρ} : r ∈ t.rows ↔ t.get (key r) = some r :=
  ⟨get_of_mem, mem_of_get⟩

theorem mem_keys_iff {t : Table key} {k : κ} :
    k ∈ t.rows.map key ↔ ∃ r, t.get k = some r := by
  constructor
  · intro h
    obtain ⟨r, hr, rfl⟩ := List.mem_map.mp h
    exact ⟨r, get_of_mem hr⟩
  · rintro ⟨r, hr⟩
    exact List.mem_map.mpr ⟨r, mem_of_get hr, key_of_get hr⟩

@[simp] theorem get_empty (k : κ) : (empty : Table key).get k = none := rfl

/-- A selection by key finds one row. -/
theorem length_select_of_get {t : Table key} {k : κ} {r : ρ} {p : ρ → Bool} (hr : t.get k = some r)
    (hp : p r = true) (honly : ∀ x, p x = true → key x = k) : (t.select p).length = 1 := by
  have hall : ∀ x ∈ t.select p, x = r := by
    intro x hx
    obtain ⟨hmem, hpx⟩ := mem_select.mp hx
    have hget := get_of_mem hmem
    rw [honly x hpx, hr] at hget
    exact (Option.some.inj hget).symm
  have hnodup : (t.select p).Nodup := (List.Nodup.of_map key t.nodup).filter _
  have hpos := List.length_pos_of_mem (mem_select.mpr ⟨mem_of_get hr, hp⟩)
  rw [List.eq_replicate_of_mem hall, List.nodup_replicate] at hnodup
  omega

-- ============================================================================
-- What each statement does to lookup
-- ============================================================================

theorem get_update (t : Table key) (p : ρ → Bool) (f : ρ → ρ)
    (hf : ∀ r, key (f r) = key r) (k : κ) :
    (t.update p f hf).get k = (t.get k).map (fun r => if p r then f r else r) := by
  cases hk : t.get k with
  | none =>
      rw [Option.map_none, get_eq_none_iff]
      intro r hr
      obtain ⟨r₀, hr₀, rfl⟩ := List.mem_map.mp hr
      have hne := get_eq_none_iff.mp hk r₀ hr₀
      by_cases hp : p r₀ <;> simpa [hp, hf] using hne
  | some r =>
      rw [Option.map_some, get_eq_some_iff]
      refine ⟨List.mem_map.mpr ⟨r, mem_of_get hk, rfl⟩, ?_⟩
      have hkey := key_of_get hk
      by_cases hp : p r <;> simpa [hp, hf] using hkey

theorem get_modify_self (t : Table key) (k : κ) (f : ρ → ρ) (hf : ∀ r, key (f r) = key r) :
    (t.modify k f hf).get k = (t.get k).map f := by
  rw [modify, get_update]
  cases hk : t.get k with
  | none => rfl
  | some r => simp [key_of_get hk]

theorem get_modify_ne (t : Table key) {k k' : κ} (f : ρ → ρ) (hf : ∀ r, key (f r) = key r)
    (h : k' ≠ k) : (t.modify k f hf).get k' = t.get k' := by
  rw [modify, get_update]
  cases hk : t.get k' with
  | none => rfl
  | some r =>
      have hne : key r ≠ k := by rw [key_of_get hk]; exact h
      simp [hne]

theorem get_modify (t : Table key) (k k' : κ) (f : ρ → ρ) (hf : ∀ r, key (f r) = key r) :
    (t.modify k f hf).get k' = if k' = k then (t.get k').map f else t.get k' := by
  by_cases h : k' = k
  · rw [if_pos h, h, get_modify_self]
  · rw [if_neg h, get_modify_ne t f hf h]

/-- The row that was there is rewritten. -/
theorem get_modify_of_get {t : Table key} {k : κ} {r : ρ} (h : t.get k = some r) (f : ρ → ρ)
    (hf : ∀ r, key (f r) = key r) (k' : κ) :
    (t.modify k f hf).get k' = if k' = k then some (f r) else t.get k' := by
  rw [get_modify]
  split
  · rename_i hk
    rw [hk, h, Option.map_some]
  · rfl

theorem insert?_eq_some_iff {t t' : Table key} {r : ρ} :
    t.insert? r = some t' ↔ t.get (key r) = none ∧ t'.rows = t.rows ++ [r] := by
  unfold insert?
  by_cases h : key r ∈ t.rows.map key
  · obtain ⟨r', hr'⟩ := mem_keys_iff.mp h
    simp [h, hr']
  · have hnone : t.get (key r) = none := by
      cases hg : t.get (key r) with
      | none => rfl
      | some r' => exact absurd (mem_keys_iff.mpr ⟨r', hg⟩) h
    rw [dif_neg h, Option.some.injEq]
    constructor
    · rintro rfl
      exact ⟨hnone, rfl⟩
    · rintro ⟨-, hrows⟩
      exact ext hrows.symm

theorem insert?_of_get_none {t : Table key} {r : ρ} (h : t.get (key r) = none) :
    ∃ t', t.insert? r = some t' := by
  cases hi : t.insert? r with
  | some t' => exact ⟨t', rfl⟩
  | none =>
      unfold insert? at hi
      split at hi
      · rename_i hmem
        obtain ⟨r', hr'⟩ := mem_keys_iff.mp hmem
        rw [h] at hr'
        cases hr'
      · cases hi

theorem get_of_insert?_none {t : Table key} {r : ρ} (h : t.insert? r = none) :
    ∃ r', t.get (key r) = some r' := by
  cases hget : t.get (key r) with
  | some r' => exact ⟨r', rfl⟩
  | none =>
      obtain ⟨t', ht'⟩ := insert?_of_get_none hget
      rw [h] at ht'
      cases ht'

theorem get_insert {t t' : Table key} {r : ρ} (h : t.insert? r = some t') (k : κ) :
    t'.get k = if k = key r then some r else t.get k := by
  obtain ⟨hnone, hrows⟩ := insert?_eq_some_iff.mp h
  by_cases hk : k = key r
  · rw [if_pos hk, hk]
    exact get_of_mem (by rw [hrows]; simp)
  · have hne : key r ≠ k := fun he => hk he.symm
    rw [if_neg hk]
    unfold get
    rw [hrows, List.find?_append]
    simp [hne]

theorem get_insert_self {t t' : Table key} {r : ρ} (h : t.insert? r = some t') :
    t'.get (key r) = some r := by
  rw [get_insert h, if_pos rfl]

theorem get_insert_ne {t t' : Table key} {r : ρ} (h : t.insert? r = some t') {k : κ}
    (hk : k ≠ key r) : t'.get k = t.get k := by
  rw [get_insert h, if_neg hk]

/-- An insertion keeps the rows that are there. -/
theorem get_insert_of_get {t t' : Table key} {r : ρ} (h : t.insert? r = some t') {k : κ} {x : ρ}
    (hx : t.get k = some x) : t'.get k = some x := by
  rw [get_insert_ne h]
  · exact hx
  · rintro rfl
    rw [(insert?_eq_some_iff.mp h).1] at hx
    cases hx

/-- Write a row, over the one that has its key. -/
def put (t : Table key) (r : ρ) : Table key :=
  (t.insert? r).getD (t.modify (key r) (fun r' => if key r' = key r then r else r') (fun r' => by
    split
    · rename_i h
      exact h.symm
    · rfl))

theorem get_put (t : Table key) (r : ρ) (k : κ) :
    (t.put r).get k = if k = key r then some r else t.get k := by
  unfold put
  cases hins : t.insert? r with
  | some t' => exact get_insert hins k
  | none =>
      obtain ⟨r', hr'⟩ := get_of_insert?_none hins
      rw [Option.getD_none, get_modify_of_get hr', if_pos (key_of_get hr')]

theorem select_insert {t t' : Table key} {r : ρ} (h : t.insert? r = some t') (p : ρ → Bool) :
    t'.select p = if p r then t.select p ++ [r] else t.select p := by
  rw [select, (insert?_eq_some_iff.mp h).2, List.filter_append]
  cases hp : p r <;> simp [select, hp]

theorem get_delete (t : Table key) (p : ρ → Bool) (k : κ) :
    (t.delete p).get k = (t.get k).filter (fun r => !p r) := by
  cases hk : t.get k with
  | none =>
      rw [Option.filter_none, get_eq_none_iff]
      intro r hr
      exact get_eq_none_iff.mp hk r (List.mem_of_mem_filter hr)
  | some r =>
      by_cases hp : p r
      · rw [Option.filter_some, if_neg (by simp [hp]), get_eq_none_iff]
        intro r' hr' hkey
        obtain ⟨hm, hnp⟩ := List.mem_filter.mp hr'
        have : r' = r := by
          have hg := get_of_mem hm
          rw [hkey, hk] at hg
          exact (Option.some.inj hg).symm
        rw [this, hp] at hnp
        simp at hnp
      · rw [Option.filter_some, if_pos (by simp [hp]), get_eq_some_iff]
        exact ⟨List.mem_filter.mpr ⟨mem_of_get hk, by simp [hp]⟩, key_of_get hk⟩

end Lookup

end Table

end DurableEngine.Lib
