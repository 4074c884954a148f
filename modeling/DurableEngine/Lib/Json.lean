/-
  DurableEngine.Lib.Json

  JSON documents as a decoder sees them, the normal form a `jsonb` column
  keeps of them, and the value `encoding/json` unmarshals into an `any`.

  A document is a `JsonTree` over number literals.  Both readers walk it the
  same way (`canon`): numbers are converted, a repeated member name keeps its
  last value, members end up in a fixed order.  `canon_canon` says that two
  such walks compose, so reading a document back out of a `jsonb` column gives
  the value that reading it directly gives (`toAny_jsonb`).

  `jsonEqual` compares two documents after unmarshalling, so it is false as
  soon as one of them is nested too deep or holds a number outside the
  `float64` range.
-/

import Mathlib

namespace DurableEngine.Lib

/-- A JSON document with numbers of type `ν`; members keep order and repetitions. -/
inductive JsonTree (ν : Type) where
  | null
  | bool (b : Bool)
  | num (n : ν)
  | str (s : String)
  | arr (xs : List (JsonTree ν))
  | obj (ms : List (String × JsonTree ν))
deriving Repr

-- ============================================================================
-- Numbers
-- ============================================================================

/-- The exponent part of a literal as it is spelled: `e` or `E`, an optional
    sign, leading zeros and the digits of `abs`. -/
structure Exponent where
  upper : Bool
  sign : Option Bool
  zeros : Nat
  abs : Nat
deriving Repr, DecidableEq

/-- The value of the exponent; the sign `some true` is a minus. -/
def Exponent.value (e : Exponent) : Int := if e.sign = some true then -(e.abs : Int) else e.abs

/-- A number literal: `coeff` are its digits, `scale` of them after the point,
    followed by an optional exponent. -/
structure JsonNumber where
  neg : Bool
  coeff : Nat
  scale : Nat
  exponent : Option Exponent
deriving Repr, DecidableEq

def JsonNumber.exp (n : JsonNumber) : Int := (n.exponent.map Exponent.value).getD 0

/-- A finite binary number `± mant * 2 ^ exp` with a 53-bit mantissa; zero has no sign,
    as `==` does not see one. -/
structure Float64 where
  neg : Bool
  mant : Nat
  exp : Int
deriving Repr, DecidableEq

/-- The 53-bit number nearest to `p / q`, ties to even, gradual underflow at `2 ^ -1074`;
    the exponent is not bounded above. -/
def roundFloat (neg : Bool) (p q : Nat) : Float64 :=
  if p = 0 then ⟨false, 0, 0⟩
  else
    let e₀ : Int := (Nat.log2 p : Int) - (Nat.log2 q : Int) - 52
    let small : Bool :=
      if 0 ≤ e₀ then p < q * 2 ^ e₀.toNat * 2 ^ 52 else p * 2 ^ (-e₀).toNat < q * 2 ^ 52
    let e : Int := max (if small then e₀ - 1 else e₀) (-1074)
    let num := if 0 ≤ e then p else p * 2 ^ (-e).toNat
    let den := if 0 ≤ e then q * 2 ^ e.toNat else q
    let m := num / den
    let r := num % den
    let m := if den < 2 * r ∨ (2 * r = den ∧ m % 2 = 1) then m + 1 else m
    if m = 0 then ⟨false, 0, 0⟩
    else if m = 2 ^ 53 then ⟨neg, 2 ^ 52, e + 1⟩
    else ⟨neg, m, e⟩

namespace JsonNumber

/-- The literal rounded to binary. -/
def toFloat (n : JsonNumber) : Float64 :=
  if (n.scale : Int) ≤ n.exp then roundFloat n.neg (n.coeff * 10 ^ (n.exp - n.scale).toNat) 1
  else roundFloat n.neg n.coeff (10 ^ (n.scale - n.exp).toNat)

/-- `strconv.ParseFloat` reports no range error. -/
def inRange (n : JsonNumber) : Bool := decide (n.toFloat.exp ≤ 971)

/-- The `numeric` a `jsonb` number is stored as: no exponent, no signed zero. -/
def toNumeric (n : JsonNumber) : JsonNumber :=
  if (n.scale : Int) ≤ n.exp then
    ⟨n.neg && n.coeff ≠ 0, n.coeff * 10 ^ (n.exp - n.scale).toNat, 0, none⟩
  else ⟨n.neg && n.coeff ≠ 0, n.coeff, (n.scale - n.exp).toNat, none⟩

/-- The literal fits a `numeric`: at most 131072 digits before the point,
    16383 after it, and a readable exponent. -/
def numericOK (n : JsonNumber) : Bool :=
  decide ((n.coeff = 0 ∨ (Nat.log 10 n.coeff : Int) + 1 + (n.exp - n.scale) ≤ 131072) ∧
    n.scale - n.exp ≤ 16383 ∧ n.exp.natAbs < 1073741823)

/-- The literal a 64-bit integer prints as. -/
def ofInt64 (i : Int) : JsonNumber := ⟨decide (i < 0), i.natAbs % 2 ^ 64, 0, none⟩

/-- A literal `ParseInt` accepts, with its value. -/
def toInt? (n : JsonNumber) : Option Int :=
  if n.scale = 0 ∧ n.exponent = none then
    let v : Int := if n.neg then -(n.coeff : Int) else n.coeff
    if -(2 ^ 63) ≤ v ∧ v < 2 ^ 63 then some v else none
  else none

@[simp] theorem exp_mk_none (neg : Bool) (coeff scale : Nat) :
    (JsonNumber.mk neg coeff scale none).exp = 0 := rfl

theorem roundFloat_zero_sign (neg neg' : Bool) (q : Nat) :
    roundFloat neg 0 q = roundFloat neg' 0 q := by
  simp [roundFloat]

/-- Storing a number as `numeric` does not change the binary number it rounds to. -/
theorem toFloat_toNumeric (n : JsonNumber) : n.toNumeric.toFloat = n.toFloat := by
  have hsign : ∀ p q, (p = 0 ↔ n.coeff = 0) →
      roundFloat (n.neg && n.coeff ≠ 0) p q = roundFloat n.neg p q := by
    intro p q hp
    by_cases hc : n.coeff = 0
    · rw [hp.mpr hc]
      exact roundFloat_zero_sign _ _ _
    · simp [hc]
  by_cases h : (n.scale : Int) ≤ n.exp
  · simp only [toNumeric, toFloat, if_pos h, exp_mk_none]
    have hzero : n.coeff * 10 ^ (n.exp - n.scale).toNat = 0 ↔ n.coeff = 0 := by
      simp
    have hscale : ((0 : Nat) : Int) ≤ 0 := by omega
    rw [if_pos hscale]
    simpa using hsign _ 1 hzero
  · have hpos : ¬ (((n.scale - n.exp).toNat : Int) ≤ 0) := by omega
    simp only [toNumeric, toFloat, if_neg h, exp_mk_none, if_neg hpos]
    have hexp : (((n.scale - n.exp).toNat : Int) - 0).toNat = (n.scale - n.exp).toNat := by omega
    rw [hexp]
    exact hsign n.coeff _ Iff.rfl

theorem log_mul_pow {n : Nat} (hn : n ≠ 0) (k : Nat) :
    Nat.log 10 (n * 10 ^ k) = Nat.log 10 n + k := by
  induction k with
  | zero => simp
  | succ k ih =>
      have hne : n * 10 ^ k ≠ 0 := Nat.mul_ne_zero hn (Nat.pow_pos (by decide)).ne'
      rw [Nat.pow_succ, ← Nat.mul_assoc, Nat.log_mul_base (by omega) hne, ih, Nat.add_assoc]

/-- What fits a `numeric` still fits after conversion. -/
theorem numericOK_toNumeric {n : JsonNumber} (h : n.numericOK = true) :
    n.toNumeric.numericOK = true := by
  simp only [numericOK, decide_eq_true_eq] at h ⊢
  obtain ⟨hdigits, hscale, -⟩ := h
  by_cases hs : (n.scale : Int) ≤ n.exp
  · simp only [toNumeric, if_pos hs, exp_mk_none]
    refine ⟨?_, by omega, by simp⟩
    rcases hdigits with hz | hd
    · exact Or.inl (by simp [hz])
    · by_cases hc : n.coeff = 0
      · exact Or.inl (by simp [hc])
      · right
        rw [log_mul_pow hc]
        omega
  · simp only [toNumeric, if_neg hs, exp_mk_none]
    refine ⟨?_, by omega, by simp⟩
    rcases hdigits with hz | hd
    · exact Or.inl hz
    · right
      omega

theorem toNumeric_toNumeric (n : JsonNumber) : n.toNumeric.toNumeric = n.toNumeric := by
  by_cases hs : (n.scale : Int) ≤ n.exp
  · have hzero : ((0 : Nat) : Int) ≤ 0 := by omega
    have hmul : n.coeff * 10 ^ (n.exp - n.scale).toNat = 0 ↔ n.coeff = 0 := by
      simp
    simp only [toNumeric, if_pos hs, exp_mk_none, if_pos hzero, ne_eq, hmul]
    by_cases hc : n.coeff = 0 <;> simp [hc]
  · have hpos : ¬ (((n.scale - n.exp).toNat : Int) ≤ 0) := by omega
    have hscale : (((n.scale - n.exp).toNat : Int) - 0).toNat = (n.scale - n.exp).toNat := by omega
    simp only [toNumeric, if_neg hs, exp_mk_none, if_neg hpos, hscale]
    by_cases hc : n.coeff = 0 <;> simp [hc]

/-- A 64-bit integer has at most twenty digits. -/
theorem numericOK_ofInt64 (i : Int) : (ofInt64 i).numericOK = true := by
  have hlog : Nat.log 10 (i.natAbs % 2 ^ 64) ≤ Nat.log 10 (2 ^ 64) :=
    Nat.log_mono_right (Nat.mod_lt _ (by decide)).le
  have hbound : Nat.log 10 (2 ^ 64) < 20 := Nat.log_lt_of_lt_pow (by decide) (by decide)
  have hdigits : (Nat.log 10 (i.natAbs % 2 ^ 64) : Int) + 1 + (0 - (0 : Nat)) ≤ 131072 := by omega
  exact decide_eq_true ⟨Or.inr hdigits, by simp [ofInt64], by simp [ofInt64]⟩

end JsonNumber

abbrev Json := JsonTree JsonNumber

/-- What `json.Unmarshal` stores into an `any`; members are in key order. -/
abbrev GoValue := JsonTree Float64

-- ============================================================================
-- Member lists
-- ============================================================================

section Members

variable {α β : Type}

/-- Keep the last binding of each name. -/
def dedupLast : List (String × α) → List (String × α)
  | [] => []
  | (k, v) :: t => if k ∈ t.map Prod.fst then dedupLast t else (k, v) :: dedupLast t

/-- The order of names in `jsonb`: by length in bytes, then bytewise. -/
def keyRank (k : String) : Lex (Nat × List Nat) := toLex (k.utf8ByteSize, k.toList.map Char.toNat)

def memberLe (a b : String × α) : Prop := keyRank a.1 ≤ keyRank b.1

instance : DecidableRel (memberLe (α := α)) := fun a b =>
  inferInstanceAs (Decidable (keyRank a.1 ≤ keyRank b.1))

instance : Std.Total (memberLe (α := α)) := ⟨fun a b => le_total (keyRank a.1) (keyRank b.1)⟩

instance : IsTrans (String × α) memberLe := ⟨fun _ _ _ h h' => le_trans h h'⟩

/-- The members of an object as a map: last binding of each name, in key order. -/
def normalize (ms : List (String × α)) : List (String × α) :=
  (dedupLast ms).insertionSort memberLe

theorem map_fst_map (f : α → β) (ms : List (String × α)) :
    (ms.map (Prod.map id f)).map Prod.fst = ms.map Prod.fst := by
  rw [List.map_map]
  rfl

theorem dedupLast_map (f : α → β) (ms : List (String × α)) :
    dedupLast (ms.map (Prod.map id f)) = (dedupLast ms).map (Prod.map id f) := by
  induction ms with
  | nil => rfl
  | cons m ms ih =>
      obtain ⟨k, v⟩ := m
      rw [List.map_cons, Prod.map_apply, id, dedupLast, map_fst_map, dedupLast]
      by_cases hk : k ∈ ms.map Prod.fst
      · rw [if_pos hk, if_pos hk, ih]
      · rw [if_neg hk, if_neg hk, ih, List.map_cons, Prod.map_apply, id]

theorem mem_dedupLast {ms : List (String × α)} {m : String × α} (h : m ∈ dedupLast ms) :
    m ∈ ms := by
  induction ms with
  | nil => exact h
  | cons x ms ih =>
      obtain ⟨k, v⟩ := x
      simp only [dedupLast] at h
      split at h
      · exact List.mem_cons_of_mem _ (ih h)
      · rcases List.mem_cons.mp h with rfl | h
        · exact List.mem_cons_self ..
        · exact List.mem_cons_of_mem _ (ih h)

theorem nodup_dedupLast (ms : List (String × α)) : ((dedupLast ms).map Prod.fst).Nodup := by
  induction ms with
  | nil => exact List.nodup_nil
  | cons x ms ih =>
      obtain ⟨k, v⟩ := x
      by_cases hk : k ∈ ms.map Prod.fst
      · simpa only [dedupLast, if_pos hk] using ih
      · simp only [dedupLast, if_neg hk, List.map_cons, List.nodup_cons]
        refine ⟨?_, ih⟩
        intro hmem
        obtain ⟨m, hm, hmk⟩ := List.mem_map.mp hmem
        exact hk (List.mem_map.mpr ⟨m, mem_dedupLast hm, hmk⟩)

theorem dedupLast_of_nodup {ms : List (String × α)} (h : (ms.map Prod.fst).Nodup) :
    dedupLast ms = ms := by
  induction ms with
  | nil => rfl
  | cons x ms ih =>
      obtain ⟨k, v⟩ := x
      rw [List.map_cons, List.nodup_cons] at h
      rw [dedupLast, if_neg h.1, ih h.2]

theorem mem_normalize {ms : List (String × α)} {m : String × α} (h : m ∈ normalize ms) :
    m ∈ ms :=
  mem_dedupLast ((List.mem_insertionSort memberLe).mp h)

theorem normalize_map (f : α → β) (ms : List (String × α)) :
    normalize (ms.map (Prod.map id f)) = (normalize ms).map (Prod.map id f) := by
  rw [normalize, dedupLast_map, normalize]
  exact (List.map_insertionSort memberLe memberLe (Prod.map id f) (dedupLast ms)
    (fun _ _ _ _ => Iff.rfl)).symm

theorem normalize_normalize (ms : List (String × α)) : normalize (normalize ms) = normalize ms := by
  have hperm : (normalize ms).Perm (dedupLast ms) := List.perm_insertionSort _ _
  have hnd : ((normalize ms).map Prod.fst).Nodup :=
    (hperm.map Prod.fst).nodup_iff.mpr (nodup_dedupLast ms)
  conv_lhs => rw [normalize, dedupLast_of_nodup hnd]
  exact List.Pairwise.insertionSort_eq (List.pairwise_insertionSort memberLe (dedupLast ms))

end Members

-- ============================================================================
-- Reading a document
-- ============================================================================

namespace JsonTree

variable {ν μ ξ : Type}

mutual

/-- Convert the numbers and turn every object into a map. -/
def canon (f : ν → μ) : JsonTree ν → JsonTree μ
  | .null => .null
  | .bool b => .bool b
  | .num n => .num (f n)
  | .str s => .str s
  | .arr xs => .arr (canonList f xs)
  | .obj ms => .obj (normalize (canonMembers f ms))

def canonList (f : ν → μ) : List (JsonTree ν) → List (JsonTree μ)
  | [] => []
  | x :: xs => canon f x :: canonList f xs

def canonMembers (f : ν → μ) : List (String × JsonTree ν) → List (String × JsonTree μ)
  | [] => []
  | (k, x) :: xs => (k, canon f x) :: canonMembers f xs

end

mutual

/-- Every number satisfies `pn` and every string, member names included, `ps`. -/
def all (pn : ν → Bool) (ps : String → Bool) : JsonTree ν → Bool
  | .null => true
  | .bool _ => true
  | .num n => pn n
  | .str s => ps s
  | .arr xs => allList pn ps xs
  | .obj ms => allMembers pn ps ms

def allList (pn : ν → Bool) (ps : String → Bool) : List (JsonTree ν) → Bool
  | [] => true
  | x :: xs => all pn ps x && allList pn ps xs

def allMembers (pn : ν → Bool) (ps : String → Bool) : List (String × JsonTree ν) → Bool
  | [] => true
  | (k, x) :: xs => ps k && all pn ps x && allMembers pn ps xs

end

mutual

/-- How many arrays and objects are open at the deepest point. -/
def depth : JsonTree ν → Nat
  | .null | .bool _ | .num _ | .str _ => 0
  | .arr xs => depthList xs + 1
  | .obj ms => depthMembers ms + 1

def depthList : List (JsonTree ν) → Nat
  | [] => 0
  | x :: xs => max (depth x) (depthList xs)

def depthMembers : List (String × JsonTree ν) → Nat
  | [] => 0
  | (_, x) :: ms => max (depth x) (depthMembers ms)

end

mutual

/-- Structural comparison. -/
def beq [DecidableEq ν] : JsonTree ν → JsonTree ν → Bool
  | .null, .null => true
  | .bool a, .bool b => a == b
  | .num a, .num b => decide (a = b)
  | .str a, .str b => a == b
  | .arr xs, .arr ys => beqList xs ys
  | .obj ms, .obj ns => beqMembers ms ns
  | _, _ => false

def beqList [DecidableEq ν] : List (JsonTree ν) → List (JsonTree ν) → Bool
  | [], [] => true
  | x :: xs, y :: ys => beq x y && beqList xs ys
  | _, _ => false

def beqMembers [DecidableEq ν] : List (String × JsonTree ν) → List (String × JsonTree ν) → Bool
  | [], [] => true
  | (k, x) :: xs, (l, y) :: ys => k == l && beq x y && beqMembers xs ys
  | _, _ => false

end

mutual

theorem beq_self [DecidableEq ν] : ∀ x : JsonTree ν, beq x x = true
  | .null => rfl
  | .bool b => by simp [beq]
  | .num n => by simp [beq]
  | .str s => by simp [beq]
  | .arr xs => beqList_self xs
  | .obj ms => beqMembers_self ms

theorem beqList_self [DecidableEq ν] : ∀ xs : List (JsonTree ν), beqList xs xs = true
  | [] => rfl
  | x :: xs => by simp [beqList, beq_self x, beqList_self xs]

theorem beqMembers_self [DecidableEq ν] :
    ∀ ms : List (String × JsonTree ν), beqMembers ms ms = true
  | [] => rfl
  | (k, x) :: ms => by simp [beqMembers, beq_self x, beqMembers_self ms]

end

mutual

theorem eq_of_beq [DecidableEq ν] : ∀ x y : JsonTree ν, beq x y = true → x = y
  | .null, y, h => by cases y <;> simp [beq] at h ⊢
  | .bool a, y, h => by cases y <;> simp_all [beq]
  | .num a, y, h => by cases y <;> simp_all [beq]
  | .str a, y, h => by cases y <;> simp_all [beq]
  | .arr xs, y, h => by
      cases y with
      | arr ys => exact congrArg _ (eq_of_beqList xs ys h)
      | null | bool | num | str | obj => simp [beq] at h
  | .obj ms, y, h => by
      cases y with
      | obj ns => exact congrArg _ (eq_of_beqMembers ms ns h)
      | null | bool | num | str | arr => simp [beq] at h

theorem eq_of_beqList [DecidableEq ν] :
    ∀ xs ys : List (JsonTree ν), beqList xs ys = true → xs = ys
  | [], [], _ => rfl
  | x :: xs, y :: ys, h => by
      simp only [beqList, Bool.and_eq_true] at h
      rw [eq_of_beq x y h.1, eq_of_beqList xs ys h.2]
  | [], _ :: _, h => by simp [beqList] at h
  | _ :: _, [], h => by simp [beqList] at h

theorem eq_of_beqMembers [DecidableEq ν] :
    ∀ ms ns : List (String × JsonTree ν), beqMembers ms ns = true → ms = ns
  | [], [], _ => rfl
  | (k, x) :: ms, (l, y) :: ns, h => by
      simp only [beqMembers, Bool.and_eq_true, beq_iff_eq] at h
      rw [h.1.1, eq_of_beq x y h.1.2, eq_of_beqMembers ms ns h.2]
  | [], _ :: _, h => by simp [beqMembers] at h
  | _ :: _, [], h => by simp [beqMembers] at h

end

instance [DecidableEq ν] : DecidableEq (JsonTree ν) := fun x y =>
  decidable_of_iff (beq x y = true) ⟨eq_of_beq x y, fun h => h ▸ beq_self x⟩

theorem canonMembers_eq_map (f : ν → μ) (ms : List (String × JsonTree ν)) :
    canonMembers f ms = ms.map (Prod.map id (canon f)) := by
  induction ms with
  | nil => rfl
  | cons m ms ih =>
      obtain ⟨k, x⟩ := m
      rw [canonMembers, ih, List.map_cons]
      rfl

mutual

/-- Two readings compose. -/
theorem canon_canon (f : ν → μ) (g : μ → ξ) :
    ∀ x : JsonTree ν, canon g (canon f x) = canon (g ∘ f) x
  | .null => rfl
  | .bool _ => rfl
  | .num _ => rfl
  | .str _ => rfl
  | .arr xs => by simp only [canon, canonList_canonList f g xs]
  | .obj ms => by
      have hms := canonMembers_canonMembers f g ms
      simp only [canonMembers_eq_map] at hms
      simp only [canon, canonMembers_eq_map, ← normalize_map, normalize_normalize, hms]

theorem canonList_canonList (f : ν → μ) (g : μ → ξ) :
    ∀ xs : List (JsonTree ν), canonList g (canonList f xs) = canonList (g ∘ f) xs
  | [] => rfl
  | x :: xs => by simp only [canonList, canon_canon f g x, canonList_canonList f g xs]

theorem canonMembers_canonMembers (f : ν → μ) (g : μ → ξ) :
    ∀ ms : List (String × JsonTree ν),
      canonMembers g (canonMembers f ms) = canonMembers (g ∘ f) ms
  | [] => rfl
  | (k, x) :: ms => by
      simp only [canonMembers, canon_canon f g x, canonMembers_canonMembers f g ms]

end

theorem allMembers_iff {pn : ν → Bool} {ps : String → Bool} {ms : List (String × JsonTree ν)} :
    allMembers pn ps ms = true ↔ ∀ m ∈ ms, ps m.1 = true ∧ all pn ps m.2 = true := by
  induction ms with
  | nil => simp [allMembers]
  | cons m ms ih =>
      obtain ⟨k, x⟩ := m
      simp [allMembers, ih]

mutual

/-- A reading keeps what holds of all numbers and strings. -/
theorem all_canon {f : ν → μ} {pn : ν → Bool} {qn : μ → Bool} {ps : String → Bool}
    (h : ∀ n, pn n = true → qn (f n) = true) :
    ∀ x : JsonTree ν, all pn ps x = true → all qn ps (canon f x) = true
  | .null => fun _ => rfl
  | .bool _ => fun _ => rfl
  | .num n => fun hn => h n hn
  | .str _ => fun hs => hs
  | .arr xs => fun hx => allList_canon h xs hx
  | .obj ms => fun hm => by
      have hmem : allMembers qn ps (canonMembers f ms) = true := allMembers_canon h ms hm
      simp only [canon, all, allMembers_iff] at hmem ⊢
      exact fun m hmn => hmem m (mem_normalize hmn)

theorem allList_canon {f : ν → μ} {pn : ν → Bool} {qn : μ → Bool} {ps : String → Bool}
    (h : ∀ n, pn n = true → qn (f n) = true) :
    ∀ xs : List (JsonTree ν), allList pn ps xs = true → allList qn ps (canonList f xs) = true
  | [] => fun _ => rfl
  | x :: xs => fun hx => by
      simp only [allList, Bool.and_eq_true] at hx
      simp only [canonList, allList, Bool.and_eq_true]
      exact ⟨all_canon h x hx.1, allList_canon h xs hx.2⟩

theorem allMembers_canon {f : ν → μ} {pn : ν → Bool} {qn : μ → Bool} {ps : String → Bool}
    (h : ∀ n, pn n = true → qn (f n) = true) :
    ∀ ms : List (String × JsonTree ν),
      allMembers pn ps ms = true → allMembers qn ps (canonMembers f ms) = true
  | [] => fun _ => rfl
  | (k, x) :: ms => fun hm => by
      simp only [allMembers, Bool.and_eq_true] at hm
      simp only [canonMembers, allMembers, Bool.and_eq_true]
      exact ⟨⟨hm.1.1, all_canon h x hm.1.2⟩, allMembers_canon h ms hm.2⟩

end

theorem depthMembers_le_iff {ms : List (String × JsonTree ν)} {n : Nat} :
    depthMembers ms ≤ n ↔ ∀ m ∈ ms, depth m.2 ≤ n := by
  induction ms with
  | nil => simp [depthMembers]
  | cons m ms ih =>
      obtain ⟨k, x⟩ := m
      simp only [depthMembers, Nat.max_le, ih, List.forall_mem_cons]

mutual

/-- A reading nests no deeper than the document. -/
theorem depth_canon (f : ν → μ) : ∀ x : JsonTree ν, depth (canon f x) ≤ depth x
  | .null => Nat.le_refl _
  | .bool _ => Nat.le_refl _
  | .num _ => Nat.le_refl _
  | .str _ => Nat.le_refl _
  | .arr xs => Nat.succ_le_succ (depth_canonList f xs)
  | .obj ms => by
      refine Nat.succ_le_succ (depthMembers_le_iff.mpr (fun m hm => ?_))
      exact depthMembers_le_iff.mp (depth_canonMembers f ms) m (mem_normalize hm)

theorem depth_canonList (f : ν → μ) :
    ∀ xs : List (JsonTree ν), depthList (canonList f xs) ≤ depthList xs
  | [] => Nat.le_refl _
  | x :: xs => by
      have hhead := depth_canon f x
      have htail := depth_canonList f xs
      rw [canonList, depthList, depthList]
      omega

theorem depth_canonMembers (f : ν → μ) :
    ∀ ms : List (String × JsonTree ν), depthMembers (canonMembers f ms) ≤ depthMembers ms
  | [] => Nat.le_refl _
  | (_, x) :: ms => by
      have hhead := depth_canon f x
      have htail := depth_canonMembers f ms
      rw [canonMembers, depthMembers, depthMembers]
      omega

end

end JsonTree

/-- `maxNestingDepth` of `encoding/json`. -/
def maxNestingDepth : Nat := 10000

namespace Json

open JsonTree

/-- No NUL is in the text. -/
def textOK (s : String) : Bool := s.toList.all (fun c => c.toNat ≠ 0)

/-- `::jsonb` accepts the document: numbers fit `numeric`, no string holds a NUL. -/
def jsonbOK (v : Json) : Bool := v.all JsonNumber.numericOK textOK

/-- The document a `jsonb` column gives back. -/
def jsonb (v : Json) : Json := v.canon JsonNumber.toNumeric

/-- `encoding/json` reads the document: its arrays and objects are not nested too deep. -/
def shallow (v : Json) : Bool := decide (v.depth ≤ maxNestingDepth)

/-- `json.Unmarshal` into an `any` succeeds. -/
def decodes (v : Json) : Bool := v.shallow && v.all JsonNumber.inRange (fun _ => true)

/-- The value `json.Unmarshal` stores into an `any`. -/
def toAny (v : Json) : GoValue := v.canon JsonNumber.toFloat

/-- `jsonEqual`: both sides unmarshal, to deeply equal values. -/
def jsonEqual (left right : Json) : Bool :=
  left.decodes && right.decodes && beq left.toAny right.toAny

/-- Storing a document as `jsonb` keeps the value it unmarshals to. -/
theorem toAny_jsonb (v : Json) : v.jsonb.toAny = v.toAny := by
  have hcomp : JsonNumber.toFloat ∘ JsonNumber.toNumeric = JsonNumber.toFloat :=
    funext JsonNumber.toFloat_toNumeric
  simp only [toAny, jsonb, canon_canon, hcomp]

theorem shallow_jsonb {v : Json} (h : v.shallow = true) : v.jsonb.shallow = true :=
  decide_eq_true (Nat.le_trans (depth_canon _ v) (of_decide_eq_true h))

theorem decodes_jsonb {v : Json} (h : v.decodes = true) : v.jsonb.decodes = true := by
  rw [decodes, Bool.and_eq_true] at h ⊢
  refine ⟨shallow_jsonb h.1, all_canon (fun n hn => ?_) v h.2⟩
  simpa [JsonNumber.inRange, JsonNumber.toFloat_toNumeric] using hn

/-- A document equal to the one that was stored is equal to what the column gives back. -/
theorem jsonEqual_jsonb {v w : Json} (h : jsonEqual v w = true) :
    jsonEqual v.jsonb w = true := by
  simp only [jsonEqual, Bool.and_eq_true] at h ⊢
  exact ⟨⟨decodes_jsonb h.1.1, h.1.2⟩, by rw [toAny_jsonb]; exact h.2⟩

theorem jsonb_jsonb (v : Json) : v.jsonb.jsonb = v.jsonb := by
  have hcomp : JsonNumber.toNumeric ∘ JsonNumber.toNumeric = JsonNumber.toNumeric :=
    funext JsonNumber.toNumeric_toNumeric
  simp only [jsonb, canon_canon, hcomp]

theorem jsonbOK_jsonb {v : Json} (h : v.jsonbOK = true) : v.jsonb.jsonbOK = true :=
  all_canon (fun _ hn => JsonNumber.numericOK_toNumeric hn) v h

theorem jsonEqual_self {v : Json} (h : v.decodes = true) : jsonEqual v v = true := by
  simp [jsonEqual, h, beq_self]

end Json

/-- A value of a `jsonb` column: an accepted document in its stored form. -/
structure Jsonb where
  doc : Json
  ok : doc.jsonbOK = true
  stored : doc.jsonb = doc

namespace Jsonb

@[ext]
theorem ext {a b : Jsonb} (h : a.doc = b.doc) : a = b := by
  cases a
  cases b
  cases h
  rfl

instance : DecidableEq Jsonb := fun a b => decidable_of_iff (a.doc = b.doc) ⟨ext, fun h => h ▸ rfl⟩

/-- `::jsonb`. -/
def ofJson? (v : Json) : Option Jsonb :=
  if h : v.jsonbOK = true then some ⟨v.jsonb, Json.jsonbOK_jsonb h, Json.jsonb_jsonb v⟩ else none

theorem ofJson?_of_ok {v : Json} (h : v.jsonbOK = true) :
    ofJson? v = some ⟨v.jsonb, Json.jsonbOK_jsonb h, Json.jsonb_jsonb v⟩ := dif_pos h

theorem doc_of_ofJson? {v : Json} {b : Jsonb} (h : ofJson? v = some b) : b.doc = v.jsonb := by
  unfold ofJson? at h
  split at h
  · cases h
    rfl
  · cases h

/-- Writing a column's value back gives the same value. -/
@[simp] theorem ofJson?_doc (b : Jsonb) : ofJson? b.doc = some b := by
  obtain ⟨v, hok, hstored⟩ := b
  simp only [ofJson?_of_ok hok, hstored]

end Jsonb

end DurableEngine.Lib
