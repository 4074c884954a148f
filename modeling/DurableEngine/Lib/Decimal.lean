/-
  DurableEngine.Lib.Decimal

  The number a literal denotes, and what rounding makes of it.

  `roundFloat` works on a numerator and a denominator.  Its result depends on
  their quotient alone (`roundFloat_congr`): the exponent it searches for is
  the binary logarithm of the quotient.  So two spellings of one number round
  to one `float64`, and a number can be stored in another spelling.
-/

import DurableEngine.Lib.JsonValue
import Mathlib

namespace DurableEngine.Lib

-- ============================================================================
-- Rounding
-- ============================================================================

/-- The rest of the rounding, from the exponent on. -/
def mantissa (neg : Bool) (p q : Nat) (e : Int) : Float64 :=
  let num := if 0 ≤ e then p else p * 2 ^ (-e).toNat
  let den := if 0 ≤ e then q * 2 ^ e.toNat else q
  let m := num / den
  let r := num % den
  let m := if den < 2 * r ∨ (2 * r = den ∧ m % 2 = 1) then m + 1 else m
  if m = 0 then ⟨false, 0, 0⟩
  else if m = 2 ^ 53 then ⟨neg, 2 ^ 52, e + 1⟩
  else ⟨neg, m, e⟩

theorem mantissa_scale (neg : Bool) (p q : Nat) (e : Int) {k : Nat} (hk : 0 < k) :
    mantissa neg (k * p) (k * q) e = mantissa neg p q e := by
  have hnum : (if 0 ≤ e then k * p else k * p * 2 ^ (-e).toNat) =
      k * (if 0 ≤ e then p else p * 2 ^ (-e).toNat) := by
    split
    · rfl
    · exact Nat.mul_assoc ..
  have hden : (if 0 ≤ e then k * q * 2 ^ e.toNat else k * q) =
      k * (if 0 ≤ e then q * 2 ^ e.toNat else q) := by
    split
    · exact Nat.mul_assoc ..
    · rfl
  have hup : ∀ num den m : Nat, (k * den < 2 * (k * (num % den)) ∨
      2 * (k * (num % den)) = k * den ∧ m % 2 = 1) ↔
      (den < 2 * (num % den) ∨ 2 * (num % den) = den ∧ m % 2 = 1) := by
    intro num den m
    rw [Nat.mul_left_comm 2 k, Nat.mul_lt_mul_left hk, Nat.mul_right_inj (Nat.pos_iff_ne_zero.mp hk)]
  simp only [mantissa, hnum, hden, Nat.mul_div_mul_left _ _ hk, Nat.mul_mod_mul_left, hup]

/-- The quotient compared with a power of two. -/
theorem quotient_lt_iff {p q : Nat} (hq : 0 < q) (e : Int) :
    (if 0 ≤ e then decide (p < q * 2 ^ e.toNat * 2 ^ 52)
      else decide (p * 2 ^ (-e).toNat < q * 2 ^ 52)) = true ↔ (p : ℚ) / q < 2 ^ (e + 52) := by
  have hq' : (0 : ℚ) < q := by exact_mod_cast hq
  rw [div_lt_iff₀ hq', zpow_add₀ (by norm_num : (2 : ℚ) ≠ 0)]
  split
  · rename_i he
    have hpow : (2 : ℚ) ^ e = 2 ^ e.toNat := by
      rw [← zpow_natCast, Int.toNat_of_nonneg he]
    rw [decide_eq_true_eq, hpow, ← @Nat.cast_lt ℚ]
    push_cast
    rw [mul_assoc, mul_comm (q : ℚ)]
  · rename_i he
    have hpow : (2 : ℚ) ^ e = (2 ^ (-e).toNat)⁻¹ := by
      rw [← zpow_natCast, Int.toNat_of_nonneg (by omega), zpow_neg, inv_inv]
    have hpos : (0 : ℚ) < 2 ^ (-e).toNat := by positivity
    rw [decide_eq_true_eq, hpow, ← @Nat.cast_lt ℚ]
    push_cast
    rw [mul_assoc, ← div_eq_inv_mul, lt_div_iff₀ hpos, mul_comm (q : ℚ)]

/-- The exponent of the rounding is the binary logarithm of the quotient. -/
theorem exponent_eq_log {p q : Nat} (hp : p ≠ 0) (hq : 0 < q) :
    (if (if 0 ≤ (Nat.log2 p : Int) - Nat.log2 q - 52 then
        decide (p < q * 2 ^ ((Nat.log2 p : Int) - Nat.log2 q - 52).toNat * 2 ^ 52)
      else decide (p * 2 ^ (-((Nat.log2 p : Int) - Nat.log2 q - 52)).toNat < q * 2 ^ 52)) = true
      then (Nat.log2 p : Int) - Nat.log2 q - 52 - 1 else (Nat.log2 p : Int) - Nat.log2 q - 52) =
      Int.log 2 ((p : ℚ) / q) - 52 := by
  have hq' : (0 : ℚ) < q := by exact_mod_cast hq
  have hp' : (0 : ℚ) < p := by exact_mod_cast Nat.pos_of_ne_zero hp
  have hr : (0 : ℚ) < (p : ℚ) / q := div_pos hp' hq'
  have htwo : (2 : ℚ) ≠ 0 := by norm_num
  have hplow : (2 : ℚ) ^ (Nat.log2 p : Int) ≤ p := by
    rw [zpow_natCast]
    exact_mod_cast Nat.log2_self_le hp
  have hphigh : (p : ℚ) < 2 ^ ((Nat.log2 p : Int) + 1) := by
    rw [← Nat.cast_succ, zpow_natCast]
    exact_mod_cast Nat.lt_log2_self
  have hqlow : (2 : ℚ) ^ (Nat.log2 q : Int) ≤ q := by
    rw [zpow_natCast]
    exact_mod_cast Nat.log2_self_le (Nat.pos_iff_ne_zero.mp hq)
  have hqhigh : (q : ℚ) < 2 ^ ((Nat.log2 q : Int) + 1) := by
    rw [← Nat.cast_succ, zpow_natCast]
    exact_mod_cast Nat.lt_log2_self
  have hlow : (2 : ℚ) ^ ((Nat.log2 p : Int) - Nat.log2 q - 1) ≤ (p : ℚ) / q := by
    rw [le_div_iff₀ hq']
    refine le_trans (mul_le_mul_of_nonneg_left hqhigh.le (by positivity)) ?_
    rw [← zpow_add₀ htwo, show (Nat.log2 p : Int) - Nat.log2 q - 1 + (Nat.log2 q + 1) = Nat.log2 p by ring]
    exact hplow
  have hhigh : (p : ℚ) / q < 2 ^ ((Nat.log2 p : Int) - Nat.log2 q + 1) := by
    rw [div_lt_iff₀ hq']
    refine lt_of_lt_of_le hphigh ?_
    refine le_trans ?_ (mul_le_mul_of_nonneg_left hqlow (by positivity))
    rw [← zpow_add₀ htwo, show (Nat.log2 p : Int) - Nat.log2 q + 1 + Nat.log2 q = Nat.log2 p + 1 by ring]
  rw [if_congr (quotient_lt_iff hq _) rfl rfl, sub_add_cancel]
  have hlelog : ∀ x : Int, (2 : ℚ) ^ x ≤ (p : ℚ) / q ↔ x ≤ Int.log 2 ((p : ℚ) / q) := fun x => by
    exact_mod_cast Int.zpow_le_iff_le_log (b := 2) (x := x) (by norm_num) hr
  have hloglt : ∀ x : Int, (p : ℚ) / q < (2 : ℚ) ^ x ↔ Int.log 2 ((p : ℚ) / q) < x := fun x => by
    exact_mod_cast Int.lt_zpow_iff_log_lt (b := 2) (x := x) (by norm_num) hr
  rw [hlelog] at hlow
  rw [hloglt] at hhigh
  split
  · rename_i hsmall
    rw [hloglt] at hsmall
    omega
  · rename_i hlarge
    rw [hloglt] at hlarge
    omega

theorem roundFloat_eq (neg : Bool) {p q : Nat} (hp : p ≠ 0) (hq : 0 < q) :
    roundFloat neg p q = mantissa neg p q (max (Int.log 2 ((p : ℚ) / q) - 52) (-1074)) := by
  rw [← exponent_eq_log hp hq]
  unfold roundFloat
  rw [if_neg hp]
  unfold mantissa
  -- the powers would be evaluated otherwise
  generalize (Nat.log2 p : Int) - Nat.log2 q - 52 = e, (2 : Nat) ^ 53 = a, (2 : Nat) ^ 52 = b
  rfl

/-- Rounding depends on the quotient alone. -/
theorem roundFloat_congr (neg : Bool) {p q p' q' : Nat} (hq : 0 < q) (hq' : 0 < q')
    (h : (p : ℚ) / q = p' / q') : roundFloat neg p q = roundFloat neg p' q' := by
  have hcast : ((q : ℚ) ≠ 0) ∧ (q' : ℚ) ≠ 0 :=
    ⟨Nat.cast_ne_zero.mpr hq.ne', Nat.cast_ne_zero.mpr hq'.ne'⟩
  have hcross : p * q' = p' * q := by
    rw [div_eq_div_iff hcast.1 hcast.2] at h
    exact_mod_cast h
  by_cases hp : p = 0
  · have hp' : p' = 0 := by
      rw [hp, Nat.zero_mul, eq_comm, Nat.mul_eq_zero] at hcross
      exact hcross.resolve_right hq.ne'
    rw [hp, hp', roundFloat, roundFloat, if_pos rfl, if_pos rfl]
  · have hp' : p' ≠ 0 := by
      rintro rfl
      rw [Nat.zero_mul, Nat.mul_eq_zero] at hcross
      exact hcross.elim hp hq'.ne'
    rw [roundFloat_eq neg hp hq, roundFloat_eq neg hp' hq', h, ← mantissa_scale neg p q _ hq',
      ← mantissa_scale neg p' q' _ hq, Nat.mul_comm q' p, hcross, Nat.mul_comm p' q, Nat.mul_comm q q']

-- ============================================================================
-- Literals
-- ============================================================================

namespace JsonNumber

/-- The number without its sign. -/
def magnitude (n : JsonNumber) : ℚ := n.coeff * 10 ^ (n.exp - n.scale)

/-- The number that a literal denotes. -/
def value (n : JsonNumber) : ℚ := if n.neg then -n.magnitude else n.magnitude

theorem magnitude_nonneg (n : JsonNumber) : 0 ≤ n.magnitude := by
  unfold magnitude
  positivity

/-- Literals of one number agree in magnitude, and in sign unless they are zero. -/
theorem eq_of_value_eq {m n : JsonNumber} (h : m.value = n.value) :
    m.magnitude = n.magnitude ∧ (m.neg = n.neg ∨ m.magnitude = 0) := by
  have hm := m.magnitude_nonneg
  have hn := n.magnitude_nonneg
  unfold value at h
  cases hms : m.neg <;> cases hns : n.neg <;> simp only [hms, hns, Bool.false_eq_true, if_true, if_false] at h
  · exact ⟨h, .inl rfl⟩
  · have hzero : m.magnitude = 0 := by linarith
    exact ⟨by linarith, .inr hzero⟩
  · have hzero : m.magnitude = 0 := by linarith
    exact ⟨by linarith, .inr hzero⟩
  · exact ⟨neg_inj.mp h, .inl rfl⟩

/-- The quotient that `toFloat` rounds is the magnitude. -/
theorem toFloat_eq_round (n : JsonNumber) : ∃ p q : Nat, 0 < q ∧ (p : ℚ) / q = n.magnitude ∧
    n.toFloat = roundFloat n.neg p q := by
  unfold toFloat magnitude
  split
  · rename_i h
    refine ⟨_, 1, Nat.one_pos, ?_, rfl⟩
    rw [Nat.cast_one, div_one, Nat.cast_mul, Nat.cast_pow, Nat.cast_ofNat, ← zpow_natCast,
      Int.toNat_of_nonneg (by omega)]
  · rename_i h
    refine ⟨_, _, Nat.pow_pos (by decide), ?_, rfl⟩
    rw [Nat.cast_pow, Nat.cast_ofNat, ← zpow_natCast, Int.toNat_of_nonneg (by omega), div_eq_mul_inv,
      ← zpow_neg, neg_sub]

/-- Rounding sees the number, not its spelling. -/
theorem toFloat_eq_of_value {m n : JsonNumber} (h : m.value = n.value) : m.toFloat = n.toFloat := by
  obtain ⟨hmagnitude, hsign⟩ := eq_of_value_eq h
  obtain ⟨p, q, hq, hpq, hm⟩ := m.toFloat_eq_round
  obtain ⟨p', q', hq', hpq', hn⟩ := n.toFloat_eq_round
  have hcongr : roundFloat m.neg p q = roundFloat m.neg p' q' :=
    roundFloat_congr m.neg hq hq' (by rw [hpq, hpq', hmagnitude])
  rw [hm, hn, hcongr]
  obtain hneg | hzero := hsign
  · rw [hneg]
  · rw [hmagnitude, ← hpq', div_eq_zero_iff, Nat.cast_eq_zero, Nat.cast_eq_zero,
      or_iff_left hq'.ne'] at hzero
    rw [hzero]
    exact roundFloat_zero_sign _ _ _

end JsonNumber

-- ============================================================================
-- Documents
-- ============================================================================

namespace Json

open JsonTree

/-- The documents mean the same: numbers count exactly, members as a map. -/
def SameValue (x y : Json) : Prop := x.denote JsonNumber.value = y.denote JsonNumber.value

/-- Some number of the document is beyond the `float64` range. -/
def Overflows (v : Json) : Prop := v.all JsonNumber.inRange (fun _ => true) = false

/-- `json.Unmarshal` into an `any` reports an error: the document is nested too deep, or a number of it is
    beyond the range. -/
def Unreadable (v : Json) : Prop := maxNestingDepth < v.depth ∨ Overflows v

/-- The documents become the same when their numbers are rounded to `float64`. -/
def RoundsAlike (x y : Json) : Prop := x.denote JsonNumber.toFloat = y.denote JsonNumber.toFloat

theorem SameValue.roundsAlike {x y : Json} (h : SameValue x y) : RoundsAlike x y := by
  have : Nonempty Float64 := ⟨⟨false, 0, 0⟩⟩
  obtain ⟨g, hg⟩ := (Function.factorsThrough_iff JsonNumber.toFloat).mp
    (fun _ _ => JsonNumber.toFloat_eq_of_value)
  unfold RoundsAlike
  rw [hg]
  exact denote_comp_eq g h

/-- `json.Unmarshal` into an `any` fails exactly on what is nested too deep or beyond the range. -/
theorem decodes_iff {v : Json} : v.decodes = true ↔ ¬ Unreadable v := by
  simp only [decodes, shallow, Unreadable, Overflows, Bool.and_eq_true, decide_eq_true_eq, not_or, Nat.not_lt,
    Bool.not_eq_false]

theorem jsonEqual_eq_true_iff {x y : Json} :
    jsonEqual x y = true ↔ ¬ Unreadable x ∧ ¬ Unreadable y ∧ RoundsAlike x y := by
  have hbeq : beq x.toAny y.toAny = true ↔ x.toAny = y.toAny :=
    ⟨eq_of_beq _ _, fun h => by rw [h]; exact beq_self _⟩
  rw [jsonEqual, Bool.and_eq_true, Bool.and_eq_true, decodes_iff, decodes_iff, hbeq, and_assoc, RoundsAlike,
    denote_eq_iff]
  rfl

end Json

end DurableEngine.Lib
