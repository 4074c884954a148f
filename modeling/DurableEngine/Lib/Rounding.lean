/-
  DurableEngine.Lib.Rounding

  Rounding to the nearest integer, to the nearest multiple of a unit and to a
  number of significant digits, halves to even.

  A value rounds to `n` exactly when it is `Nearest` to `n` (`rint_eq_iff`); a
  number that the digits can write stays as it is, and rounding never carries a
  value past one (`Representable.le_roundDigits`, `roundDigits_le`).
-/

import Mathlib

namespace DurableEngine.Lib

-- ============================================================================
-- The nearest integer
-- ============================================================================

/-- The nearest integer; a half goes to the even neighbour. -/
def rint (q : ℚ) : ℤ :=
  if q - ⌊q⌋ < 1 / 2 then ⌊q⌋
  else if 1 / 2 < q - ⌊q⌋ then ⌊q⌋ + 1
  else if ⌊q⌋ % 2 = 0 then ⌊q⌋
  else ⌊q⌋ + 1

/-- `q` is closer to `n` than to any other integer, or halfway from it and `n`
    is even. -/
def Nearest (q : ℚ) (n : ℤ) : Prop :=
  |q - n| < 1 / 2 ∨ |q - n| = 1 / 2 ∧ n % 2 = 0

instance (q : ℚ) (n : ℤ) : Decidable (Nearest q n) :=
  inferInstanceAs (Decidable (_ ∨ _))

theorem Nearest.le {q : ℚ} {n : ℤ} (h : Nearest q n) : |q - n| ≤ 1 / 2 :=
  h.elim (fun h => h.le) (fun h => h.1.le)

theorem Nearest.even_of_half {q : ℚ} {n : ℤ} (h : Nearest q n) (hhalf : |q - n| = 1 / 2) : n % 2 = 0 :=
  h.elim (fun h => absurd hhalf h.ne) (fun h => h.2)

theorem nearest_rint (q : ℚ) : Nearest q (rint q) := by
  have hle := Int.floor_le q
  have hlt := Int.lt_floor_add_one q
  unfold rint Nearest
  split
  case isTrue hlow =>
      refine .inl ?_
      rw [abs_lt]
      constructor <;> linarith
  case isFalse hlow =>
      split
      case isTrue hhigh =>
          refine .inl ?_
          push_cast
          rw [abs_lt]
          constructor <;> linarith
      case isFalse hhigh =>
          have hhalf : q - ⌊q⌋ = 1 / 2 := le_antisymm (not_lt.mp hhigh) (not_lt.mp hlow)
          split
          case isTrue heven => exact .inr ⟨by rw [hhalf]; norm_num, heven⟩
          case isFalse hodd =>
              refine .inr ⟨?_, by omega⟩
              have hminus : q - ((⌊q⌋ + 1 : ℤ) : ℚ) = -(1 / 2) := by
                push_cast
                linarith
              rw [hminus, abs_neg]
              norm_num

/-- Two integers a unit apart cannot both be even, so a half is shared by no two
    nearest ones. -/
theorem Nearest.mono {q r : ℚ} {m n : ℤ} (hqr : q ≤ r) (hm : Nearest q m) (hn : Nearest r n) :
    m ≤ n := by
  by_contra hlt
  have hgap : (n : ℚ) + 1 ≤ m := by exact_mod_cast not_le.mp hlt
  have hq := abs_le.mp hm.le
  have hr := abs_le.mp hn.le
  have hqm : q - m = -(1 / 2) := by linarith [hq.1, hr.2]
  have hrn : r - n = 1 / 2 := by linarith [hq.1, hr.2]
  have hadjacent : m = n + 1 := by
    have hcast : (m : ℚ) = n + 1 := by linarith
    exact_mod_cast hcast
  have hmeven : m % 2 = 0 := hm.even_of_half (by rw [hqm, abs_neg]; norm_num)
  have hneven : n % 2 = 0 := hn.even_of_half (by rw [hrn]; norm_num)
  omega

theorem Nearest.unique {q : ℚ} {m n : ℤ} (hm : Nearest q m) (hn : Nearest q n) : m = n :=
  le_antisymm (hm.mono le_rfl hn) (hn.mono le_rfl hm)

theorem rint_eq_iff {q : ℚ} {n : ℤ} : rint q = n ↔ Nearest q n :=
  ⟨fun h => h ▸ nearest_rint q, fun h => (nearest_rint q).unique h⟩

theorem rint_mono {q r : ℚ} (h : q ≤ r) : rint q ≤ rint r :=
  (nearest_rint q).mono h (nearest_rint r)

theorem nearest_intCast (n : ℤ) : Nearest n n :=
  .inl (by rw [sub_self, abs_zero]; norm_num)

@[simp] theorem rint_intCast (n : ℤ) : rint n = n :=
  rint_eq_iff.mpr (nearest_intCast n)

theorem Nearest.neg {q : ℚ} {n : ℤ} (h : Nearest q n) : Nearest (-q) (-n) := by
  have hdist : |-q - ((-n : ℤ) : ℚ)| = |q - n| := by
    rw [← abs_neg]
    congr 1
    push_cast
    ring
  rw [Nearest, hdist]
  exact h.imp id (fun h => ⟨h.1, by omega⟩)

@[simp] theorem rint_neg (q : ℚ) : rint (-q) = -rint q :=
  rint_eq_iff.mpr (nearest_rint q).neg

/-- Shifting by an integer shifts the nearest integer, except that a half moves
    to the other side when the integer is odd. -/
theorem nearest_add_iff {q : ℚ} {k n : ℤ} (hn : Nearest q n) :
    Nearest (k + q) (k + n) ↔ ¬(|q - n| = 1 / 2 ∧ k % 2 ≠ 0) := by
  have hdist : |(k : ℚ) + q - ((k + n : ℤ) : ℚ)| = |q - n| := by
    congr 1
    push_cast
    ring
  rw [Nearest, hdist]
  constructor
  · rintro (hlt | ⟨-, heven⟩) ⟨hhalf, hodd⟩
    · exact absurd hhalf hlt.ne
    · have hneven := hn.even_of_half hhalf
      omega
  · intro hnot
    rcases hn with hlt | ⟨hhalf, heven⟩
    · exact .inl hlt
    · refine .inr ⟨hhalf, ?_⟩
      have hkeven : k % 2 = 0 := of_not_not fun hodd => hnot ⟨hhalf, hodd⟩
      omega

-- ============================================================================
-- The nearest multiple of a unit
-- ============================================================================

/-- The multiple of `u` nearest to `q`. -/
def roundTo (u q : ℚ) : ℚ :=
  rint (q / u) * u

section RoundTo

variable {u : ℚ}

theorem roundTo_mono (hu : 0 < u) {q r : ℚ} (h : q ≤ r) : roundTo u q ≤ roundTo u r := by
  have hdiv : q / u ≤ r / u := div_le_div_of_nonneg_right h hu.le
  exact mul_le_mul_of_nonneg_right (by exact_mod_cast rint_mono hdiv) hu.le

theorem roundTo_intCast_mul (hu : 0 < u) (n : ℤ) : roundTo u (n * u) = n * u := by
  rw [roundTo, mul_div_cancel_right₀ _ hu.ne', rint_intCast]

theorem abs_roundTo_sub_le (hu : 0 < u) (q : ℚ) : |roundTo u q - q| ≤ u / 2 := by
  have hdist : roundTo u q - q = -((q / u - rint (q / u)) * u) := by
    rw [roundTo, sub_mul, div_mul_cancel₀ _ hu.ne']
    ring
  rw [hdist, abs_neg, abs_mul, abs_of_pos hu, div_eq_mul_one_div u 2, mul_comm u]
  exact mul_le_mul_of_nonneg_right (nearest_rint (q / u)).le hu.le

@[simp] theorem roundTo_zero : roundTo u 0 = 0 := by
  have hzero : rint 0 = 0 := rint_intCast 0
  rw [roundTo, zero_div, hzero, Int.cast_zero, zero_mul]

@[simp] theorem roundTo_neg (q : ℚ) : roundTo u (-q) = -roundTo u q := by
  rw [roundTo, neg_div, rint_neg, Int.cast_neg, neg_mul, roundTo]

end RoundTo

-- ============================================================================
-- Significant digits
-- ============================================================================

/-- `q` to `p` significant digits in base `b`. -/
def roundDigits (b p : ℕ) (q : ℚ) : ℚ :=
  if q = 0 then 0 else roundTo ((b : ℚ) ^ (Int.log b |q| + 1 - p)) q

/-- `p` digits in base `b` write `x`. -/
def Representable (b p : ℕ) (x : ℚ) : Prop :=
  ∃ m e : ℤ, |m| ≤ (b : ℤ) ^ p ∧ x = m * (b : ℚ) ^ e

section Digits

variable {b p : ℕ}

@[simp] theorem roundDigits_zero : roundDigits b p 0 = 0 :=
  if_pos rfl

@[simp] theorem roundDigits_neg (q : ℚ) : roundDigits b p (-q) = -roundDigits b p q := by
  by_cases hq : q = 0
  · rw [hq, neg_zero, roundDigits_zero, neg_zero]
  · rw [roundDigits, roundDigits, if_neg hq, if_neg (neg_ne_zero.mpr hq), abs_neg, roundTo_neg]

theorem Representable.neg {x : ℚ} (hx : Representable b p x) : Representable b p (-x) := by
  obtain ⟨m, e, hm, rfl⟩ := hx
  exact ⟨-m, e, by rwa [abs_neg], by push_cast; ring⟩

theorem representable_natCast {n : ℕ} (hn : n ≤ b ^ p) : Representable b p n :=
  ⟨n, 0, by rw [Nat.abs_cast]; exact_mod_cast hn, by rw [zpow_zero, mul_one, Int.cast_natCast]⟩

/-- The unit of the last digit of a value between two powers of the base. -/
theorem roundDigits_eq_roundTo {q : ℚ} {e : ℤ} (hb : 1 < b) (hlow : (b : ℚ) ^ e ≤ q)
    (hhigh : q < (b : ℚ) ^ (e + 1)) : roundDigits b p q = roundTo ((b : ℚ) ^ (e + 1 - p)) q := by
  have hbase : (0 : ℚ) < b := by exact_mod_cast Nat.zero_lt_of_lt hb
  have hq : 0 < q := (zpow_pos hbase e).trans_le hlow
  have hlog : Int.log b q = e := by
    have hle := (Int.zpow_le_iff_le_log hb hq).mp hlow
    have hlt := (Int.lt_zpow_iff_log_lt hb hq).mp hhigh
    omega
  rw [roundDigits, if_neg hq.ne', abs_of_pos hq, hlog]

variable (hb : 1 < b)
include hb

theorem zpow_base_pos (e : ℤ) : 0 < (b : ℚ) ^ e :=
  zpow_pos (by exact_mod_cast Nat.zero_lt_of_lt hb) e

/-- Rounding a value below a power of the base moves it by half a unit of that power at most. -/
theorem abs_roundDigits_sub_le {q : ℚ} {e : ℤ} (hq : 0 < q) (hhigh : q < (b : ℚ) ^ (e + 1)) :
    |roundDigits b p q - q| ≤ (b : ℚ) ^ (e + 1 - p) / 2 := by
  have hlog : Int.log b q ≤ e := by
    have hlt := (Int.lt_zpow_iff_log_lt hb hq).mp hhigh
    omega
  have hunit : (b : ℚ) ^ (Int.log b q + 1 - p) ≤ (b : ℚ) ^ (e + 1 - p) :=
    zpow_le_zpow_right₀ (by exact_mod_cast hb.le) (by omega)
  rw [roundDigits, if_neg hq.ne', abs_of_pos hq]
  exact (abs_roundTo_sub_le (zpow_base_pos hb _) q).trans (by linarith)

/-- A multiple of a coarser power of the base is one of a finer power. -/
theorem multiple_of_le {m e f : ℤ} (hfe : f ≤ e) :
    ∃ n : ℤ, (m : ℚ) * (b : ℚ) ^ e = n * (b : ℚ) ^ f := by
  obtain ⟨k, hk⟩ := Int.eq_ofNat_of_zero_le (sub_nonneg.mpr hfe)
  have hb0 : (b : ℚ) ≠ 0 := by exact_mod_cast (Nat.zero_lt_of_lt hb).ne'
  refine ⟨m * (b : ℤ) ^ k, ?_⟩
  have hsum : e = k + f := by omega
  rw [hsum, zpow_add₀ hb0, zpow_natCast]
  push_cast
  ring

/-- What `p` digits write is a multiple of the last digit's unit at `q`, or at
    most the power of the base below `q`. -/
theorem Representable.multiple_or_le {x q : ℚ} (hx : Representable b p x) :
    (∃ n : ℤ, x = n * (b : ℚ) ^ (Int.log b q + 1 - p)) ∨ x ≤ (b : ℚ) ^ Int.log b q := by
  obtain ⟨m, e, hm, rfl⟩ := hx
  rcases le_or_gt (Int.log b q + 1 - p) e with hcoarse | hfine
  · exact .inl (multiple_of_le hb hcoarse)
  · refine .inr ?_
    have hb0 : (b : ℚ) ≠ 0 := by exact_mod_cast (Nat.zero_lt_of_lt hb).ne'
    have hb1 : (1 : ℚ) ≤ b := by exact_mod_cast hb.le
    have hmb : (m : ℚ) ≤ (b : ℚ) ^ p := by exact_mod_cast (le_abs_self m).trans hm
    calc (m : ℚ) * (b : ℚ) ^ e
        ≤ (b : ℚ) ^ p * (b : ℚ) ^ e := mul_le_mul_of_nonneg_right hmb (zpow_base_pos hb e).le
      _ = (b : ℚ) ^ ((p : ℤ) + e) := by rw [zpow_add₀ hb0, zpow_natCast]
      _ ≤ (b : ℚ) ^ Int.log b q := zpow_le_zpow_right₀ hb1 (by omega)

variable (hp : 0 < p)
include hp

theorem exists_zpow_log_eq (q : ℚ) :
    ∃ n : ℤ, (b : ℚ) ^ Int.log b q = n * (b : ℚ) ^ (Int.log b q + 1 - p) := by
  have hone : (b : ℚ) ^ Int.log b q = ((1 : ℤ) : ℚ) * (b : ℚ) ^ Int.log b q := by
    rw [Int.cast_one, one_mul]
  rw [hone]
  exact multiple_of_le hb (by omega)

/-- Rounding a value up to what the digits write does not pass it. -/
theorem Representable.le_roundDigits {x q : ℚ} (hx : Representable b p x) (hq : 0 < q) (h : x ≤ q) :
    x ≤ roundDigits b p q := by
  have hbelow : ∀ n : ℤ, n * (b : ℚ) ^ (Int.log b q + 1 - p) ≤ q →
      n * (b : ℚ) ^ (Int.log b q + 1 - p) ≤ roundDigits b p q := by
    intro n hn
    rw [roundDigits, if_neg hq.ne', abs_of_pos hq, ← roundTo_intCast_mul (zpow_base_pos hb _) n]
    exact roundTo_mono (zpow_base_pos hb _) hn
  rcases hx.multiple_or_le (q := q) hb with ⟨n, rfl⟩ | hle
  · exact hbelow n h
  · obtain ⟨n, hn⟩ := exists_zpow_log_eq hb hp q
    have hpow : (b : ℚ) ^ Int.log b q ≤ q := Int.zpow_log_le_self hb hq
    exact hle.trans (hn ▸ hbelow n (hn ▸ hpow))

theorem Representable.roundDigits_le {x q : ℚ} (hx : Representable b p x) (hq : 0 < q) (h : q ≤ x) :
    roundDigits b p q ≤ x := by
  have habove : ∀ n : ℤ, q ≤ n * (b : ℚ) ^ (Int.log b q + 1 - p) →
      roundDigits b p q ≤ n * (b : ℚ) ^ (Int.log b q + 1 - p) := by
    intro n hn
    rw [roundDigits, if_neg hq.ne', abs_of_pos hq, ← roundTo_intCast_mul (zpow_base_pos hb _) n]
    exact roundTo_mono (zpow_base_pos hb _) hn
  rcases hx.multiple_or_le (q := q) hb with ⟨n, rfl⟩ | hle
  · exact habove n h
  · -- a value between a power of the base and itself is that power
    obtain ⟨n, hn⟩ := exists_zpow_log_eq hb hp q
    have hpow : (b : ℚ) ^ Int.log b q ≤ q := Int.zpow_log_le_self hb hq
    have heq : q = n * (b : ℚ) ^ (Int.log b q + 1 - p) := hn ▸ le_antisymm (h.trans hle) hpow
    exact (habove n heq.le).trans (heq ▸ h)

theorem roundDigits_nonneg {q : ℚ} (hq : 0 ≤ q) : 0 ≤ roundDigits b p q := by
  rcases hq.eq_or_lt with rfl | hpos
  · rw [roundDigits_zero]
  · have hzero : Representable b p (0 : ℚ) := by exact_mod_cast representable_natCast (Nat.zero_le _)
    exact hzero.le_roundDigits hb hp hpos hpos.le

/-- A non-negative bound that the digits write holds for values of any sign. -/
theorem Representable.roundDigits_le_of_nonneg {x q : ℚ} (hx : Representable b p x) (hx0 : 0 ≤ x)
    (h : q ≤ x) : roundDigits b p q ≤ x := by
  rcases le_or_gt q 0 with hneg | hpos
  · have hrounded := roundDigits_nonneg hb hp (neg_nonneg.mpr hneg)
    rw [roundDigits_neg] at hrounded
    linarith
  · exact hx.roundDigits_le hb hp hpos h

/-- What the digits write stays as it is. -/
theorem Representable.roundDigits_eq {x : ℚ} (hx : Representable b p x) : roundDigits b p x = x := by
  rcases lt_trichotomy x 0 with hneg | rfl | hpos
  · have hpos : 0 < -x := neg_pos.mpr hneg
    have heq : roundDigits b p (-x) = -x :=
      le_antisymm (hx.neg.roundDigits_le hb hp hpos le_rfl) (hx.neg.le_roundDigits hb hp hpos le_rfl)
    rwa [roundDigits_neg, neg_inj] at heq
  · exact roundDigits_zero
  · exact le_antisymm (hx.roundDigits_le hb hp hpos le_rfl) (hx.le_roundDigits hb hp hpos le_rfl)

end Digits

end DurableEngine.Lib
