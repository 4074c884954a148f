/-
  DurableEngine.Api.Leases

  Requested leases and delays: from the milliseconds of a request to the
  deadline in the database.

  The server multiplies to nanoseconds in 64 bits, the store replaces what is
  not positive by a default, and the database adds an interval that went
  through two doubles.  A deadline is the requested one exactly when the
  product fits and the doubles keep the microsecond (`Honoured`).
-/

import DurableEngine.Engine.Run
import DurableEngine.Lib.Rounding
import Mathlib

namespace DurableEngine.Api

open Lib State Engine

-- ============================================================================
-- Deadlines
-- ============================================================================

/-- The nearest double; no value here is near the ends of its range. -/
def double (q : ℚ) : ℚ := roundDigits 2 53 q

/-- `durationSeconds`: the whole seconds and the rest of a duration in nanoseconds, as doubles. -/
def durationSeconds (d : Int) : ℚ :=
  double (double (d.tdiv 1000000000) + double (double (d.tmod 1000000000) / 1000000000))

/-- The microseconds of `seconds::double precision * interval '1 second'`. -/
def intervalMicros (seconds : ℚ) : Int := rint (double (1000000 * seconds))

/-- `clock_timestamp() + ($n::double precision * interval '1 second')`, in microseconds. -/
def deadlineAfter (now d : Int) : Int := now + intervalMicros (durationSeconds d)

/-- What is not positive is replaced by the default. -/
def positiveOr (default d : Int) : Int := if d ≤ 0 then default else d

/-- The deadline set for a claim whose request has `attempt_lease_ms`. -/
def claimDeadline (now attemptLeaseMS : Int) : Int :=
  deadlineAfter now (positiveOr minute (milliseconds attemptLeaseMS))

/-- The deadline set for a heartbeat whose request has `extension_ms`. -/
def heartbeatDeadline (now extensionMS : Int) : Int :=
  deadlineAfter now (positiveOr minute (milliseconds extensionMS))

/-- The due time of the timer of a node. -/
def timerDue (now : Int) (node : Node) : Int := deadlineAfter now (timerDelay node)

/-- The deadline that so many milliseconds ask for; `0` asks for the default. -/
def requestedDeadline (now default ms : Int) : Int :=
  now + (if ms = 0 then default / 1000 else ms * 1000)

/-- The error, in microseconds, of `k` milliseconds rounded to a multiple of `2 ^ -19` seconds. -/
def drift (k : Int) : ℚ := rint (k * 2 ^ 19 / 1000) * 15625 / 8192 - 1000 * k

/-- The nanoseconds fit in 64 bits; and between `2 ^ 33` seconds and `2 ^ 53` microseconds, where
    a double counts seconds in steps of `2 ^ -19`, the step next to the request is within half a
    microsecond of it. -/
def Honoured (ms : Int) : Prop :=
  ms ≤ 9223372036854 ∧ ¬ (8589934592000 ≤ ms ∧ ms < 9007199254741 ∧ 1 / 2 < |drift (ms % 1000)|)

-- ============================================================================
-- The models of the store and of the graph
-- ============================================================================

-- ============================================================================
-- Doubles
-- ============================================================================

theorem representable_double {q : ℚ} (m e : ℤ) (hm : |m| ≤ 2 ^ 53) (hq : q = m * (2 : ℚ) ^ e) :
    Representable 2 53 q :=
  ⟨m, e, by exact_mod_cast hm, by rw [hq]; norm_num⟩

theorem double_intCast {n : Int} (hn : |n| ≤ 2 ^ 53) : double n = n :=
  (representable_double n 0 hn (by norm_num)).roundDigits_eq (by decide) (by decide)

theorem double_le {q x : ℚ} (hx : Representable 2 53 x) (hx0 : 0 ≤ x) (h : q ≤ x) : double q ≤ x :=
  hx.roundDigits_le_of_nonneg (by decide) (by decide) hx0 h

theorem le_double {q x : ℚ} (hx : Representable 2 53 x) (hq : 0 < q) (h : x ≤ q) : x ≤ double q :=
  hx.le_roundDigits (by decide) (by decide) hq h

theorem last_bit (e : ℤ) : ((2 : ℕ) : ℚ) ^ (e + 1 - ((53 : ℕ) : ℤ)) = (2 : ℚ) ^ (e - 52) := by
  have hexp : e + 1 - ((53 : ℕ) : ℤ) = e - 52 := by
    push_cast
    ring
  rw [hexp, Nat.cast_ofNat]

/-- A double between two powers of two is the nearest multiple of its last bit. -/
theorem double_eq_roundTo {q : ℚ} (e : ℤ) (hlow : (2 : ℚ) ^ e ≤ q) (hhigh : q < (2 : ℚ) ^ (e + 1)) :
    double q = roundTo ((2 : ℚ) ^ (e - 52)) q := by
  rw [double, roundDigits_eq_roundTo (by decide : 1 < 2) (by exact_mod_cast hlow)
    (by exact_mod_cast hhigh), last_bit]

theorem abs_double_sub_le {q : ℚ} (e : ℤ) (hq : 0 < q) (hhigh : q < (2 : ℚ) ^ (e + 1)) :
    |double q - q| ≤ (2 : ℚ) ^ (e - 52) / 2 := by
  rw [← last_bit]
  exact abs_roundDigits_sub_le (by decide : 1 < 2) hq (by exact_mod_cast hhigh)

theorem nearest_of_even {q : ℚ} {n : ℤ} (heven : n % 2 = 0) (hclose : |q - n| ≤ 1 / 2) : Nearest q n :=
  hclose.lt_or_eq.imp id (fun h => ⟨h, heven⟩)

/-- From `2 ^ 52` to `2 ^ 53` a double is an integer. -/
theorem rint_double_large {q : ℚ} (hlow : (2 : ℚ) ^ 52 ≤ q) (hhigh : q < (2 : ℚ) ^ 53) :
    rint (double q) = rint q := by
  have hdouble := double_eq_roundTo 52 (by exact_mod_cast hlow) (by norm_num at hhigh ⊢; exact hhigh)
  have hunit : (2 : ℚ) ^ ((52 : ℤ) - 52) = 1 := by norm_num
  rw [hdouble, hunit, roundTo, div_one, mul_one, rint_intCast]

/-- A double within half of a count of microseconds is read back as that count. -/
theorem rint_double_of_close {q : ℚ} {n : ℤ} (hn : 0 < n) (hmillis : n % 1000 = 0) (hsmall : n + 1 < 2 ^ 53)
    (hclose : |q - n| ≤ 1 / 2) : rint (double q) = n := by
  have hnear := abs_le.mp hclose
  have hone : (1000 : ℚ) ≤ n := by exact_mod_cast (by omega : 1000 ≤ n)
  rcases le_or_gt n (2 ^ 52) with hle | hgt
  · -- the halves next to the count are doubles
    have hhalf : ∀ m : ℤ, |m| ≤ 2 ^ 53 → Representable 2 53 (m / 2) := fun m hm =>
      representable_double m (-1) hm (by norm_num; ring)
    have habove := double_le (hhalf (2 * n + 1) (by rw [abs_le]; omega))
      (by push_cast; linarith) (by push_cast; linarith : q ≤ ((2 * n + 1 : ℤ) : ℚ) / 2)
    have hbelow := le_double (hhalf (2 * n - 1) (by rw [abs_le]; omega)) (by linarith)
      (by push_cast; linarith : ((2 * n - 1 : ℤ) : ℚ) / 2 ≤ q)
    push_cast at habove hbelow
    refine rint_eq_iff.mpr (nearest_of_even (by omega) (abs_le.mpr ⟨?_, ?_⟩)) <;> linarith
  · have hlow : (2 : ℚ) ^ 52 + 1 ≤ n := by exact_mod_cast hgt
    have hhigh : (n : ℚ) + 1 < 2 ^ 53 := by exact_mod_cast hsmall
    rw [rint_double_large (by linarith) (by linarith)]
    exact rint_eq_iff.mpr (nearest_of_even (by omega) hclose)

/-- From `2 ^ 53` to `2 ^ 54` a double is even, and keeps an even count within one. -/
theorem rint_double_even {q : ℚ} {n : ℤ} (heven : n % 2 = 0) (hlow : (2 : ℚ) ^ 53 ≤ q)
    (hhigh : q < (2 : ℚ) ^ 54) (hclose : |q - n| < 1) : rint (double q) = n := by
  have hdouble := double_eq_roundTo 53 (by exact_mod_cast hlow) (by norm_num at hhigh ⊢; exact hhigh)
  have hunit : (2 : ℚ) ^ ((53 : ℤ) - 52) = 2 := by norm_num
  obtain ⟨m, rfl⟩ := Int.even_iff.mpr heven
  have hnearest : Nearest (q / 2) m := by
    refine .inl ?_
    have hnear := abs_lt.mp hclose
    push_cast at hnear
    rw [abs_lt]
    constructor <;> linarith
  rw [hdouble, hunit, roundTo, rint_eq_iff.mpr hnearest]
  have hsum : (m : ℚ) * 2 = ((m + m : ℤ) : ℚ) := by
    push_cast
    ring
  rw [hsum, rint_intCast]

-- ============================================================================
-- Whole milliseconds
-- ============================================================================

/-- The double of the seconds of a whole number of milliseconds. -/
theorem durationSeconds_millis {ms : Int} (h0 : 0 ≤ ms) (hmax : ms ≤ 9223372036854) :
    durationSeconds (ms * 1000000) =
      double (((ms / 1000 : ℤ) : ℚ) + double (((ms % 1000 : ℤ) : ℚ) / 1000)) := by
  have hdiv : (ms * 1000000).tdiv 1000000000 = ms / 1000 := by
    rw [Int.tdiv_eq_ediv_of_nonneg (by omega)]
    omega
  have hmod : (ms * 1000000).tmod 1000000000 = ms % 1000 * 1000000 := by
    rw [Int.tmod_eq_emod_of_nonneg (by omega)]
    omega
  have hseconds : double ((ms / 1000 : ℤ) : ℚ) = ((ms / 1000 : ℤ) : ℚ) :=
    double_intCast (by rw [abs_le]; omega)
  have hrest : double ((ms % 1000 * 1000000 : ℤ) : ℚ) = ((ms % 1000 * 1000000 : ℤ) : ℚ) :=
    double_intCast (by rw [abs_le]; omega)
  rw [durationSeconds, hdiv, hmod, hseconds, hrest]
  congr 3
  push_cast
  ring

/-- The double of a fraction of a second is very close to it. -/
theorem abs_double_fraction_sub_le {k : Int} (h0 : 0 ≤ k) (hk : k < 1000) :
    |double ((k : ℚ) / 1000) - k / 1000| ≤ 1 / 2 ^ 54 := by
  rcases h0.eq_or_lt with rfl | hpos
  · rw [Int.cast_zero, zero_div, double, roundDigits_zero]
    norm_num
  · have hkq : (k : ℚ) < 1000 := by exact_mod_cast hk
    have hposq : (0 : ℚ) < k := by exact_mod_cast hpos
    refine (abs_double_sub_le (-1) (by positivity) ?_).trans (le_of_eq ?_)
    · norm_num
      linarith
    · norm_num

/-- The microseconds that the doubles make of `ms` milliseconds, before they are rounded. -/
def microsOf (ms : Int) : ℚ := 1000000 * durationSeconds (ms * 1000000)

theorem microsOf_eq {ms : Int} (h0 : 0 < ms) (hmax : ms ≤ 9223372036854) :
    microsOf ms = 1000000 * double (((ms / 1000 : ℤ) : ℚ) + double (((ms % 1000 : ℤ) : ℚ) / 1000)) := by
  rw [microsOf, durationSeconds_millis h0.le hmax]

/-- The sum of the seconds and the fraction, below the next power of two. -/
theorem seconds_bounds {ms : Int} (h0 : 0 < ms) :
    |((ms / 1000 : ℤ) : ℚ) + double (((ms % 1000 : ℤ) : ℚ) / 1000) - ms / 1000| ≤ 1 / 2 ^ 54 ∧
      0 < ((ms / 1000 : ℤ) : ℚ) + double (((ms % 1000 : ℤ) : ℚ) / 1000) ∧
      ((ms / 1000 : ℤ) : ℚ) + double (((ms % 1000 : ℤ) : ℚ) / 1000) < ((ms / 1000 : ℤ) : ℚ) + 1 := by
  have hfraction := abs_double_fraction_sub_le (k := ms % 1000) (by omega) (by omega)
  have hsplit : (ms : ℚ) = 1000 * ((ms / 1000 : ℤ) : ℚ) + ((ms % 1000 : ℤ) : ℚ) := by
    exact_mod_cast (Int.mul_ediv_add_emod ms 1000).symm
  have hmod : ((ms % 1000 : ℤ) : ℚ) ≤ 999 := by exact_mod_cast (by omega : ms % 1000 ≤ 999)
  have hone : (1 : ℚ) ≤ ms := by exact_mod_cast h0
  have htiny : (1 : ℚ) / 2 ^ 54 < 1 / 1000 := by norm_num
  have hnear := abs_le.mp hfraction
  refine ⟨?_, ?_, ?_⟩
  · have hdist : ((ms / 1000 : ℤ) : ℚ) + double (((ms % 1000 : ℤ) : ℚ) / 1000) - ms / 1000 =
        double (((ms % 1000 : ℤ) : ℚ) / 1000) - ((ms % 1000 : ℤ) : ℚ) / 1000 := by
      rw [hsplit]
      ring
    rwa [hdist]
  · linarith
  · linarith

/-- The doubles lose at most half a step of the seconds, and a little. -/
theorem abs_microsOf_sub_le {ms : Int} (e : ℤ) (h0 : 0 < ms) (hmax : ms ≤ 9223372036854)
    (hsmall : ((ms / 1000 : ℤ) : ℚ) + 1 ≤ (2 : ℚ) ^ (e + 1)) :
    |microsOf ms - ms * 1000| ≤ 1000000 * ((2 : ℚ) ^ (e - 52) / 2 + 1 / 2 ^ 54) := by
  obtain ⟨hexact, hpos, hlt⟩ := seconds_bounds h0
  have hrounded := abs_double_sub_le e hpos (hlt.trans_le hsmall)
  have hdist : microsOf ms - ms * 1000 = 1000000 *
      (double (((ms / 1000 : ℤ) : ℚ) + double (((ms % 1000 : ℤ) : ℚ) / 1000)) - ms / 1000) := by
    rw [microsOf_eq h0 hmax]
    ring
  rw [hdist, abs_mul, abs_of_pos (by norm_num : (0 : ℚ) < 1000000)]
  refine mul_le_mul_of_nonneg_left ?_ (by norm_num)
  exact (abs_sub_le _ _ _).trans (add_le_add hrounded hexact)

theorem intervalMicros_small {ms : Int} (h0 : 0 < ms) (hsmall : ms < 8589934592000) :
    intervalMicros (durationSeconds (ms * 1000000)) = ms * 1000 := by
  have hseconds : ((ms / 1000 : ℤ) : ℚ) + 1 ≤ (2 : ℚ) ^ ((32 : ℤ) + 1) := by
    exact_mod_cast (by omega : ms / 1000 + 1 ≤ 2 ^ 33)
  have hclose := abs_microsOf_sub_le 32 h0 (by omega) hseconds
  refine rint_double_of_close (by omega) (by omega) (by omega) ?_
  push_cast
  exact hclose.trans (by norm_num)

theorem intervalMicros_large {ms : Int} (hlarge : 9007199254741 ≤ ms) (hmax : ms ≤ 9223372036854) :
    intervalMicros (durationSeconds (ms * 1000000)) = ms * 1000 := by
  have hseconds : ((ms / 1000 : ℤ) : ℚ) + 1 ≤ (2 : ℚ) ^ ((33 : ℤ) + 1) := by
    exact_mod_cast (by omega : ms / 1000 + 1 ≤ 2 ^ 34)
  have hclose : |microsOf ms - ms * 1000| < 1 :=
    (abs_microsOf_sub_le 33 (by omega) hmax hseconds).trans_lt (by norm_num)
  have hnear := abs_lt.mp hclose
  have hlow : (9007199254741 : ℚ) ≤ ms := by exact_mod_cast hlarge
  have hhigh : (ms : ℚ) ≤ 9223372036854 := by exact_mod_cast hmax
  have hmicros := rint_double_even (q := microsOf ms) (n := ms * 1000) (by omega) (by linarith)
    (by linarith) (by push_cast; exact hclose)
  exact hmicros

theorem rint_add_of_even {m : ℤ} (hm : m % 2 = 0) (q : ℚ) : rint (m + q) = m + rint q :=
  rint_eq_iff.mpr ((nearest_add_iff (nearest_rint q)).mpr (fun h => h.2 hm))

/-- The double of a fraction is rounded to steps of `2 ^ -19` as the fraction itself is: no whole
    number of milliseconds is near the middle of a step. -/
theorem rint_fraction {k : Int} (h0 : 0 ≤ k) (hk : k < 1000) :
    rint (double ((k : ℚ) / 1000) * 2 ^ 19) = rint ((k : ℚ) * 2 ^ 19 / 1000) := by
  have hfraction := abs_le.mp (abs_double_fraction_sub_le h0 hk)
  have hnearest := abs_le.mp (nearest_rint ((k : ℚ) * 2 ^ 19 / 1000)).le
  set r := rint ((k : ℚ) * 2 ^ 19 / 1000)
  -- the distance to the step, in units of 1 / 2000 of it, is a multiple of 16
  have hlow : -1000 ≤ k * 1048576 - 2000 * r := by
    have hcast : (-1000 : ℚ) ≤ k * 1048576 - 2000 * r := by linarith [hnearest.1]
    exact_mod_cast hcast
  have hhigh : k * 1048576 - 2000 * r ≤ 1000 := by
    have hcast : (k : ℚ) * 1048576 - 2000 * r ≤ 1000 := by linarith [hnearest.2]
    exact_mod_cast hcast
  have hlow' : (-992 : ℚ) ≤ k * 1048576 - 2000 * r := by
    exact_mod_cast (by omega : -992 ≤ k * 1048576 - 2000 * r)
  have hhigh' : (k : ℚ) * 1048576 - 2000 * r ≤ 992 := by
    exact_mod_cast (by omega : k * 1048576 - 2000 * r ≤ 992)
  refine rint_eq_iff.mpr (.inl (abs_lt.mpr ⟨?_, ?_⟩)) <;> linarith [hfraction.1, hfraction.2]

/-- Between `2 ^ 33` seconds and `2 ^ 53` microseconds the error is that of the fraction. -/
theorem microsOf_sub_eq_drift {ms : Int} (hlow : 8589934592000 ≤ ms) (hhigh : ms < 9007199254741) :
    microsOf ms - ms * 1000 = drift (ms % 1000) := by
  obtain ⟨-, hpos, hlt⟩ := seconds_bounds (show 0 < ms by omega)
  have hseconds : (2 : ℚ) ^ (33 : ℤ) ≤ ((ms / 1000 : ℤ) : ℚ) := by
    exact_mod_cast (by omega : 2 ^ 33 ≤ ms / 1000)
  have hseconds' : ((ms / 1000 : ℤ) : ℚ) + 1 ≤ (2 : ℚ) ^ ((33 : ℤ) + 1) := by
    exact_mod_cast (by omega : ms / 1000 + 1 ≤ 2 ^ 34)
  have hfraction : 0 ≤ double (((ms % 1000 : ℤ) : ℚ) / 1000) := by
    have hmod : (0 : ℚ) ≤ ((ms % 1000 : ℤ) : ℚ) := by exact_mod_cast (by omega : 0 ≤ ms % 1000)
    exact roundDigits_nonneg (by decide) (by decide) (by positivity)
  have hsplit : (ms : ℚ) = 1000 * ((ms / 1000 : ℤ) : ℚ) + ((ms % 1000 : ℤ) : ℚ) := by
    exact_mod_cast (Int.mul_ediv_add_emod ms 1000).symm
  have hunit : (2 : ℚ) ^ ((33 : ℤ) - 52) = 1 / 2 ^ 19 := by norm_num
  have hsteps : (((ms / 1000 : ℤ) : ℚ) + double (((ms % 1000 : ℤ) : ℚ) / 1000)) / (1 / 2 ^ 19) =
      ((ms / 1000 * 2 ^ 19 : ℤ) : ℚ) + double (((ms % 1000 : ℤ) : ℚ) / 1000) * 2 ^ 19 := by
    push_cast
    ring
  rw [microsOf_eq (by omega) (by omega), double_eq_roundTo 33 (by linarith) (hlt.trans_le hseconds'),
    hunit, roundTo, hsteps, rint_add_of_even (by omega), rint_fraction (by omega) (by omega), drift, hsplit]
  push_cast
  ring

theorem intervalMicros_middle {ms : Int} (hlow : 8589934592000 ≤ ms) (hhigh : ms < 9007199254741) :
    intervalMicros (durationSeconds (ms * 1000000)) = ms * 1000 ↔ ¬ 1 / 2 < |drift (ms % 1000)| := by
  have hseconds : ((ms / 1000 : ℤ) : ℚ) + 1 ≤ (2 : ℚ) ^ ((33 : ℤ) + 1) := by
    exact_mod_cast (by omega : ms / 1000 + 1 ≤ 2 ^ 34)
  have hclose : |microsOf ms - ms * 1000| < 1 :=
    (abs_microsOf_sub_le 33 (by omega) (by omega) hseconds).trans_lt (by norm_num)
  have hnear := abs_lt.mp hclose
  have hlowq : (8589934592000 : ℚ) ≤ ms := by exact_mod_cast hlow
  have hhighq : (ms : ℚ) ≤ 9007199254740 := by exact_mod_cast (by omega : ms ≤ 9007199254740)
  have hdrift : |microsOf ms - ((ms * 1000 : ℤ) : ℚ)| = |drift (ms % 1000)| := by
    push_cast
    rw [microsOf_sub_eq_drift hlow hhigh]
  change rint (double (microsOf ms)) = _ ↔ _
  rw [rint_double_large (by linarith) (by linarith), rint_eq_iff, ← hdrift, not_lt]
  exact ⟨fun h => h.le, fun h => nearest_of_even (by omega) h⟩

/-- Without overflow, the interval is the requested one exactly when the lease is honoured. -/
theorem intervalMicros_eq_iff {ms : Int} (h0 : 0 < ms) (hmax : ms ≤ 9223372036854) :
    intervalMicros (durationSeconds (ms * 1000000)) = ms * 1000 ↔ Honoured ms := by
  rw [Honoured]
  rcases lt_or_ge ms 8589934592000 with hsmall | hlow
  · exact ⟨fun _ => ⟨hmax, fun h => absurd h.1 (not_le.mpr hsmall)⟩, fun _ => intervalMicros_small h0 hsmall⟩
  · rcases lt_or_ge ms 9007199254741 with hhigh | hlarge
    · rw [intervalMicros_middle hlow hhigh]
      exact ⟨fun h => ⟨hmax, fun hdrift => h hdrift.2.2⟩, fun h hdrift => h.2 ⟨hlow, hhigh, hdrift⟩⟩
    · exact ⟨fun _ => ⟨hmax, fun h => absurd h.2.1 (not_lt.mpr hlarge)⟩,
        fun _ => intervalMicros_large hlarge hmax⟩

-- ============================================================================
-- Overflow
-- ============================================================================

theorem milliseconds_eq {ms : Int} (h0 : 0 ≤ ms) (hmax : ms ≤ 9223372036854) :
    milliseconds ms = ms * 1000000 :=
  Int.bmod_eq_of_le_mul_two (by omega) (by omega)

theorem representable_intCast {n : Int} (hn : |n| ≤ 2 ^ 53) : Representable 2 53 (n : ℚ) :=
  representable_double n 0 hn (by norm_num)

/-- The seconds of a duration of 64 bits, in steps of `2 ^ -19`. -/
theorem durationSeconds_le {d : Int} (hd : d < 2 ^ 63) :
    durationSeconds d ≤ 9223372036 + 448150 / 2 ^ 19 := by
  have hbound : Representable 2 53 ((9223372036 : ℚ) + 448150 / 2 ^ 19) :=
    representable_double (9223372036 * 2 ^ 19 + 448150) (-19) (by decide) (by norm_num)
  refine double_le hbound (by norm_num) ?_
  rcases le_or_gt d 0 with hneg | hpos
  · obtain ⟨m, hm, rfl⟩ : ∃ m, 0 ≤ m ∧ d = -m := ⟨-d, by omega, by omega⟩
    have hzero : Representable 2 53 (0 : ℚ) := by exact_mod_cast representable_intCast (n := 0) (by decide)
    have hseconds : (((-m).tdiv 1000000000 : ℤ) : ℚ) ≤ 0 := by
      rw [Int.neg_tdiv]
      exact_mod_cast neg_nonpos.mpr (Int.tdiv_nonneg hm (by decide))
    have hrest : (((-m).tmod 1000000000 : ℤ) : ℚ) ≤ 0 := by
      rw [Int.neg_tmod]
      exact_mod_cast neg_nonpos.mpr (Int.tmod_nonneg _ hm)
    have hseconds' := double_le hzero le_rfl hseconds
    have hrest' := double_le hzero le_rfl
      (div_nonpos_of_nonpos_of_nonneg (double_le hzero le_rfl hrest) (by norm_num : (0 : ℚ) ≤ 1000000000))
    linarith
  · have hdiv : d.tdiv 1000000000 = d / 1000000000 := Int.tdiv_eq_ediv_of_nonneg hpos.le
    have hmod : d.tmod 1000000000 = d % 1000000000 := Int.tmod_eq_emod_of_nonneg hpos.le
    rw [hdiv, hmod, double_intCast (by rw [abs_le]; omega), double_intCast (by rw [abs_le]; omega)]
    rcases le_or_gt (d / 1000000000) 9223372035 with hsmall | hlast
    · have hone : double (((d % 1000000000 : ℤ) : ℚ) / 1000000000) ≤ 1 := by
        have hrest : ((d % 1000000000 : ℤ) : ℚ) ≤ 1000000000 := by
          exact_mod_cast (by omega : d % 1000000000 ≤ 1000000000)
        exact double_le (by exact_mod_cast representable_intCast (n := 1) (by decide)) (by norm_num)
          (by linarith)
      have hsecondsq : ((d / 1000000000 : ℤ) : ℚ) ≤ 9223372035 := by exact_mod_cast hsmall
      linarith
    · have hstep : double (((d % 1000000000 : ℤ) : ℚ) / 1000000000) ≤ 448150 / 2 ^ 19 := by
        have hrest : ((d % 1000000000 : ℤ) : ℚ) ≤ 854775807 := by
          exact_mod_cast (by omega : d % 1000000000 ≤ 854775807)
        exact double_le (representable_double 448150 (-19) (by decide) (by norm_num)) (by norm_num)
          (by linarith)
      have hsecondsq : ((d / 1000000000 : ℤ) : ℚ) ≤ 9223372036 := by
        exact_mod_cast (by omega : d / 1000000000 ≤ 9223372036)
      linarith

/-- No duration of 64 bits makes more microseconds than its bound. -/
theorem intervalMicros_le {d : Int} (hd : d < 2 ^ 63) :
    intervalMicros (durationSeconds d) ≤ 9223372036854780 := by
  have hbound : Representable 2 53 (9223372036854780 : ℚ) :=
    representable_double 2305843009213695 2 (by decide) (by norm_num)
  have hmicros : double (1000000 * durationSeconds d) ≤ ((9223372036854780 : ℤ) : ℚ) := by
    have hseconds := durationSeconds_le hd
    exact_mod_cast double_le hbound (by norm_num) (by linarith)
  exact (rint_mono hmicros).trans_eq (rint_intCast _)

theorem milliseconds_lt (ms : Int) : milliseconds ms < 2 ^ 63 := by
  have h := Int.bmod_lt (x := ms * 1000000) (m := 2 ^ 64) (by decide)
  rw [milliseconds]
  omega

theorem positiveOr_lt {default d : Int} (hdefault : default < 2 ^ 63) (hd : d < 2 ^ 63) :
    positiveOr default d < 2 ^ 63 := by
  rw [positiveOr]
  split
  · exact hdefault
  · exact hd

/-- A deadline over the bound of 64 bits is not the requested one. -/
theorem deadlineAfter_ne {now ms d : Int} (hover : 9223372036854 < ms) (hd : d < 2 ^ 63) :
    deadlineAfter now d ≠ now + ms * 1000 := by
  have hbound := intervalMicros_le hd
  rw [deadlineAfter]
  omega

theorem deadlineAfter_iff {now default ms : Int} (hdefault : default < 2 ^ 63)
    (hmicros : intervalMicros (durationSeconds default) = default / 1000) (h0 : 0 ≤ ms) :
    deadlineAfter now (positiveOr default (milliseconds ms)) = requestedDeadline now default ms ↔
      Honoured ms := by
  rw [requestedDeadline]
  rcases h0.eq_or_lt with rfl | hpos
  · have hzero : positiveOr default (milliseconds 0) = default := rfl
    rw [hzero, deadlineAfter, hmicros]
    exact ⟨fun _ => ⟨by decide, by omega⟩, fun _ => rfl⟩
  · rw [if_neg hpos.ne']
    rcases le_or_gt ms 9223372036854 with hmax | hover
    · have hlease : positiveOr default (milliseconds ms) = ms * 1000000 := by
        rw [positiveOr, milliseconds_eq h0 hmax, if_neg (by omega)]
      rw [hlease, deadlineAfter, add_right_inj, intervalMicros_eq_iff hpos hmax]
    · exact ⟨fun h => absurd h (deadlineAfter_ne hover (positiveOr_lt hdefault (milliseconds_lt ms))),
        fun h => absurd h.1 (not_le.mpr hover)⟩

theorem intervalMicros_minute : intervalMicros (durationSeconds minute) = minute / 1000 := by
  decide +kernel

/-- The delay of a timer node that asks for none. -/
theorem intervalMicros_shortDelay : intervalMicros (durationSeconds 25000000) = 25000000 / 1000 := by
  decide +kernel

/-- The deadlines of claims, heartbeats and timers are the requested ones exactly for the
    milliseconds that are honoured. -/
theorem requested_lease_honoured (now ms : Int) (h0 : 0 ≤ ms) :
    (claimDeadline now ms = requestedDeadline now minute ms ↔ Honoured ms) ∧
      (heartbeatDeadline now ms = requestedDeadline now minute ms ↔ Honoured ms) ∧
      ∀ node : Node, node.delay = milliseconds ms →
        (timerDue now node = requestedDeadline now 25000000 ms ↔ Honoured ms) := by
  refine ⟨deadlineAfter_iff (by decide) intervalMicros_minute h0,
    deadlineAfter_iff (by decide) intervalMicros_minute h0, fun node hnode => ?_⟩
  have hdelay : timerDelay node = positiveOr 25000000 (milliseconds ms) := by
    rw [← hnode]
    rfl
  rw [timerDue, hdelay]
  exact deadlineAfter_iff (by decide) intervalMicros_shortDelay h0

theorem requested_lease_honoured_minutes :
    claimDeadline 5 90000 = 90000005 ∧ heartbeatDeadline 5 0 = 60000005 ∧
      timerDue 5 ⟨"wait", "timer", [], [], "", milliseconds 90000⟩ = 90000005 := by
  have honoured : ∀ ms : Int, ms < 8589934592000 → Honoured ms := fun ms h => ⟨by omega, by omega⟩
  obtain ⟨hclaim, -, htimer⟩ := requested_lease_honoured 5 90000 (by decide)
  obtain ⟨-, hheartbeat, -⟩ := requested_lease_honoured 5 0 (by decide)
  exact ⟨hclaim.mpr (honoured _ (by decide)), hheartbeat.mpr (honoured _ (by decide)),
    (htimer _ rfl).mpr (honoured _ (by decide))⟩

/-- A lease of 292 years becomes the default of a minute, one of 584 years less than half a
    millisecond, a delay of 292 years 25 milliseconds; and a lease of 272 years loses a microsecond. -/
theorem lease_wraps :
    claimDeadline 0 9223372036855 = 60000000 ∧ heartbeatDeadline 0 18446744073710 = 448 ∧
      timerDue 0 ⟨"wait", "timer", [], [], "", milliseconds 9223372036855⟩ = 25000 ∧
      claimDeadline 0 8589934592001 = 8589934592000999 := by
  decide +kernel

end DurableEngine.Api
