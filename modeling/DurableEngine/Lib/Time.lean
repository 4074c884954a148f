/-
  DurableEngine.Lib.Time

  Instants and durations as texts, in nanoseconds: the RFC 3339 form of an
  instant in UTC and the short form of a duration.
-/

import Mathlib

namespace DurableEngine.Lib

/-- A number with leading zeros up to the width. -/
def withZeros (width n : Nat) : String :=
  let digits := toString n
  "".pushn '0' (width - digits.length) ++ digits

/-- The decimal places of a fraction, without the zeros at its end. -/
def fractionText (places n : Nat) : String :=
  let digits := ((withZeros places n).toList.reverse.dropWhile (· = '0')).reverse
  if digits = [] then "" else "." ++ String.ofList digits

/-- Year, month and day of a day number, counted from 1970-01-01; the eras of four hundred years
    start in March. -/
def civilDate (days : Int) : Int × Int × Int :=
  let shifted := days + 719468
  let era := shifted / 146097
  let dayOfEra := shifted - era * 146097
  let yearOfEra := (dayOfEra - dayOfEra / 1460 + dayOfEra / 36524 - dayOfEra / 146096) / 365
  let dayOfYear := dayOfEra - (365 * yearOfEra + yearOfEra / 4 - yearOfEra / 100)
  let shiftedMonth := (5 * dayOfYear + 2) / 153
  let month := if shiftedMonth < 10 then shiftedMonth + 3 else shiftedMonth - 9
  let year := yearOfEra + era * 400
  (if month ≤ 2 then year + 1 else year, month, dayOfYear - (153 * shiftedMonth + 2) / 5 + 1)

/-- Nanoseconds of a second. -/
def nanos : Nat := 1000000000

/-- `time.RFC3339Nano` of an instant in UTC. -/
def rfc3339Nano (t : Int) : String :=
  let dayLength : Int := 86400 * nanos
  let (year, month, day) := civilDate (t / dayLength)
  let rest := (t % dayLength).toNat
  let seconds := rest / nanos
  withZeros 4 year.toNat ++ "-" ++ withZeros 2 month.toNat ++ "-" ++ withZeros 2 day.toNat ++ "T" ++
    withZeros 2 (seconds / 3600) ++ ":" ++ withZeros 2 (seconds / 60 % 60) ++ ":" ++
    withZeros 2 (seconds % 60) ++ fractionText 9 (rest % nanos) ++ "Z"

/-- The size of a duration. -/
def durationSize (d : Nat) : String :=
  if d = 0 then "0s"
  else if d < 1000 then toString d ++ "ns"
  else if d < 1000000 then toString (d / 1000) ++ fractionText 3 (d % 1000) ++ "µs"
  else if d < nanos then toString (d / 1000000) ++ fractionText 6 (d % 1000000) ++ "ms"
  else
    let seconds := d / nanos
    let hours := if seconds < 3600 then "" else toString (seconds / 3600) ++ "h"
    let minutes := if seconds < 60 then "" else toString (seconds / 60 % 60) ++ "m"
    hours ++ minutes ++ toString (seconds % 60) ++ fractionText 9 (d % nanos) ++ "s"

/-- `Duration.String`. -/
def durationText (d : Int) : String :=
  if d < 0 then "-" ++ durationSize d.natAbs else durationSize d.natAbs

example : rfc3339Nano 1709210096120000000 = "2024-02-29T12:34:56.12Z" := by decide +kernel

example : durationText 3661500000000 = "1h1m1.5s" := by decide +kernel

end DurableEngine.Lib
