import Mathlib.Order.Lattice
import Mathlib.Order.BoundedOrder.Basic
import Mathlib.Data.Int.Order.Basic
import Mathlib.Tactic.Linarith

/-! `chrono::DateTime<Utc>`.

A moment is a count of seconds in the range the library can hold and a count of
nanoseconds, which reaches two thousand million inside a leap second. Moments
compare by seconds first. The texts are the ones the code prints: RFC 3339,
which is what a moment is in JSON and in TOML, and `Display`, for messages. -/
namespace Attest.Trust

/-- The seconds of `DateTime::<Utc>::MIN_UTC`, the start of year -262143. -/
def minSecs : Int := -8334601228800

/-- The seconds of `DateTime::<Utc>::MAX_UTC`, the end of year 262142. -/
def maxSecs : Int := 8210266876799

structure DateTime where
  secs : Int
  nanos : Nat
  inRange : minSecs ≤ secs ∧ secs ≤ maxSecs
  nanos_lt : nanos < 2000000000
deriving DecidableEq

namespace DateTime

/-! ### Order -/

/-- One number that orders moments: no second has as many as two thousand million nanoseconds. -/
def ticks (t : DateTime) : Int := t.secs * 2000000000 + t.nanos

theorem ticks_injective : Function.Injective ticks := by
  rintro ⟨s, n, hs, hn⟩ ⟨s', n', hs', hn'⟩ h
  simp only [ticks] at h
  have hsec : s = s' := by omega
  have hnano : n = n' := by omega
  subst hsec hnano
  rfl

instance : LinearOrder DateTime := LinearOrder.lift' ticks ticks_injective

theorem zero_nanos_lt : 0 < 2000000000 := by decide

/-- `DateTime::<Utc>::MIN_UTC`. -/
def minUtc : DateTime := ⟨minSecs, 0, by decide, zero_nanos_lt⟩

instance : OrderBot DateTime where
  bot := minUtc
  bot_le t := by
    show minUtc.ticks ≤ t.ticks
    have := t.inRange.1
    simp only [ticks, minUtc]
    omega

/-! ### Text -/

/-- `write_hundreds`, and every other zero-padded number. -/
def padded (width n : Nat) : String := String.ofList ((Nat.toDigits 10 n).leftpad width '0')

/-- Year, month and day of a day counted from 1970-01-01, in the proleptic Gregorian calendar.
Eras of 400 years start on the first of March, so that a leap day ends its year. -/
def civil (day : Int) : Int × Nat × Nat :=
  let era := (day + 719468) / 146097
  let doe := ((day + 719468) % 146097).toNat
  let yoe := (doe - doe / 1460 + doe / 36524 - doe / 146096) / 365
  let doy := doe - (365 * yoe + yoe / 4 - yoe / 100)
  let mp := (5 * doy + 2) / 153
  let month := if mp < 10 then mp + 3 else mp - 9
  (era * 400 + yoe + (if month ≤ 2 then 1 else 0), month, doy - (153 * mp + 2) / 5 + 1)

/-- Four digits, or a sign and at least four digits outside the years 0 to 9999. -/
def yearText (y : Int) : String :=
  if 0 ≤ y ∧ y ≤ 9999 then padded 4 y.toNat
  else (if y < 0 then "-" else "+") ++ padded 4 y.natAbs

def dateText (t : DateTime) : String :=
  let (year, month, day) := civil (t.secs / 86400)
  yearText year ++ "-" ++ padded 2 month ++ "-" ++ padded 2 day

/-- The fraction as short as three, six or nine digits allow, and none when it is zero. -/
def fractionText (nanos : Nat) : String :=
  if nanos = 0 then ""
  else if nanos % 1000000 = 0 then "." ++ padded 3 (nanos / 1000000)
  else if nanos % 1000 = 0 then "." ++ padded 6 (nanos / 1000)
  else "." ++ padded 9 nanos

/-- A leap second is written as second 60. -/
def timeText (t : DateTime) : String :=
  let second := (t.secs % 86400).toNat
  padded 2 (second / 3600) ++ ":" ++ padded 2 (second / 60 % 60) ++ ":" ++
    padded 2 (second % 60 + t.nanos / 1000000000) ++ fractionText (t.nanos % 1000000000)

/-- The serde form of a moment. -/
def rfc3339 (t : DateTime) : String := t.dateText ++ "T" ++ t.timeText ++ "Z"

/-- `to_rfc3339`, which writes the offset in full. -/
def toRfc3339 (t : DateTime) : String := t.dateText ++ "T" ++ t.timeText ++ "+00:00"

/-- `Display`. -/
instance : ToString DateTime := ⟨fun t => t.dateText ++ " " ++ t.timeText ++ " UTC"⟩

example : rfc3339 ⟨1785542400, 5000000, by decide, by decide⟩ = "2026-08-01T00:00:00.005Z" := by
  decide +kernel

example : rfc3339 minUtc = "-262143-01-01T00:00:00Z" := by decide +kernel

example : rfc3339 ⟨1483228799, 1000000000, by decide, by decide⟩ = "2016-12-31T23:59:60Z" := by
  decide +kernel

end DateTime

end Attest.Trust
