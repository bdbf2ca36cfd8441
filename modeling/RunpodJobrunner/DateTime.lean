import RunpodJobrunner.Numerals
import Mathlib.Data.Int.Notation

/-!
# Datetimes

A `datetime` by its fields, with the offset from UTC when it is timezone-aware.
Aware datetimes are compared and subtracted as instants, counted in microseconds
on the proleptic Gregorian calendar.
-/

namespace RunpodJobrunner

/-- A `datetime`. -/
structure DateTime where
  year : ℕ
  month : ℕ
  day : ℕ
  hour : ℕ
  minute : ℕ
  second : ℕ
  microsecond : ℕ
  /-- `utcoffset()` in microseconds; `none` when `tzinfo` is `None` -/
  offset : Option ℤ
  deriving DecidableEq

namespace DateTime

/-- `tzinfo is not None`. -/
def isAware (d : DateTime) : Bool := d.offset.isSome

/-- Leap years. -/
def isLeap (year : ℕ) : Bool := year % 4 == 0 && (year % 100 != 0 || year % 400 == 0)

/-- Days before a month, within its year. -/
def daysBeforeMonth (year month : ℕ) : ℕ :=
  let days := [0, 31, 59, 90, 120, 151, 181, 212, 243, 273, 304, 334].getD (month - 1) 0
  if 2 < month && isLeap year then days + 1 else days

/-- `d.toordinal()`. -/
def ordinal (d : DateTime) : ℕ :=
  let y := d.year - 1
  y * 365 + y / 4 - y / 100 + y / 400 + daysBeforeMonth d.year d.month + d.day

/-- The instant of an aware datetime, in microseconds. -/
def instant (d : DateTime) : ℤ :=
  ((((d.ordinal * 24 + d.hour) * 60 + d.minute) * 60 + d.second) * 1000000 + d.microsecond : ℕ) -
    d.offset.getD 0

/-- `(later - earlier)` of aware datetimes, in microseconds. -/
def elapsed (later earlier : DateTime) : ℤ := later.instant - earlier.instant

/-- A number written with a minimal width. -/
def padded (width n : ℕ) : Text := List.replicate (width - (natText n).length) 48 ++ natText n

/-- The offset part of `isoformat`: `+HH:MM[:SS[.ffffff]]`. -/
def offsetText (offset : ℤ) : Text :=
  let us := offset.natAbs
  let seconds := us / 1000000
  (if offset < 0 then [45] else [43]) ++ padded 2 (seconds / 3600) ++ [58] ++
    padded 2 (seconds / 60 % 60) ++
    (if seconds % 60 = 0 ∧ us % 1000000 = 0 then []
      else [58] ++ padded 2 (seconds % 60) ++
        (if us % 1000000 = 0 then [] else [46] ++ padded 6 (us % 1000000)))

/-- `d.isoformat()`. -/
def isoformat (d : DateTime) : Text :=
  padded 4 d.year ++ [45] ++ padded 2 d.month ++ [45] ++ padded 2 d.day ++ [84] ++
    padded 2 d.hour ++ [58] ++ padded 2 d.minute ++ [58] ++ padded 2 d.second ++
    (if d.microsecond = 0 then [] else [46] ++ padded 6 d.microsecond) ++
    (match d.offset with
      | none => []
      | some offset => offsetText offset)

example : (⟨2026, 7, 4, 9, 30, 0, 250, some 0⟩ : DateTime).isoformat =
    txt "2026-07-04T09:30:00.000250+00:00" := by decide

end DateTime

end RunpodJobrunner
