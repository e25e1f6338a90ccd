import Graft.Text.Basic

/-
Points in time.

  `Moment`                a day, a time of day and an offset, as they are written;
  `Moment.flaw? m`        the first of them that does not exist;
  `Moment.Flaw.message`   what is said about it.

The offset is looked at first, then the day from the year on, then the time from the hour on.
-/
namespace Graft

/-- A day, a time of day and an offset, as they are written. -/
structure Moment where
  year : Nat
  month : Nat
  day : Nat
  hour : Nat := 0
  minute : Nat := 0
  second : Nat := 0
  -- How many minutes the time is ahead of the universal time.
  offset : Int := 0
  deriving DecidableEq, Repr

namespace Moment

/-- What a point in time can have wrong. -/
inductive Flaw where
  -- The offset, in minutes, is a day or more.
  | offset (minutes : Int)
  | year (n : Nat)
  | month
  | day
  | hour
  | minute
  | second
  deriving DecidableEq, Repr

/-- Whether a year has a day more. -/
def isLeap (year : Nat) : Bool := year % 4 == 0 && (year % 100 != 0 || year % 400 == 0)

def daysIn (year month : Nat) : Nat :=
  if month = 2 then if isLeap year then 29 else 28
  else if [4, 6, 9, 11].contains month then 30
  else 31

def minutesOfDay : Nat := 24 * 60

/-- The first thing wrong with a point in time. -/
def flaw? (m : Moment) : Option Flaw :=
  if minutesOfDay ≤ m.offset.natAbs then some (.offset m.offset)
  else if m.year < 1 ∨ 9999 < m.year then some (.year m.year)
  else if m.month < 1 ∨ 12 < m.month then some .month
  else if m.day < 1 ∨ daysIn m.year m.month < m.day then some .day
  else if 23 < m.hour then some .hour
  else if 59 < m.minute then some .minute
  else if 59 < m.second then some .second
  else none

/-- A span of minutes, as days and the seconds that are left of the last one. -/
def spanText (minutes : Int) : Text :=
  let seconds := minutes % (minutesOfDay : Int) * 60
  "datetime.timedelta(days=".toList ++ Text.ofInt (minutes / (minutesOfDay : Int)) ++
    (if seconds = 0 then [] else ", seconds=".toList ++ Text.ofInt seconds) ++ [')']

def Flaw.message : Flaw → Text
  | offset minutes =>
    "offset must be a timedelta strictly between -timedelta(hours=24) and ".toList ++
      "timedelta(hours=24), not ".toList ++ spanText minutes ++ ['.']
  | year n => "year ".toList ++ Text.decimal n ++ " is out of range".toList
  | month => "month must be in 1..12".toList
  | day => "day is out of range for month".toList
  | hour => "hour must be in 0..23".toList
  | minute => "minute must be in 0..59".toList
  | second => "second must be in 0..59".toList

end Moment
end Graft
