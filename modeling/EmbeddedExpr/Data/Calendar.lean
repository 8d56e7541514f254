/-
  EmbeddedExpr.Data.Calendar
  ──────────────────────────
  **DATES AND TIMES OF DAY.**

  Dates are those of the Gregorian calendar, years 1 to 9999.  A time of day may be that of a
  zone; times in zones are the same when they name one instant.
-/
import EmbeddedExpr.Text.Digits

namespace EmbeddedExpr

/-- A day of the calendar. -/
structure Date where
  year : Nat
  month : Nat
  day : Nat
  deriving DecidableEq, Repr

/-- A time zone: the seconds by which it is ahead of the common time, and how it is written. -/
structure Zone where
  offset : Int
  name : String
  deriving DecidableEq, Repr

/-- A day and a time of day. -/
structure Timestamp where
  date : Date
  hour : Nat
  minute : Nat
  second : Nat
  microsecond : Nat
  zone : Option Zone
  deriving DecidableEq, Repr

/-! ## §1. The calendar. -/

namespace Date

/-- A year of 366 days. -/
def isLeap (year : Nat) : Bool := year % 4 = 0 && (year % 100 ≠ 0 || year % 400 = 0)

/-- The days of a month. -/
def daysIn (year month : Nat) : Nat :=
  if month = 2 then (if isLeap year then 29 else 28)
  else if [4, 6, 9, 11].contains month then 30 else 31

/-- The last year of the calendar. -/
def lastYear : Nat := 9999

/-- The day exists. -/
def isValid (d : Date) : Bool :=
  1 ≤ d.year && d.year ≤ lastYear && 1 ≤ d.month && d.month ≤ 12 && 1 ≤ d.day
    && d.day ≤ daysIn d.year d.month

/-- The day after. -/
def next (d : Date) : Date :=
  if d.day < daysIn d.year d.month then { d with day := d.day + 1 }
  else if d.month < 12 then ⟨d.year, d.month + 1, 1⟩
  else ⟨d.year + 1, 1, 1⟩

/-- The number of the day, counted from the day before the calendar's first one. -/
def number (d : Date) : Nat :=
  let years := d.year - 1
  let months := (List.range (d.month - 1)).foldl (fun days m => days + daysIn d.year (m + 1)) 0
  365 * years + years / 4 - years / 100 + years / 400 + months + d.day

end Date

/-! ## §2. Times. -/

/-- A zone is less than a day away from the common time. -/
def Zone.isValid (z : Zone) : Bool := z.offset.natAbs < 86400

namespace Timestamp

/-- The time exists. -/
def isValid (t : Timestamp) : Bool :=
  t.date.isValid && t.hour < 24 && t.minute < 60 && t.second < 60 && t.microsecond < 1000000
    && t.zone.all Zone.isValid

/-- The time one second later. -/
def nextSecond (t : Timestamp) : Timestamp :=
  if t.second < 59 then { t with second := t.second + 1 }
  else if t.minute < 59 then { t with minute := t.minute + 1, second := 0 }
  else if t.hour < 23 then { t with hour := t.hour + 1, minute := 0, second := 0 }
  else { t with date := t.date.next, hour := 0, minute := 0, second := 0 }

/-- The seconds of the time, in the common time when it has a zone. -/
def seconds (t : Timestamp) : Int :=
  (t.date.number * 86400 + t.hour * 3600 + t.minute * 60 + t.second : Nat)
    - (t.zone.map Zone.offset).getD 0

/-- Two times name one instant, or are the same without a zone. -/
def same (a b : Timestamp) : Bool :=
  a.zone.isSome = b.zone.isSome && a.seconds = b.seconds && a.microsecond = b.microsecond

end Timestamp

/-! ## §3. Written forms. -/

/-- A date as year, month and day. -/
def Date.render (d : Date) : List Char :=
  Text.decimalDigits 4 d.year ++ '-' :: Text.decimalDigits 2 d.month
    ++ '-' :: Text.decimalDigits 2 d.day

/-- A zone as hours and minutes with a sign. -/
def Zone.render (z : Zone) : List Char :=
  let minutes := z.offset.natAbs / 60
  (if z.offset < 0 then '-' else '+') :: Text.decimalDigits 2 (minutes / 60)
    ++ ':' :: Text.decimalDigits 2 (minutes % 60)

/-- A date, a blank, the time of day, with microseconds when there are any, and the zone. -/
def Timestamp.render (t : Timestamp) : List Char :=
  t.date.render ++ ' ' :: Text.decimalDigits 2 t.hour ++ ':' :: Text.decimalDigits 2 t.minute
    ++ ':' :: Text.decimalDigits 2 t.second
    ++ (if t.microsecond = 0 then [] else '.' :: Text.decimalDigits 6 t.microsecond)
    ++ (match t.zone with
      | some z => z.render
      | none => [])

end EmbeddedExpr
