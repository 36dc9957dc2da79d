/-
Points in time.

A timestamp counts seconds since the start of 1970 in UTC, and nanoseconds within the second; during
a leap second the nanoseconds go on past one milliard.  It is written as date, `T` and time, with a
fraction of three, six or nine digits if there is one, and a zone.  The reader is lenient: numbers
need not be padded, blanks may stand around them, and a blank may stand for the `T`.
-/
import Roster.Text.Blank
import Roster.Text.Decimal

namespace Roster

/-- A number of seconds since 1970, and of nanoseconds within the second. -/
structure Timestamp where
  seconds : Int
  nanos : Nat
  deriving DecidableEq, Repr

namespace Timestamp

open Text (isBlank trimLeft)
open Text.Decimal (isDigit digits ofDigits)

/-- A day of the Gregorian calendar. -/
structure Date where
  year : Int
  month : Nat
  day : Nat
  deriving DecidableEq, Repr

def isLeap (year : Int) : Bool := year % 4 == 0 && (year % 100 != 0 || year % 400 == 0)

def daysInMonth (year : Int) (month : Nat) : Nat :=
  if month = 2 then (if isLeap year then 29 else 28)
  else if month = 4 ∨ month = 6 ∨ month = 9 ∨ month = 11 then 30
  else 31

/-- The years that dates may have. -/
def IsYear (year : Int) : Prop := -262143 ≤ year ∧ year ≤ 262142

instance (year : Int) : Decidable (IsYear year) := by unfold IsYear; infer_instance

def Date.valid (d : Date) : Bool :=
  IsYear d.year && 1 ≤ d.month && d.month ≤ 12 && 1 ≤ d.day && d.day ≤ daysInMonth d.year d.month

/-- The number of days since the first day of 1970.  Years are counted from March, so that a leap
day is the last day of its year. -/
def ofDate (d : Date) : Int :=
  let year := if d.month ≤ 2 then d.year - 1 else d.year
  let era := year / 400
  let yearOfEra := year % 400
  let dayOfYear : Int := (153 * ((d.month + 9) % 12) + 2) / 5 + d.day - 1
  let dayOfEra := yearOfEra * 365 + yearOfEra / 4 - yearOfEra / 100 + dayOfYear
  era * 146097 + dayOfEra - 719468

/-- The day that is a number of days after the first day of 1970. -/
def toDate (days : Int) : Date :=
  let shifted := days + 719468
  let era := shifted / 146097
  let dayOfEra := shifted % 146097
  let yearOfEra := (dayOfEra - dayOfEra / 1460 + dayOfEra / 36524 - dayOfEra / 146096) / 365
  let dayOfYear := dayOfEra - (365 * yearOfEra + yearOfEra / 4 - yearOfEra / 100)
  let month := (5 * dayOfYear + 2) / 153
  let day := dayOfYear - (153 * month + 2) / 5 + 1
  let month := if month < 10 then month + 3 else month - 9
  let year := yearOfEra + era * 400
  ⟨if month ≤ 2 then year + 1 else year, month.toNat, day.toNat⟩

/-! ### Writing -/

def padded (width : Nat) (n : Nat) : List Char :=
  let ds := digits n
  List.replicate (width - ds.length) '0' ++ ds

/-- A year: four digits, or a sign and at least four digits outside of that range. -/
def yearText (year : Int) : List Char :=
  if 0 ≤ year ∧ year ≤ 9999 then padded 4 year.toNat
  else (if year < 0 then '-' else '+') :: padded 4 year.natAbs

/-- A fraction of a second in as few groups of three digits as it needs. -/
def fractionText (nanos : Nat) : List Char :=
  if nanos = 0 then []
  else if nanos % 1000000 = 0 then '.' :: padded 3 (nanos / 1000000)
  else if nanos % 1000 = 0 then '.' :: padded 6 (nanos / 1000)
  else '.' :: padded 9 nanos

/-- The date and time in UTC, followed by the given name of the zone. -/
def textWith (zone : List Char) (t : Timestamp) : String :=
  let date := toDate (t.seconds / 86400)
  let second := (t.seconds % 86400).toNat
  let leap := t.nanos / 1000000000
  String.ofList <|
    yearText date.year ++ '-' :: padded 2 date.month ++ '-' :: padded 2 date.day ++
      'T' :: padded 2 (second / 3600) ++ ':' :: padded 2 (second / 60 % 60) ++
      ':' :: padded 2 (second % 60 + leap) ++ fractionText (t.nanos % 1000000000) ++ zone

/-- The date and time with the zone `Z`. -/
def text (t : Timestamp) : String := t.textWith ['Z']

def textWithOffset (t : Timestamp) : String := t.textWith ['+', '0', '0', ':', '0', '0']

/-! ### Reading -/

/-- The digits a text starts with, at most so many of them, as a number. -/
def readNumber? (width : Nat) (cs : List Char) : Option (Nat × List Char) :=
  let ds := (cs.take width).takeWhile isDigit
  if ds = [] then none else some (ofDigits ds, cs.drop ds.length)

def readField? (width : Nat) (cs : List Char) : Option (Nat × List Char) :=
  readNumber? width (trimLeft cs)

/-- A year after blanks: at most four digits, or any number of them after a sign. -/
def readYear? (cs : List Char) : Option (Int × List Char) :=
  match trimLeft cs with
  | '-' :: rest => (readNumber? rest.length rest).map fun (n, rest) => (-(n : Int), rest)
  | '+' :: rest => (readNumber? rest.length rest).map fun (n, rest) => ((n : Int), rest)
  | rest => (readNumber? 4 rest).map fun (n, rest) => ((n : Int), rest)

def expect? (c : Char) (cs : List Char) : Option (List Char) :=
  match trimLeft cs with
  | d :: rest => if d = c then some rest else none
  | [] => none

/-- A fraction of a second in nanoseconds, if there is one; digits past the ninth are dropped. -/
def readFraction? : List Char → Option (Nat × List Char)
  | '.' :: cs =>
    let ds := (cs.take 9).takeWhile isDigit
    if ds = [] then none
    else some (ofDigits ds * Nat.pow 10 (9 - ds.length), cs.dropWhile isDigit)
  | cs => some (0, cs)

def readPair? : List Char → Option (Nat × List Char)
  | a :: b :: rest => if isDigit a ∧ isDigit b then some (ofDigits [a, b], rest) else none
  | _ => none

/-- The hours and minutes of an offset, in seconds. -/
def readHoursMinutes? (cs : List Char) : Option (Nat × List Char) := do
  let (hours, rest) ← readPair? cs
  let (minutes, rest) ← readPair? (rest.dropWhile fun c => c == ':' || isBlank c)
  if minutes < 60 then some (hours * 3600 + minutes * 60, rest) else none

/-- An offset from UTC in seconds: `Z`, `UTC`, or a sign with hours and minutes. -/
def readOffset? : List Char → Option (Int × List Char)
  | 'Z' :: rest => some (0, rest)
  | 'z' :: rest => some (0, rest)
  | '+' :: rest => (readHoursMinutes? rest).map fun (n, rest) => ((n : Int), rest)
  | '-' :: rest => (readHoursMinutes? rest).map fun (n, rest) => (-(n : Int), rest)
  | '−' :: rest => (readHoursMinutes? rest).map fun (n, rest) => (-(n : Int), rest)
  | u :: t :: c :: rest =>
    if (u = 'U' ∨ u = 'u') ∧ (t = 'T' ∨ t = 't') ∧ (c = 'C' ∨ c = 'c') then some (0, rest) else none
  | _ => none

/-- The time on a clock that stands at an offset from UTC. -/
def ofClock? (date : Date) (hour minute second nanos : Nat) (offset : Int) : Option Timestamp :=
  if date.valid ∧ hour < 24 ∧ minute < 60 ∧ second ≤ 60 ∧ offset.natAbs < 86400 then
    let t : Int := ofDate date * 86400 + hour * 3600 + minute * 60 + min second 59 - offset
    if IsYear (toDate (t / 86400)).year then
      some ⟨t, if second = 60 then 1000000000 + nanos else nanos⟩
    else none
  else none

/-- Reads a date, a time and a zone. -/
def read? (s : String) : Option Timestamp := do
  let (year, rest) ← readYear? s.toList
  let (month, rest) ← readField? 2 (← expect? '-' rest)
  let (day, rest) ← readField? 2 (← expect? '-' rest)
  let rest ←
    match rest with
    | 't' :: rest => some rest
    | 'T' :: rest => some rest
    | ' ' :: rest => some rest
    | _ => none
  let (hour, rest) ← readField? 2 rest
  let (minute, rest) ← readField? 2 (← expect? ':' rest)
  let (second, rest) ← readField? 2 (← expect? ':' rest)
  let (nanos, rest) ← readFraction? rest
  let (offset, rest) ← readOffset? (trimLeft rest)
  if trimLeft rest = [] then ofClock? ⟨year, month, day⟩ hour minute second nanos offset else none

def before (t u : Timestamp) : Bool :=
  t.seconds < u.seconds || (t.seconds == u.seconds && t.nanos < u.nanos)

/-- The whole seconds from a time to a later one, zero if it is not later. -/
def secondsUntil (t u : Timestamp) : Nat :=
  let d := u.seconds - t.seconds
  (if u.nanos < t.nanos then d - 1 else d).toNat

end Timestamp

end Roster
