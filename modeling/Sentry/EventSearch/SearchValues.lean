import Sentry.EventSearch.Grammar
import Mathlib.Algebra.Order.Ring.Rat

/-!
# Numbers and dates of searches

The conversions that the visitor uses. Numbers are not rounded, and a date is the number of its
microseconds since the beginning of the year 1 in UTC, which is also the local time zone. A
conversion raises `InvalidQuery`, or an `OverflowError` that it does not catch.
-/

namespace Sentry.EventSearch

open Library (Peg)
open Library.Peg
open Grammar (Text isDigit isDecimal decimalValue)

/-- `InvalidQuery` with its text, or an error of the standard library that is not caught. -/
inductive ConversionError
  | invalidQuery (message : Text)
  | overflowError

abbrev Conversion (α : Type) : Type := Except ConversionError α

def invalidQuery {α : Type} (message : Text) : Conversion α :=
  .error (.invalidQuery message)

def digitsValue (digits : Text) : ℕ :=
  digits.foldl (fun n c ↦ 10 * n + (decimalValue c).getD 0) 0

/-- `float`, of the numbers that the grammar has. -/
def float (value : Text) : Option ℚ :=
  let (sign, rest) := match value with
    | '-' :: rest => ((-1 : ℚ), rest)
    | _ => (1, value)
  let whole := rest.takeWhile isDigit
  if whole = [] then none
  else match rest.dropWhile isDigit with
    | [] => some (sign * digitsValue whole)
    | '.' :: decimals =>
      if decimals.all isDigit then
        some (sign * (digitsValue whole + (digitsValue decimals : ℚ) / 10 ^ decimals.length))
      else none
    | _ :: _ => none

def parseNumericValue (value suffix : Text) : Conversion ℚ :=
  match float value with
  | none => invalidQuery "Invalid number".toList
  | some parsedValue =>
    if suffix = [] then .ok parsedValue
    else match suffix.map fun c ↦ if c = '\u212A' then 'k' else c.toLower with
      | ['k'] => .ok (parsedValue * 10 ^ 3)
      | ['m'] => .ok (parsedValue * 10 ^ 6)
      | ['b'] => .ok (parsedValue * 10 ^ 9)
      | suffix => invalidQuery
        (suffix ++ " is not a valid number suffix, must be k, m or b".toList)

def durationUnit (interval : Text) : Option ℚ :=
  if interval = ['m', 's'] then some 1
  else if interval = ['s'] then some 1000
  else if interval ∈ [['m', 'i', 'n'], ['m']] then some 60000
  else if interval ∈ [['h', 'r'], ['h']] then some 3600000
  else if interval ∈ [['d', 'a', 'y'], ['d']] then some 86400000
  else if interval ∈ [['w', 'k'], ['w']] then some 604800000
  else none

/-- The milliseconds of a duration, of which a `timedelta` holds less than 10 ^ 9 days. -/
def parseDuration (value interval : Text) : Conversion ℚ :=
  match float value with
  | none => invalidQuery (value ++ " is not a valid duration value".toList)
  | some duration =>
    match durationUnit interval with
    | none => invalidQuery (interval ++ (" is not a valid duration type, must be ms, s, min, m, " ++
        "hr, h, day, d, wk or w").toList)
    | some unit =>
      if duration * unit < 86400000 * 10 ^ 9 then .ok (duration * unit)
      else invalidQuery (value ++ interval ++ (" is too large of a value, the maximum value is " ++
        "999999999 days").toList)

def sizeUnit (size : Text) : Option ℚ :=
  ([(['b', 'i', 't'], 1 / 8), (['n', 'b'], 1 / 2), (['b', 'y', 't', 'e', 's'], 1),
    (['k', 'b'], 1000), (['m', 'b'], 1000 ^ 2), (['g', 'b'], 1000 ^ 3), (['t', 'b'], 1000 ^ 4),
    (['p', 'b'], 1000 ^ 5), (['e', 'b'], 1000 ^ 6), (['z', 'b'], 1000 ^ 7), (['y', 'b'], 1000 ^ 8),
    (['k', 'i', 'b'], 1024), (['m', 'i', 'b'], 1024 ^ 2), (['g', 'i', 'b'], 1024 ^ 3),
    (['t', 'i', 'b'], 1024 ^ 4), (['p', 'i', 'b'], 1024 ^ 5), (['e', 'i', 'b'], 1024 ^ 6),
    (['z', 'i', 'b'], 1024 ^ 7), (['y', 'i', 'b'], 1024 ^ 8)] : List (Text × ℚ)).lookup size

def parseSize (value size : Text) : Conversion ℚ :=
  match float value with
  | none => invalidQuery (value ++ " is not a valid size value".toList)
  | some sizeValue =>
    let size := size.map fun c ↦ if c = '\u212A' then 'k' else c.toLower
    match sizeUnit size with
    | some byte => .ok (sizeValue * byte)
    | none => invalidQuery (size ++ (" is not a valid size type, must be bit, bytes, kb, mb, gb" ++
        ", tb, pb, eb, zb, yb, kib, mib, gib, tib, pib, eib, zib, yib").toList)

def parsePercentage (value : Text) : Conversion ℚ :=
  match float value with
  | none => invalidQuery (value ++ " is not a valid percentage value".toList)
  | some parsedValue => .ok (parsedValue / 100)

def day : ℤ := 86400 * 10 ^ 6

def minute : ℤ := 60 * 10 ^ 6

def isLeap (year : ℕ) : Bool := year % 4 = 0 && (year % 100 ≠ 0 || year % 400 = 0)

def daysInMonth (year month : ℕ) : ℕ :=
  if month = 2 then if isLeap year then 29 else 28
  else if month ∈ [4, 6, 9, 11] then 30
  else 31

def ordinal (year month day : ℕ) : ℕ :=
  365 * (year - 1) + (year - 1) / 4 - (year - 1) / 100 + (year - 1) / 400 +
    ((List.range (month - 1)).map fun i ↦ daysInMonth year (i + 1)).sum + (day - 1)

/-- `datetime(year, month, day)`, or a `ValueError`. -/
def dateOf (year month day : ℕ) : Option ℤ :=
  if 1 ≤ year ∧ 1 ≤ month ∧ month ≤ 12 ∧ 1 ≤ day ∧ day ≤ daysInMonth year month then
    some (ordinal year month day * EventSearch.day)
  else none

def endOfTime : ℤ := ordinal 10000 1 1 * day

def inRange (date : ℤ) : Bool := 0 ≤ date && date < endOfTime

/-- `date + delta`. -/
def addDelta (date delta : ℤ) : Conversion ℤ :=
  if inRange (date + delta) then .ok (date + delta) else .error .overflowError

def digits (p : Char → Bool) (n : ℕ) : Peg Char ℕ := digitsValue <$> replicate p n

/-- `datetime.strptime(value, "%Y-%m-%d")`. -/
def strptime (value : Text) : Option ℤ :=
  let format : Peg Char ℤ := do
    let year ← digits isDecimal 4
    let _ ← literal ['-']
    let month ← digits isDigit 2
    let _ ← literal ['-']
    let tens ← digits isDigit 1
    let units ← digits (if tens = 1 ∨ tens = 2 then isDecimal else isDigit) 1
    endOfText
    fun rest ↦ (dateOf year month (10 * tens + units)).map fun date ↦ (date, rest)
  (format value).map Prod.fst

/-- `HH:MM`, `HH:MM:SS` or `HH:MM:SS.ffffff`. -/
def timeOfDay : Peg Char ℤ := do
  let hours ← digits isDigit 2
  let _ ← literal [':']
  let minutes ← digits isDigit 2
  let rest ← opt do
    let _ ← literal [':']
    let seconds ← digits isDigit 2
    let fraction ← opt do
      let _ ← literal ['.']
      spanning1 isDigit
    return (seconds, (fraction.getD []).take 6)
  let (seconds, fraction) := rest.getD (0, [])
  if hours < 24 ∧ minutes < 60 ∧ seconds < 60 then
    return (hours * 60 + minutes) * minute + seconds * 10 ^ 6 +
      digitsValue fraction * 10 ^ (6 - fraction.length)
  else failure

def utcOffset : Peg Char ℤ := do
  let sign ← satisfy (· ∈ ['+', '-'])
  let hours ← digits isDigit 2
  let _ ← literal [':']
  let minutes ← digits isDigit 2
  let offset := (hours * 60 + minutes) * minute
  if offset < day then return if sign = '+' then offset else -offset else failure

/-- `datetime.fromisoformat`, of dates of the grammar: a date and a time zone, if there is one. What
follows the day is taken for a separator. -/
def fromIsoFormat (value : Text) : Option (ℤ × Option ℤ) :=
  let format : Peg Char (ℤ × Option ℤ) := do
    let year ← digits isDigit 4
    let _ ← literal ['-']
    let month ← digits isDigit 2
    let _ ← literal ['-']
    let dayOfMonth ← digits isDigit 2
    let time ← opt do
      let _ ← satisfy fun _ ↦ true
      let time ← timeOfDay
      let offset ← opt utcOffset
      return (time, offset)
    endOfText
    fun rest ↦ (dateOf year month dayOfMonth).map fun date ↦
      ((date + (time.map Prod.fst).getD 0, time.bind Prod.snd), rest)
  (format value).map Prod.fst

/-- A `ValueError` is no date: before the second day of the year 1 a local time has no timestamp. -/
def parseIsoTimestamp (value : Text) : Option ℤ :=
  match fromIsoFormat (value.flatMap fun c ↦ if c = 'Z' then "+00:00".toList else [c]) with
  | some (date, some offset) => if inRange (date - offset) then some (date - offset) else none
  | some (date, none) => if day ≤ date then some date else none
  | none => none

def parseUnixTimestamp (value : Text) : Option ℤ :=
  match float value with
  | some seconds =>
    let date := ordinal 1970 1 1 * day + (seconds * 10 ^ 6).floor
    if inRange date then some date else none
  | none => none

def parseDatetimeString (value : Text) : Conversion ℤ :=
  match parseIsoTimestamp value with
  | some date => .ok date
  | none =>
    match parseUnixTimestamp value with
    | some date => .ok date
    | none => invalidQuery (value ++ " is not a valid ISO8601 date query".toList)

def parseDatetimeValue (value : Text) : Conversion (ℤ × ℤ) :=
  match strptime value with
  | some result => do
    let tomorrow ← addDelta result day
    return (result, tomorrow)
  | none =>
    match (parseIsoTimestamp value).or (parseUnixTimestamp value) with
    | some result => do
      let first ← addDelta result (-5 * minute)
      let last ← addDelta result (6 * minute)
      return (first, last)
    | none => invalidQuery (value ++ " is not a valid datetime query".toList)

/-- A `timedelta` of some units, which holds less than 10 ^ 9 days. -/
def timedelta (count : ℕ) (unit : ℤ) : Conversion ℤ :=
  if count * unit < 10 ^ 9 * day then .ok (count * unit) else .error .overflowError

/-- From a date (`true`) or to a date. An integer has at most 4300 digits. -/
def parseDatetimeRange (now : ℤ) (value : Text) : Conversion (Bool × ℤ) :=
  match value with
  | flag :: rest =>
    let count := rest.dropLast
    if count = [] ∨ ¬ count.all isDigit ∨ 4300 < count.length ∨ flag ∉ ['+', '-'] then
      invalidQuery (value ++ " is not a valid datetime query".toList)
    else do
      let delta ← match rest.getLast? with
        | some 'h' => timedelta (digitsValue count) (60 * minute)
        | some 'w' => timedelta (digitsValue count) (7 * day)
        | some 'd' => timedelta (digitsValue count) day
        | some 'm' => timedelta (digitsValue count) minute
        | _ => invalidQuery (value ++ " is not a valid datetime query".toList)
      let date ← addDelta now (-delta)
      return (flag = '-', date)
  | [] => invalidQuery (value ++ " is not a valid datetime query".toList)

end Sentry.EventSearch
