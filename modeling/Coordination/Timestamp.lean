import Coordination.Text.Blank

/-!
# Points in time

A point in time is a count of seconds since the start of 1970 and a count of
nanoseconds within the second. Its text is the internet form of a date and a
time, `YYYY-MM-DDTHH:MM:SS` with a fraction and an offset. Reading takes any
offset and is lenient about blanks; writing states the time without offset and
gives the fraction in as many groups of three digits as it needs.
-/

namespace Coordination

/-- A day of the calendar. -/
structure CalendarDate where
  year : Int
  month : Nat
  day : Nat
  deriving DecidableEq, Repr

namespace CalendarDate

/-- Whether a year has a 29th of February. -/
def isLeapYear (year : Int) : Bool :=
  year % 4 == 0 && (year % 100 != 0 || year % 400 == 0)

/-- The number of days of a month. -/
def daysInMonth (year : Int) (month : Nat) : Nat :=
  if month = 2 then (if isLeapYear year then 29 else 28)
  else if month ∈ [4, 6, 9, 11] then 30 else 31

/-- The least and the greatest year of the calendar. -/
def yearRange : Int × Int := (-262143, 262142)

/-- Whether the date exists. -/
def isValid (date : CalendarDate) : Bool :=
  yearRange.1 ≤ date.year && date.year ≤ yearRange.2 && 1 ≤ date.month && date.month ≤ 12 &&
    1 ≤ date.day && date.day ≤ daysInMonth date.year date.month

/-- The number of days since the first day of 1970. Years are counted from
March, so that the odd day of a leap year comes last. -/
def toDays (date : CalendarDate) : Int :=
  let year := if date.month ≤ 2 then date.year - 1 else date.year
  let month : Int := if date.month ≤ 2 then date.month + 9 else date.month - 3
  let cycle := year / 400
  let yearOfCycle := year % 400
  let dayOfYear := (153 * month + 2) / 5 + date.day - 1
  cycle * 146097 + (yearOfCycle * 365 + yearOfCycle / 4 - yearOfCycle / 100 + dayOfYear) - 719468

/-- The date this many days after the first day of 1970. -/
def ofDays (days : Int) : CalendarDate :=
  let shifted := days + 719468
  let cycle := shifted / 146097
  let dayOfCycle := shifted % 146097
  let yearOfCycle :=
    (dayOfCycle - dayOfCycle / 1460 + dayOfCycle / 36524 - dayOfCycle / 146096) / 365
  let dayOfYear := dayOfCycle - (365 * yearOfCycle + yearOfCycle / 4 - yearOfCycle / 100)
  let month := (5 * dayOfYear + 2) / 153
  let day := dayOfYear - (153 * month + 2) / 5 + 1
  let year := cycle * 400 + yearOfCycle
  if month < 10 then ⟨year, (month + 3).toNat, day.toNat⟩
  else ⟨year + 1, (month - 9).toNat, day.toNat⟩

end CalendarDate

/-- A point in time. A count of nanoseconds from a whole second upwards stands
for a leap second. -/
structure Timestamp where
  seconds : Int
  nanos : Nat
  deriving DecidableEq, Repr

namespace Timestamp

/-- The point in time this many milliseconds after the start of 1970. -/
def ofMillis (millis : Nat) : Timestamp := ⟨millis / 1000, millis % 1000 * 1000000⟩

/-- Whole milliseconds since the start of 1970, rounded down. -/
def toMillis (t : Timestamp) : Int := t.seconds * 1000 + t.nanos / 1000000

/-- A number in decimal digits, zeros in front up to the given width. -/
def padded (width n : Nat) : String :=
  let digits := (Nat.repr n).toList
  String.ofList (List.replicate (width - digits.length) '0' ++ digits)

/-- The year, with a sign if four digits do not hold it. -/
def writeYear (year : Int) : String :=
  if 0 ≤ year ∧ year ≤ 9999 then padded 4 year.toNat
  else if year < 0 then "-" ++ padded 4 year.natAbs
  else "+" ++ padded 4 year.natAbs

/-- The fraction of a second in the fewest groups of three digits. -/
def writeFraction (nanos : Nat) : String :=
  if nanos = 0 then ""
  else if nanos % 1000000 = 0 then "." ++ padded 3 (nanos / 1000000)
  else if nanos % 1000 = 0 then "." ++ padded 6 (nanos / 1000)
  else "." ++ padded 9 nanos

/-- The text of a point in time. -/
def write (t : Timestamp) : String :=
  let date := CalendarDate.ofDays (t.seconds / 86400)
  let second := (t.seconds % 86400).toNat
  let leap := t.nanos / 1000000000
  writeYear date.year ++ "-" ++ padded 2 date.month ++ "-" ++ padded 2 date.day ++ "T" ++
    padded 2 (second / 3600) ++ ":" ++ padded 2 (second / 60 % 60) ++ ":" ++
    padded 2 (second % 60 + leap) ++ writeFraction (t.nanos % 1000000000) ++ "Z"

/-- The number that decimal digits stand for. -/
def digitsValue (digits : List Char) : Nat :=
  digits.foldl (fun n c => n * 10 + (c.toNat - '0'.toNat)) 0

/-- One to `most` digits in front of a text. -/
def readDigits (most : Nat) (text : List Char) : Option (List Char × List Char) :=
  let digits := (text.take most).takeWhile Char.isDigit
  if digits.isEmpty then none else some (digits, text.drop digits.length)

/-- A number of at most `most` digits after blanks. -/
def readNumber (most : Nat) (text : List Char) : Option (Nat × List Char) := do
  let (digits, rest) ← readDigits most (Text.skipBlank text)
  return (digitsValue digits, rest)

/-- A year after blanks: four digits at most, or any number of them after a sign. -/
def readYear (text : List Char) : Option (Int × List Char) :=
  match Text.skipBlank text with
  | '-' :: rest => do
    let (digits, rest) ← readDigits rest.length rest
    return (-(digitsValue digits : Int), rest)
  | '+' :: rest => do
    let (digits, rest) ← readDigits rest.length rest
    return (digitsValue digits, rest)
  | rest => do
    let (digits, rest) ← readDigits 4 rest
    return (digitsValue digits, rest)

/-- Takes a mark off the front of a text. -/
def readMark (mark : Char) : List Char → Option (List Char)
  | c :: rest => if c = mark then some rest else none
  | [] => none

/-- A fraction of a second in nanoseconds, digits past the ninth left out. -/
def readFraction : List Char → Option (Nat × List Char)
  | '.' :: rest => do
    let (digits, rest) ← readDigits 9 rest
    return (digitsValue digits * Nat.pow 10 (9 - digits.length), rest.dropWhile Char.isDigit)
  | rest => some (0, rest)

/-- Two digits as a number, and the text after them. -/
def readPair : List Char → Option (Nat × List Char)
  | a :: b :: rest =>
    if a.isDigit && b.isDigit then some (digitsValue [a, b], rest) else none
  | _ => none

/-- An offset from the time without offset, in seconds, and the text after it. -/
def readOffset (text : List Char) : Option (Int × List Char) :=
  match text with
  | 'Z' :: rest => some (0, rest)
  | 'z' :: rest => some (0, rest)
  | sign :: rest => do
    let isNegative := sign = '-' || sign = '\u2212'
    guard (isNegative || sign = '+')
    let (hours, rest) ← readPair rest
    let (minutes, rest) ← readPair (rest.dropWhile fun c => c = ':' || Text.isBlank c)
    guard (minutes < 60)
    let offset : Int := hours * 3600 + minutes * 60
    return (if isNegative then -offset else offset, rest)
  | [] => none

/-- The offset named by three letters, or one in numbers. -/
def readZone (text : List Char) : Option (Int × List Char) :=
  if (text.take 3).map Char.toUpper = ['U', 'T', 'C'] then some (0, text.drop 3)
  else readOffset text

/-- The point in time that a text states; none if it states none. -/
def read (text : String) : Option Timestamp := do
  let (year, rest) ← readYear text.toList
  let rest ← readMark '-' (Text.skipBlank rest)
  let (month, rest) ← readNumber 2 rest
  let rest ← readMark '-' (Text.skipBlank rest)
  let (day, rest) ← readNumber 2 rest
  let rest ← (readMark 'T' rest <|> readMark 't' rest <|> readMark ' ' rest)
  let (hour, rest) ← readNumber 2 rest
  let rest ← readMark ':' (Text.skipBlank rest)
  let (minute, rest) ← readNumber 2 rest
  let rest ← readMark ':' (Text.skipBlank rest)
  let (second, rest) ← readNumber 2 rest
  let (nanos, rest) ← readFraction rest
  let (offset, rest) ← readZone (Text.skipBlank rest)
  guard (Text.skipBlank rest).isEmpty
  let date : CalendarDate := ⟨year, month, day⟩
  guard date.isValid
  guard (hour < 24 ∧ minute < 60 ∧ second ≤ 60 ∧ offset.natAbs < 86400)
  let leap := second / 60
  let seconds := date.toDays * 86400 + hour * 3600 + minute * 60 + (second - leap : Nat) - offset
  guard (CalendarDate.ofDays (seconds / 86400)).isValid
  return ⟨seconds, nanos + leap * 1000000000⟩

end Timestamp

end Coordination
