import WorktreeTracker.Value

/-!
# Instants

Moments in universal time, read from and written as RFC 3339 dates. Reading is lenient the way date
libraries are: blanks between the parts, a space for the `T` and an offset without a colon are
accepted. Days are counted in the proleptic Gregorian calendar.
-/

namespace WorktreeTracker

/-- A moment in universal time. -/
structure Instant where
  /-- The whole seconds since the start of 1970. -/
  seconds : Int
  /-- The nanoseconds after that second; a thousand million or more within a leap second. -/
  nanos : Nat
deriving DecidableEq, Repr

namespace Instant

/-! ## Calendar -/

/-- The number of nanoseconds of a second. -/
def nanosPerSecond : Nat := 1000000000

/-- The number of seconds of a day. -/
def secondsPerDay : Int := 86400

/-- The earliest and the latest year that a date may have. -/
def yearRange : Int × Int := (-262143, 262142)

/-- Whether a year has a leap day. -/
def isLeapYear (year : Int) : Bool :=
  year % 4 == 0 && (year % 100 != 0 || year % 400 == 0)

/-- The number of days of a month. -/
def daysInMonth (year : Int) (month : Nat) : Nat :=
  if month = 2 then (if isLeapYear year then 29 else 28)
  else if month = 4 ∨ month = 6 ∨ month = 9 ∨ month = 11 then 30
  else 31

/-- The number of days from the start of 1970 to a date. The year is taken to start in March, so the
leap day comes last. -/
def daysOfDate (year : Int) (month day : Nat) : Int :=
  let y := if month ≤ 2 then year - 1 else year
  let era := y.fdiv 400
  let yearOfEra := y - era * 400
  let shifted : Int := ((month + 9) % 12 : Nat)
  let dayOfYear := (153 * shifted + 2) / 5 + (day : Int) - 1
  let dayOfEra := yearOfEra * 365 + yearOfEra / 4 - yearOfEra / 100 + dayOfYear
  era * 146097 + dayOfEra - 719468

/-- The date that is `days` days after the start of 1970: year, month and day. -/
def dateOfDays (days : Int) : Int × Int × Int :=
  let z := days + 719468
  let era := z.fdiv 146097
  let dayOfEra := z - era * 146097
  let yearOfEra := (dayOfEra - dayOfEra / 1460 + dayOfEra / 36524 - dayOfEra / 146096) / 365
  let dayOfYear := dayOfEra - (365 * yearOfEra + yearOfEra / 4 - yearOfEra / 100)
  let shifted := (5 * dayOfYear + 2) / 153
  let day := dayOfYear - (153 * shifted + 2) / 5 + 1
  let month := if shifted < 10 then shifted + 3 else shifted - 9
  let year := yearOfEra + era * 400
  (if month ≤ 2 then year + 1 else year, month, day)

/-! ## Writing -/

/-- A number with zeros in front to at least `width` digits. -/
def padded (width : Nat) (n : Nat) : String :=
  let digits := toString n
  String.ofList (List.replicate (width - digits.length) '0') ++ digits

/-- A year with four digits, and with a sign when it has more or is negative. -/
def formatYear (year : Int) : String :=
  if 0 ≤ year ∧ year ≤ 9999 then padded 4 year.toNat
  else (if year < 0 then "-" else "+") ++ padded 4 year.natAbs

/-- The fraction of a second in as many groups of three digits as it needs. -/
def formatFraction (nanos : Nat) : String :=
  if nanos = 0 then ""
  else if nanos % 1000000 = 0 then "." ++ padded 3 (nanos / 1000000)
  else if nanos % 1000 = 0 then "." ++ padded 6 (nanos / 1000)
  else "." ++ padded 9 nanos

/-- The instant as a date and time of day without an offset. -/
def format (t : Instant) : String :=
  let days := t.seconds.fdiv secondsPerDay
  let second := (t.seconds - days * secondsPerDay).toNat
  let (year, month, day) := dateOfDays days
  let leap := if nanosPerSecond ≤ t.nanos then 1 else 0
  let nanos := t.nanos - leap * nanosPerSecond
  let date := s!"{formatYear year}-{padded 2 month.toNat}-{padded 2 day.toNat}"
  let time := s!"{padded 2 (second / 3600)}:{padded 2 (second / 60 % 60)}"
  s!"{date}T{time}:{padded 2 (second % 60 + leap)}{formatFraction nanos}"

/-- The instant as it is shown. -/
def display (t : Instant) : String := t.format ++ "+00:00"

/-- The value that an instant is written as. -/
def toValue (t : Instant) : Value := .text (t.format ++ "Z")

/-! ## Reading -/

/-- Reads one to `width` decimal digits: their value, how many there are and what follows. -/
def readDigits (width : Nat) (cs : List Char) : Option (Nat × Nat × List Char) := do
  let digits := (cs.take width).takeWhile Char.isDigit
  guard (!digits.isEmpty)
  let n ← Text.decimalFrom? 0 digits
  return (n, digits.length, cs.drop digits.length)

/-- Reads a number of at most two digits after blanks. -/
def readField (cs : List Char) : Option (Nat × List Char) :=
  (readDigits 2 (cs.dropWhile Text.isBlank)).map fun (n, _, rest) => (n, rest)

/-- Reads a year after blanks: four digits, or any number of them after a sign. -/
def readYear (cs : List Char) : Option (Int × List Char) :=
  match cs.dropWhile Text.isBlank with
  | '-' :: rest => (readDigits rest.length rest).map fun (n, _, rest) => (-(n : Int), rest)
  | '+' :: rest => (readDigits rest.length rest).map fun (n, _, rest) => ((n : Int), rest)
  | cs => (readDigits 4 cs).map fun (n, _, rest) => ((n : Int), rest)

/-- Reads the character `c` after blanks. -/
def readMark (c : Char) (cs : List Char) : Option (List Char) :=
  match cs.dropWhile Text.isBlank with
  | d :: rest => if d = c then some rest else none
  | [] => none

/-- Reads the nanoseconds after a dot; digits after the ninth are passed over. -/
def readFraction : List Char → Option (Nat × List Char)
  | '.' :: rest =>
    (readDigits 9 rest).map fun (n, count, rest) =>
      (n * Nat.pow 10 (9 - count), rest.dropWhile Char.isDigit)
  | cs => some (0, cs)

/-- The value of two decimal digits. -/
def twoDigits? (a b : Char) : Option Nat :=
  if a.isDigit && b.isDigit then some (10 * (a.toNat - '0'.toNat) + (b.toNat - '0'.toNat)) else none

/-- Reads hours and minutes of an offset in seconds. -/
def readClock : List Char → Option (Nat × List Char)
  | a :: b :: rest => do
    let hours ← twoDigits? a b
    match rest.dropWhile fun c => c = ':' || Text.isBlank c with
    | c :: d :: rest => do
      let minutes ← twoDigits? c d
      guard (minutes < 60)
      return (hours * 3600 + minutes * 60, rest)
    | _ => none
  | _ => none

/-- Reads an offset from universal time in seconds. -/
def readOffset : List Char → Option (Int × List Char)
  | 'Z' :: rest => some (0, rest)
  | 'z' :: rest => some (0, rest)
  | '+' :: rest => (readClock rest).map fun (n, rest) => ((n : Int), rest)
  | '-' :: rest => (readClock rest).map fun (n, rest) => (-(n : Int), rest)
  | '\u2212' :: rest => (readClock rest).map fun (n, rest) => (-(n : Int), rest)
  | a :: b :: c :: rest =>
    if [a, b, c].map Text.lowerAscii = ['u', 't', 'c'] then some (0, rest) else none
  | _ => none

/-- Whether a year may belong to a date. -/
def isYear (year : Int) : Bool :=
  yearRange.1 ≤ year && year ≤ yearRange.2

/-- The instant that a text names. -/
def parse? (s : String) : Option Instant := do
  let (year, cs) ← readYear s.toList
  let (month, cs) ← readField (← readMark '-' cs)
  let (day, cs) ← readField (← readMark '-' cs)
  let cs ← match cs with
    | c :: rest => if c = 'T' || c = 't' || c = ' ' then some rest else none
    | [] => none
  let (hour, cs) ← readField cs
  let (minute, cs) ← readField (← readMark ':' cs)
  let (second, cs) ← readField (← readMark ':' cs)
  let (nanos, cs) ← readFraction cs
  let (offset, cs) ← readOffset (cs.dropWhile Text.isBlank)
  guard (cs.all Text.isBlank)
  guard (isYear year ∧ 1 ≤ month ∧ month ≤ 12 ∧ 1 ≤ day ∧ day ≤ daysInMonth year month)
  guard (hour < 24 ∧ minute < 60 ∧ second ≤ 60 ∧ offset.natAbs < 86400)
  let leap := if second = 60 then 1 else 0
  let seconds := daysOfDate year month day * secondsPerDay +
    ((hour * 3600 + minute * 60 + (second - leap) : Nat) : Int) - offset
  guard (isYear (dateOfDays (seconds.fdiv secondsPerDay)).1)
  return ⟨seconds, nanos + leap * nanosPerSecond⟩

/-- The instant written as a value. -/
def ofValue : Value → Except DecodeError Instant
  | .text s =>
    match parse? s with
    | some t => .ok t
    | none => .error .shape
  | _ => .error .shape

end Instant

end WorktreeTracker
