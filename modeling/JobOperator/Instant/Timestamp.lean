import JobOperator.Instant.Basic
import JobOperator.Text.Blank
import JobOperator.Text.Decimal

/-!
Timestamps in the notation of RFC 3339. Writing uses UTC and the fewest of 0, 3, 6 or 9 fraction
digits that lose nothing. Reading also takes other offsets, parts without leading zeros, and blanks
between the parts.
-/

namespace JobOperator.Instant

/-- Nanoseconds in a second. -/
def nanosPerSecond : Nat := 1000000000

/-! ### Writing -/

/-- A year: four digits, or a sign and at least four outside 0 to 9999. -/
def writeYear (year : Int) : List Char :=
  if 0 ≤ year ∧ year ≤ 9999 then Decimal.padded 4 year.toNat
  else (if year < 0 then '-' else '+') :: Decimal.padded 4 year.natAbs

/-- The fraction of a second. -/
def writeFraction (nano : Nat) : List Char :=
  if nano = 0 then []
  else if nano % 1000000 = 0 then '.' :: Decimal.padded 3 (nano / 1000000)
  else if nano % 1000 = 0 then '.' :: Decimal.padded 6 (nano / 1000)
  else '.' :: Decimal.padded 9 nano

/-- The characters of a timestamp. -/
def write (instant : Instant) : List Char :=
  let date := Date.ofDayNumber (instant.second / 86400)
  let secondOfDay := (instant.second % 86400).toNat
  let isLeap := nanosPerSecond ≤ instant.nano
  let second := secondOfDay % 60 + if isLeap then 1 else 0
  let nano := if isLeap then instant.nano - nanosPerSecond else instant.nano
  writeYear date.year ++ '-' :: Decimal.padded 2 date.month ++ '-' :: Decimal.padded 2 date.day ++
    'T' :: Decimal.padded 2 (secondOfDay / 3600) ++
    ':' :: Decimal.padded 2 (secondOfDay / 60 % 60) ++ ':' :: Decimal.padded 2 second ++
    writeFraction nano ++ ['Z']

/-- The text of a timestamp. -/
def text (instant : Instant) : String := String.ofList instant.write

/-! ### Reading -/

/-- The first digits of a text, at most `limit`, and the text after them. -/
def takeDigits : (limit : Nat) → List Char → List Char × List Char
  | 0, text => ([], text)
  | _ + 1, [] => ([], [])
  | limit + 1, c :: rest =>
    if c.isDigit then
      let (digits, rest) := takeDigits limit rest
      (c :: digits, rest)
    else ([], c :: rest)

/-- A number of at least one and at most `limit` digits, after blanks. -/
def readNumber (limit : Nat) (text : List Char) : Option (Nat × List Char) :=
  match takeDigits limit (Text.trimStart text) with
  | ([], _) => none
  | (digits, rest) => some (Decimal.value digits, rest)

/-- A number between two bounds. -/
def readPart (low high : Nat) (text : List Char) : Option (Nat × List Char) := do
  let (n, rest) ← readNumber 2 text
  if low ≤ n ∧ n ≤ high then some (n, rest) else none

/-- A year: up to four digits, or a sign and any number of them. -/
def readYear (text : List Char) : Option (Int × List Char) :=
  let signed (sign : Int) (rest : List Char) : Option (Int × List Char) :=
    match takeDigits rest.length rest with
    | ([], _) => none
    | (digits, rest) => some (sign * Decimal.value digits, rest)
  match Text.trimStart text with
  | '-' :: rest => signed (-1) rest
  | '+' :: rest => signed 1 rest
  | rest => (readNumber 4 rest).map (fun (n, rest) => (n, rest))

/-- The text after a mark, which blanks may precede. -/
def readMark (mark : Char) (text : List Char) : Option (List Char) :=
  match Text.trimStart text with
  | c :: rest => if c = mark then some rest else none
  | [] => none

/-- The nanoseconds of a fraction, of which nine digits count. -/
def readFraction (text : List Char) : Option (Nat × List Char) :=
  match text with
  | '.' :: rest =>
    match takeDigits 9 rest with
    | ([], _) => none
    | (digits, rest) =>
      some (Decimal.value (digits ++ List.replicate (9 - digits.length) '0'),
        rest.dropWhile Char.isDigit)
  | _ => some (0, text)

/-- Two digits, of which the first is at most `high`, and the text after them. -/
def readTwoDigits (high : Char) : List Char → Option (Nat × List Char)
  | a :: b :: rest =>
    if a.isDigit ∧ a ≤ high ∧ b.isDigit then some (Decimal.value [a, b], rest) else none
  | _ => none

/-- The hours and minutes of an offset, with any colons and blanks between them, in seconds. -/
def readOffsetSize (text : List Char) : Option (Int × List Char) := do
  let (hours, rest) ← readTwoDigits '9' text
  let rest := rest.dropWhile (fun c => c = ':' || Text.isBlank c)
  let (minutes, rest) ← readTwoDigits '5' rest
  if hours < 24 then some (hours * 3600 + minutes * 60, rest) else none

/-- Whether a text starts with `UTC`, in any case. -/
def readUtc : List Char → Option (List Char)
  | u :: t :: c :: rest =>
    if u.toLower = 'u' ∧ t.toLower = 't' ∧ c.toLower = 'c' then some rest else none
  | _ => none

/-- The seconds by which the written time is ahead of UTC. -/
def readOffset (text : List Char) : Option (Int × List Char) :=
  match readUtc text with
  | some rest => some (0, rest)
  | none =>
    match text with
    | 'Z' :: rest | 'z' :: rest => some (0, rest)
    | '+' :: rest => readOffsetSize rest
    | '-' :: rest | '\u2212' :: rest => (readOffsetSize rest).map (fun (n, rest) => (-n, rest))
    | _ => none

/-- Whether a year is one that timestamps can name. -/
def isYearInRange (year : Int) : Bool := -262143 ≤ year && year ≤ 262142

/-- The point in time that the characters of a timestamp denote. -/
def read (text : List Char) : Option Instant := do
  let (year, rest) ← readYear text
  let rest ← readMark '-' rest
  let (month, rest) ← readPart 1 12 rest
  let rest ← readMark '-' rest
  let (day, rest) ← readPart 1 31 rest
  let rest ← match rest with
    | 'T' :: rest | 't' :: rest | ' ' :: rest => some rest
    | _ => none
  let (hour, rest) ← readPart 0 23 rest
  let rest ← readMark ':' rest
  let (minute, rest) ← readPart 0 59 rest
  let rest ← readMark ':' rest
  let (second, rest) ← readPart 0 60 rest
  let (nano, rest) ← readFraction rest
  let (offset, rest) ← readOffset (Text.trimStart rest)
  let date : Date := { year, month, day }
  let ofDay : Int := hour * 3600 + minute * 60 + (min second 59 : Nat)
  let instant : Instant :=
    { second := date.dayNumber * 86400 + ofDay - offset
      nano := if second = 60 then nano + nanosPerSecond else nano }
  if (Text.trimStart rest).isEmpty && decide date.Exists && isYearInRange year &&
      isYearInRange (Date.ofDayNumber (instant.second / 86400)).year then
    some instant
  else none

/-- The point in time that a timestamp denotes. -/
def ofText? (text : String) : Option Instant := read text.toList

end JobOperator.Instant
