/-!
# Points in time

A point in time counts the seconds from the beginning of 1970 and the nanoseconds within the second.  It is written as
date, time of day and offset from the zero meridian; reading is generous about blanks and about the letters between the
parts.  A leap second counts as a second of more than 10⁹ nanoseconds.
-/

namespace SeriesRegion

structure Timestamp where
  seconds : Int
  nanos : Nat
  deriving DecidableEq, Repr

namespace Timestamp

/-- The days from the beginning of 1970 to a day of the proleptic Gregorian calendar.  Years are counted from March. -/
def daysOf (year : Int) (month day : Nat) : Int :=
  let y := if month ≤ 2 then year - 1 else year
  let m := if month ≤ 2 then month + 9 else month - 3
  365 * y + y.fdiv 4 - y.fdiv 100 + y.fdiv 400 + ((153 * m + 2) / 5 : Nat) + day - 719469

/-- The day of a number of days from the beginning of 1970. -/
def dayOf (days : Int) : Int × Nat × Nat :=
  let z := days + 719468
  let era := z.fdiv 146097
  let doe := (z - era * 146097).toNat
  let yoe := (doe - doe / 1460 + doe / 36524 - doe / 146096) / 365
  let doy := doe - (365 * yoe + yoe / 4 - yoe / 100)
  let m := (5 * doy + 2) / 153
  let day := doy - (153 * m + 2) / 5 + 1
  let month := if m < 10 then m + 3 else m - 9
  ((yoe : Int) + era * 400 + (if month ≤ 2 then 1 else 0), month, day)

def isLeap (year : Int) : Bool := year % 4 = 0 ∧ (year % 100 ≠ 0 ∨ year % 400 = 0)

def daysIn (year : Int) (month : Nat) : Nat :=
  if month = 2 then (if isLeap year then 29 else 28)
  else if month = 4 ∨ month = 6 ∨ month = 9 ∨ month = 11 then 30
  else 31

/-! ### Reading -/

inductive Fault where
  | invalid
  | tooShort
  | tooLong
  | outOfRange
  | impossible
  deriving DecidableEq, Repr

def Fault.message : Fault → String
  | .invalid => "input contains invalid characters"
  | .tooShort => "premature end of input"
  | .tooLong => "trailing input"
  | .outOfRange => "input is out of range"
  | .impossible => "no possible date and time matching input"

def isSpace (c : Char) : Bool :=
  let n := c.toNat
  (9 ≤ n && n ≤ 13) || n = 0x20 || n = 0x85 || n = 0xa0 || n = 0x1680 || (0x2000 ≤ n && n ≤ 0x200a) || n = 0x2028 ||
    n = 0x2029 || n = 0x202f || n = 0x205f || n = 0x3000

/-- The digits at the front, at most `limit` of them, and what follows. -/
def takeDigits : (limit : Nat) → List Char → List Char × List Char
  | 0, s => ([], s)
  | _, [] => ([], [])
  | limit + 1, c :: rest =>
    if c.isDigit then ((takeDigits limit rest).map (c :: ·) id) else ([], c :: rest)

def valueOf (digits : List Char) : Nat := digits.foldl (fun n c => 10 * n + (c.toNat - 48)) 0

def number (limit : Nat) (s : List Char) : Except Fault (Nat × List Char) :=
  let (ds, rest) := takeDigits limit s
  if ds.isEmpty then .error (if s.isEmpty then .tooShort else .invalid) else .ok (valueOf ds, rest)

/-- Reads a number after blanks, which must lie between two bounds. -/
def bounded (limit low high : Nat) (s : List Char) : Except Fault (Nat × List Char) := do
  let (n, rest) ← number limit (s.dropWhile isSpace)
  if low ≤ n ∧ n ≤ high then return (n, rest) else .error .outOfRange

/-- Reads a year: four digits at most, or any number of them after a sign.  A year is a word of 32 bits. -/
def year (s : List Char) : Except Fault (Int × List Char) := do
  let (n, rest) ←
    match s.dropWhile isSpace with
    | '-' :: rest => (number rest.length rest).map fun (n, rest) => (-(n : Int), rest)
    | '+' :: rest => (number rest.length rest).map fun (n, rest) => ((n : Int), rest)
    | s => (number 4 s).map fun (n, rest) => ((n : Int), rest)
  if -2147483648 ≤ n ∧ n < 2147483648 then return (n, rest) else .error .outOfRange

/-- Reads one character that is wanted, after blanks. -/
def mark (c : Char) (s : List Char) : Except Fault (List Char) :=
  match s.dropWhile isSpace with
  | [] => .error .tooShort
  | d :: rest => if c = d then .ok rest else .error .invalid

/-- Reads the fraction of a second, if there is one. -/
def fraction (s : List Char) : Except Fault (Nat × List Char) :=
  match s with
  | '.' :: rest =>
    let (ds, rest) := takeDigits 9 rest
    if ds.isEmpty then .error (if rest.isEmpty then .tooShort else .invalid)
    else .ok (valueOf ds * Nat.pow 10 (9 - ds.length), rest.dropWhile Char.isDigit)
  | s => .ok (0, s)

/-- Reads two digits, and their value.  A text is too short for them if it has fewer than two bytes. -/
def twoDigits : List Char → Except Fault (Nat × List Char)
  | [] => .error .tooShort
  | [a] => .error (if a.utf8Size < 2 then .tooShort else .invalid)
  | a :: b :: rest => if a.isDigit && b.isDigit then .ok (valueOf [a, b], rest) else .error .invalid

/-- Reads hours and minutes, as seconds. -/
def hoursAndMinutes (s : List Char) : Except Fault (Nat × List Char) := do
  let (hours, rest) ← twoDigits s
  let (minutes, rest) ← twoDigits (rest.dropWhile fun c => c = ':' || isSpace c)
  if 60 ≤ minutes then .error .outOfRange else return (hours * 3600 + minutes * 60, rest)

/-- Reads an offset in seconds. -/
def offset (s : List Char) : Except Fault (Int × List Char) :=
  if (s.take 3).map Char.toUpper = ['U', 'T', 'C'] then .ok (0, s.drop 3)
  else
    match s with
    | [] => .error .tooShort
    | 'Z' :: rest | 'z' :: rest => .ok (0, rest)
    | '+' :: rest => (hoursAndMinutes rest).map fun (n, rest) => ((n : Int), rest)
    | '-' :: rest | '−' :: rest => (hoursAndMinutes rest).map fun (n, rest) => (-(n : Int), rest)
    | _ => .error .invalid

def separator : List Char → Except Fault (List Char)
  | [] => .error .tooShort
  | c :: rest => if c = 'T' ∨ c = 't' ∨ c = ' ' then .ok rest else .error .invalid

/-- The years that are counted. -/
def isCounted (year : Int) : Bool := -262143 ≤ year ∧ year ≤ 262142

/-- Whether a point in time falls into a year that is counted. -/
def isPossible (seconds : Int) : Bool :=
  daysOf (-262143) 1 1 * 86400 ≤ seconds ∧ seconds < daysOf 262143 1 1 * 86400

/-- Reads a point in time.  Whether there is such a day and such an offset is asked when all is read, and last whether
the point that they give can be counted. -/
def parse (text : String) : Except Fault Timestamp := do
  let (y, s) ← year text.toList
  let s ← mark '-' s
  let (month, s) ← bounded 2 1 12 s
  let s ← mark '-' s
  let (day, s) ← bounded 2 1 31 s
  let s ← separator s
  let (hour, s) ← bounded 2 0 23 s
  let s ← mark ':' s
  let (minute, s) ← bounded 2 0 59 s
  let s ← mark ':' s
  let (second, s) ← bounded 2 0 60 s
  let (nanos, s) ← fraction s
  let (shift, s) ← offset (s.dropWhile isSpace)
  if !(s.dropWhile isSpace).isEmpty then .error .tooLong
  else if !isCounted y ∨ daysIn y month < day ∨ 86400 ≤ shift.natAbs then .error .outOfRange
  else
    let leap := second = 60
    let here := daysOf y month day * 86400 + hour * 3600 + minute * 60 + (if leap then 59 else second)
    if !isPossible (here - shift) then .error .impossible
    else return ⟨here - shift, if leap then nanos + 1000000000 else nanos⟩

/-! ### Writing -/

/-- A number with zeros in front of it up to a width. -/
def padded (width n : Nat) : String :=
  let ds := toString n
  String.ofList (List.replicate (width - ds.length) '0') ++ ds

/-- The fraction of a second with three, six or nine digits, or none. -/
def fractionText (nanos : Nat) : String :=
  if nanos = 0 then ""
  else if nanos % 1000000 = 0 then "." ++ padded 3 (nanos / 1000000)
  else if nanos % 1000 = 0 then "." ++ padded 6 (nanos / 1000)
  else "." ++ padded 9 nanos

/-- A point in time at the zero meridian, without an offset. -/
def text (t : Timestamp) : String :=
  let (y, month, day) := dayOf (t.seconds.fdiv 86400)
  let s := (t.seconds.fmod 86400).toNat
  let leap := 1000000000 ≤ t.nanos
  let yearText :=
    if 0 ≤ y ∧ y ≤ 9999 then padded 4 y.toNat
    else (if y < 0 then "-" else "+") ++ padded 4 y.natAbs
  yearText ++ "-" ++ padded 2 month ++ "-" ++ padded 2 day ++ "T" ++ padded 2 (s / 3600) ++ ":" ++
    padded 2 (s / 60 % 60) ++ ":" ++ padded 2 (s % 60 + if leap then 1 else 0) ++
    fractionText (if leap then t.nanos - 1000000000 else t.nanos)

end Timestamp

end SeriesRegion
