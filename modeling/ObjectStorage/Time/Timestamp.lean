import ObjectStorage.Text.Digits
import ObjectStorage.Time.Calendar

/-! # Timestamps

Points in time and their texts: date and time of day, a fraction of as many digits as are needed in
groups of three, and the offset from universal time.
-/
namespace ObjectStorage

/-- Seconds since 1970 began, and the nanoseconds of the second. -/
structure Timestamp where
  seconds : Int
  nanos : Nat := 0
deriving DecidableEq, Repr, Inhabited

namespace Timestamp

open Calendar

def daySeconds : Int := 86400

def firstYear : Int := -262143
def lastYear : Int := 262142

def date (t : Timestamp) : Date := dateOf (t.seconds / daySeconds)

def ofSeconds? (seconds : Int) (nanos : Nat) : Option Timestamp :=
  let t : Timestamp := ⟨seconds, nanos⟩
  if firstYear ≤ t.date.year && t.date.year ≤ lastYear then some t else none

def padded (width n : Nat) : String :=
  let digits := toString n
  String.ofList (List.replicate (width - digits.length) '0') ++ digits

/-- A year; one that needs more than four digits, or a sign, always has a sign. -/
def yearText (year : Int) : String :=
  if 0 ≤ year && year ≤ 9999 then padded 4 year.toNat
  else (if year < 0 then "-" else "+") ++ padded 4 year.natAbs

/-- The fraction of a second, as short as whole groups of three digits allow. -/
def fractionText (nanos : Nat) : String :=
  if nanos = 0 then ""
  else if nanos % 1000000 = 0 then "." ++ padded 3 (nanos / 1000000)
  else if nanos % 1000 = 0 then "." ++ padded 6 (nanos / 1000)
  else "." ++ padded 9 nanos

def localText (t : Timestamp) : String :=
  let d := t.date
  let s := (t.seconds % daySeconds).toNat
  yearText d.year ++ "-" ++ padded 2 d.month ++ "-" ++ padded 2 d.day ++ "T" ++
    padded 2 (s / 3600) ++ ":" ++ padded 2 (s / 60 % 60) ++ ":" ++ padded 2 (s % 60) ++ fractionText t.nanos

def text (t : Timestamp) : String := t.localText ++ "Z"

def offsetText (t : Timestamp) : String := t.localText ++ "+00:00"

/-! ## Reading -/

def digits? (width : Nat) (s : List Char) : Option (Nat × List Char) :=
  let run := s.take width
  if run.length = width && run.all Text.isDecimalDigit then
    (Text.readDigits? 10 run).map (·, s.drop width)
  else none

def char? (c : Char) (s : List Char) : Option (List Char) :=
  match s with
  | d :: rest => if c = d then some rest else none
  | [] => none

/-- A fraction of a second in nanoseconds, if there is one. Digits beyond the ninth do not count. -/
def fraction? (s : List Char) : Option (Nat × List Char) :=
  match s with
  | '.' :: rest =>
    let run := rest.takeWhile Text.isDecimalDigit
    let digits := (run ++ List.replicate 9 '0').take 9
    if run.isEmpty then none else (Text.readDigits? 10 digits).map (·, rest.drop run.length)
  | _ => some (0, s)

/-- An offset from universal time in seconds; nothing may follow it. -/
def offset? (s : List Char) : Option Int := do
  match s with
  | ['Z'] | ['z'] => return 0
  | sign :: rest =>
    guard (sign = '+' || sign = '-')
    let (hours, rest) ← digits? 2 rest
    let (minutes, rest) ← digits? 2 (← char? ':' rest)
    guard (hours ≤ 23 && minutes ≤ 59 && rest.isEmpty)
    let offset : Int := hours * 3600 + minutes * 60
    return if sign = '-' then -offset else offset
  | [] => failure

/-- Whether a leap second can be inserted after this second: it is the last of a month. -/
def mayLeapAfter (seconds : Int) : Bool :=
  let d := dateOf (seconds / daySeconds)
  seconds % daySeconds = 86399 && d.day = daysInMonth d.year d.month

/-- Reads a date and a time of day with an offset. A leap second counts as the last nanosecond of the
second before it. -/
def parse? (text : String) : Option Timestamp := do
  let (year, s) ← digits? 4 text.toList
  let (month, s) ← digits? 2 (← char? '-' s)
  let (day, s) ← digits? 2 (← char? '-' s)
  guard (s.head? = some 'T' || s.head? = some 't')
  let (hour, s) ← digits? 2 s.tail
  let (minute, s) ← digits? 2 (← char? ':' s)
  let (second, s) ← digits? 2 (← char? ':' s)
  let (nanos, s) ← fraction? s
  let offset ← offset? s
  let d : Date := ⟨year, month, day⟩
  guard (d.isValid && hour ≤ 23 && minute ≤ 59 && second ≤ 60)
  let seconds := d.number * daySeconds + (hour * 3600 + minute * 60 + min second 59 : Nat) - offset
  if second = 60 then
    guard (mayLeapAfter seconds)
    return ⟨seconds, 999999999⟩
  else return ⟨seconds, nanos⟩

end Timestamp
end ObjectStorage
