import ObjectStorage.Text.Blank
import ObjectStorage.Text.Search
import ObjectStorage.Time.Timestamp

/-! # Dates in headers

Dates of a fixed form, as in `Sun, 06 Nov 1994 08:49:37 GMT`. Seconds can have a fraction of up to three
digits. The day of the week is not looked at.
-/
namespace ObjectStorage.HttpDate

open Calendar

def monthNames : List String :=
  ["Jan", "Feb", "Mar", "Apr", "May", "Jun", "Jul", "Aug", "Sep", "Oct", "Nov", "Dec"]

def ending : List Char := [' ', 'G', 'M', 'T']

def part (start width : Nat) (s : List Char) : List Char := (s.drop start).take width

def number? (start width : Nat) (s : List Char) : Option Nat := Text.readNatural? (part start width s)

def year? (s : List Char) : Option Int := Text.readInteger? 32 (part 12 4 s)

def month? (s : List Char) : Option Nat := do
  guard (s[7]? = some ' ' && s[11]? = some ' ')
  return (← monthNames.findIdx? (·.toList = part 8 3 s)) + 1

def fraction? (s : List Char) : Option Nat :=
  match s[25]? with
  | some '.' =>
    let digits := (s.drop 26).take (s.length - 30)
    if digits.length ≤ 3 then
      (Text.readNatural? digits).map fun n => n * Nat.pow 10 (9 - digits.length)
    else none
  | some ' ' => some 0
  | _ => none

/-- Reads a date; blanks around it do not count. -/
def parse? (text : List Char) : Option Timestamp := do
  let s := Text.trimBlanks text
  guard (29 ≤ s.length && s.length ≤ 33 && s.drop (s.length - ending.length) = ending)
  guard (s[16]? = some ' ' && s[19]? = some ':' && s[22]? = some ':')
  let nanos ← fraction? s
  let hour ← number? 17 2 s
  let minute ← number? 20 2 s
  let second ← number? 23 2 s
  let d : Date := ⟨← year? s, ← month? s, ← number? 5 2 s⟩
  guard (d.isValid && hour ≤ 23 && minute ≤ 59 && second ≤ 59)
  return ⟨d.number * Timestamp.daySeconds + (hour * 3600 + minute * 60 + second : Nat), nanos⟩

def read? (text : List Char) : Option (Timestamp × List Char) := do
  let first ← Text.throughFirst ending text
  return (← parse? first, text.drop first.length)

end ObjectStorage.HttpDate
