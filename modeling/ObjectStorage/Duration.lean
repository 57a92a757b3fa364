import ObjectStorage.Text.Blank
import ObjectStorage.Text.Digits
import ObjectStorage.Text.Quoted

/-! # Durations and their texts

A duration is a number of nanoseconds. Its text is a decimal number followed by a unit.
-/
namespace ObjectStorage

structure Duration where
  nanos : Nat
deriving DecidableEq, Repr, Inhabited

namespace Duration

def ofMillis (ms : Nat) : Duration := ⟨ms * 1000000⟩
def ofSecs (s : Nat) : Duration := ⟨s * 1000000000⟩

/-- The longest duration: the largest 64-bit number of seconds and all but one nanosecond more. -/
def longest : Duration := ⟨(Nat.pow 2 64 - 1) * 1000000000 + 999999999⟩

/-- Whole milliseconds a timer of this duration takes: timers fire on whole milliseconds, never early. -/
def ticks (d : Duration) : Nat := d.nanos / 1000000 + if d.nanos % 1000000 = 0 then 0 else 1

def units : List (String × Nat) :=
  [("h", 3600000000000), ("m", 60000000000), ("s", 1000000000), ("ms", 1000000), ("us", 1000), ("ns", 1)]

def exactUnit (n : Nat) (us : List (String × Nat)) : Option (String × Nat) :=
  us.find? fun u => n % u.2 = 0

/-- The text of a duration: the largest unit that measures it exactly, and `0s` for none at all. -/
def format (d : Duration) : String :=
  if d.nanos = 0 then "0s"
  else match exactUnit d.nanos units with
    | some (name, scale) => toString (d.nanos / scale) ++ name
    | none => toString d.nanos ++ "ns"

/-- Why a text is not a duration. Each cause carries the text without surrounding blanks. -/
inductive Fault where
  | missingUnit (text : String)
  | notANumber (text : String)
  | unknownUnit (suffix text : String)
  | tooLarge (text : String)
deriving DecidableEq, Repr

def Fault.message : Fault → String
  | .missingUnit text => "duration " ++ Text.quoted text ++ " is missing a unit"
  | .notANumber text => "invalid duration " ++ Text.quoted text
  | .unknownUnit suffix text =>
    "unknown duration unit " ++ Text.quoted suffix ++ " in " ++ Text.quoted text
  | .tooLarge text => "duration " ++ Text.quoted text ++ " is too large"

/-- The number of a duration text has to fit 128 bits, and the duration in nanoseconds 64 bits. -/
def numberLimit : Nat := Nat.pow 2 128

def nanosLimit : Nat := Nat.pow 2 64

def parseTrimmed (s : List Char) : Except Fault Duration :=
  let text := String.ofList s
  match s.dropWhile Text.isDecimalDigit with
  | [] => .error (.missingUnit text)
  | suffix =>
    match Text.readDigits? 10 (s.takeWhile Text.isDecimalDigit) with
    | none => .error (.notANumber text)
    | some value =>
      if value < numberLimit then
        match units.lookup (String.ofList suffix) with
        | none => .error (.unknownUnit (String.ofList suffix) text)
        | some scale =>
          if value * scale < nanosLimit then .ok ⟨value * scale⟩ else .error (.tooLarge text)
      else .error (.notANumber text)

/-- Reads a duration: digits, then a unit, with blanks allowed at the ends only. -/
def parse (text : String) : Except Fault Duration :=
  parseTrimmed (Text.trimBlanks text.toList)

end Duration
end ObjectStorage
