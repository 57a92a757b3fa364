import ObjectStorage.Yaml.Scalar
import ObjectStorage.Decimal.Binary64

/-! # What scalars mean

A plain scalar is null, a boolean, an integer, a floating-point number or else a string; a core tag
can ask for one of them.
-/
namespace ObjectStorage.Yaml

inductive Number where
  | finite (x : Decimal.Binary64)
  | infinite (negative : Bool)
  | notANumber
deriving DecidableEq, Repr

def Number.text : Number → String
  | .finite x => x.text
  | .infinite negative => if negative then "-inf" else "inf"
  | .notANumber => "NaN"

inductive Resolved where
  | null
  | bool (b : Bool)
  | int (i : Int)
  | float (x : Number)
  | text (s : String)
deriving DecidableEq, Repr

def nullTexts : List String := ["null", "Null", "NULL", "~"]
def trueTexts : List String := ["true", "True", "TRUE"]
def falseTexts : List String := ["false", "False", "FALSE"]

def isNullText (s : String) : Bool := nullTexts.contains s

def boolOfText? (s : String) : Option Bool :=
  if trueTexts.contains s then some true else if falseTexts.contains s then some false else none

/-- Whether a text is a zero followed by more digits, which is no number. -/
def hasLeadingZero (s : List Char) : Bool :=
  let s := match s with
    | '-' :: r | '+' :: r => r
    | _ => s
  match s with
  | '0' :: r => !r.isEmpty && r.all Text.isDecimalDigit
  | _ => false

def bases : List (Char × Nat) := [('x', 16), ('o', 8), ('b', 2)]

/-- A number without a sign, with a base given after a zero or none. Digits that do not fit the given
base leave the text to be read as decimal, which fails on the letter. -/
def magnitude? (s : List Char) : Option Nat :=
  match s with
  | '0' :: c :: digits =>
    match bases.lookup c with
    | some base => Text.readDigits? base digits
    | none => if hasLeadingZero s then none else Text.readDigits? 10 s
  | _ => Text.readDigits? 10 s

def natural? (limit : Nat) (s : List Char) : Option Nat :=
  let s := match s with
    | '+' :: r => r
    | _ => s
  (magnitude? s).filter (· < limit)

/-- A text with a minus sign as an integer; the limit is the largest magnitude. -/
def negative? (limit : Nat) (s : List Char) : Option Int :=
  match s with
  | '-' :: r => ((magnitude? r).filter (· ≤ limit)).map fun n => -(n : Int)
  | _ => none

/-- The integers that fit 64 bits are told from those that fit 128 bits only. -/
def integer? (s : List Char) : Option Int :=
  match natural? (Nat.pow 2 128) s with
  | some n => some n
  | none => negative? (Nat.pow 2 127) s

/-- A decimal number: digits with at most one point, and an exponent. -/
def decimal? (s : List Char) : Option (Bool × Nat × Int) := do
  let (negative, s) := match s with
    | '-' :: r => (true, r)
    | '+' :: r => (false, r)
    | _ => (false, s)
  let whole := s.takeWhile Text.isDecimalDigit
  let s := s.dropWhile Text.isDecimalDigit
  let (part, s) := match s with
    | '.' :: r => (r.takeWhile Text.isDecimalDigit, r.dropWhile Text.isDecimalDigit)
    | _ => ([], s)
  let digits ← Text.readDigits? 10 (whole ++ part)
  let exponent ← match s with
    | [] => some 0
    | c :: r =>
      if c = 'e' || c = 'E' then
        match r with
        | '-' :: r => (Text.readDigits? 10 r).map fun n => -(n : Int)
        | '+' :: r => (Text.readDigits? 10 r).map fun n => (n : Int)
        | _ => (Text.readDigits? 10 r).map fun n => (n : Int)
      else none
  some (negative, digits, exponent - part.length)

def infinityTexts : List String := [".inf", ".Inf", ".INF"]
def notANumberTexts : List String := [".nan", ".NaN", ".NAN"]

/-- A text as a floating-point number; one that is too large is none. -/
def float? (s : List Char) : Option Number :=
  let unsigned := match s with
    | '+' :: r => r
    | _ => s
  if unsigned.head?.any (fun c => c = '+' || c = '-') && s.head? = some '+' then none
  else if infinityTexts.contains (String.ofList unsigned) then some (.infinite false)
  else if s.head? = some '-' && infinityTexts.contains (String.ofList s.tail) then some (.infinite true)
  else if notANumberTexts.contains (String.ofList s) then some .notANumber
  else do
    let (negative, digits, exponent) ← decimal? unsigned
    (Decimal.Binary64.ofDecimal? negative digits exponent).map .finite

def resolvePlain (text : String) : Resolved :=
  let s := text.toList
  if text.isEmpty || isNullText text then .null
  else match boolOfText? text with
    | some b => .bool b
    | none => match integer? s with
      | some i => .int i
      | none =>
        if hasLeadingZero s then .text text
        else match float? s with
          | some x => .float x
          | none => .text text

/-- Whether a text would not read back as a string if it were written plainly. -/
def needsQuotes (text : String) : Bool :=
  match resolvePlain text with
  | .text s => hasLeadingZero s.toList
  | _ => true

structure TagMismatch where
  text : String
  wanted : String
deriving Repr, DecidableEq

def coreTag (name : String) : String := "tag:yaml.org,2002:" ++ name

def isLocalTag (tag : String) : Bool := tag.startsWith "!"

def resolve (tag : Option String) (style : Style) (text : String) : Except TagMismatch Resolved :=
  let wanted (name : String) (r : Option Resolved) : Except TagMismatch Resolved :=
    match r with
    | some r => .ok r
    | none => .error ⟨text, name⟩
  match tag with
  | none => .ok (if style = .plain then resolvePlain text else .text text)
  | some tag =>
    if tag = coreTag "bool" then wanted "a boolean" ((boolOfText? text).map .bool)
    else if tag = coreTag "int" then wanted "an integer" ((integer? text.toList).map .int)
    else if tag = coreTag "float" then wanted "a float" ((float? text.toList).map .float)
    else if tag = coreTag "null" then wanted "null" (if isNullText text then some .null else none)
    else if isLocalTag tag && style = .plain then .ok (resolvePlain text)
    else .ok (.text text)

end ObjectStorage.Yaml
