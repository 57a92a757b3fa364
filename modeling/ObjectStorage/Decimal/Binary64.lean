/-! # Binary64 numbers

Numbers with 53 significant bits: the nearest one to a decimal number, and the shortest decimal text
from which a number is read back. All arithmetic is exact.
-/
namespace ObjectStorage.Decimal

/-- A finite number `± mantissa · 2 ^ exponent`. -/
structure Binary64 where
  negative : Bool
  mantissa : Nat
  exponent : Int
deriving DecidableEq, Repr

def divEven (num den : Nat) : Nat :=
  let q := num / den
  let twice := 2 * (num % den)
  if twice < den || (twice = den && q % 2 = 0) then q else q + 1

def scale2 (num den : Nat) (q : Int) : Nat × Nat :=
  if q ≥ 0 then (num, den * Nat.pow 2 q.toNat) else (num * Nat.pow 2 (-q).toNat, den)

def leastExponent : Int := -1074

def greatestExponent : Int := 971

/-- The mantissa and exponent nearest to a positive quotient; none if it is too large. -/
def nearest? (num den : Nat) : Option (Nat × Int) :=
  let estimate := max ((Nat.log2 num : Int) - Nat.log2 den - 53) leastExponent
  let (a, b) := scale2 num den estimate
  let q := if a / b ≥ Nat.pow 2 53 then estimate + 1 else estimate
  let (a, b) := scale2 num den q
  let m := divEven a b
  let (m, q) := if m = Nat.pow 2 53 then (Nat.pow 2 52, q + 1) else (m, q)
  if q > greatestExponent then none else some (m, q)

namespace Binary64

/-- The number nearest to `digits · 10 ^ exponent`. Exponents far outside the range are cut first. -/
def ofDecimal? (negative : Bool) (digits : Nat) (exponent : Int) : Option Binary64 :=
  if digits = 0 then some ⟨negative, 0, leastExponent⟩
  else
    let size : Int := Nat.log2 digits * 3 / 10 + exponent
    if size > 400 then none
    else if size < -800 then some ⟨negative, 0, leastExponent⟩
    else
      let (num, den) :=
        if exponent ≥ 0 then (digits * Nat.pow 10 exponent.toNat, 1) else (digits, Nat.pow 10 (-exponent).toNat)
      (nearest? num den).map fun (m, q) => ⟨negative, m, q⟩

/-- Numbers compare by value: both zeros are equal. -/
def sameValue (x y : Binary64) : Bool := x == y || (x.mantissa == 0 && y.mantissa == 0)

def ratio (x : Binary64) : Nat × Nat :=
  if x.exponent ≥ 0 then (x.mantissa * Nat.pow 2 x.exponent.toNat, 1)
  else (x.mantissa, Nat.pow 2 (-x.exponent).toNat)

/-- Whether `c · 10 ^ e` is read back as the number: it lies between the midpoints to its neighbours,
which belong to it if the mantissa is even. -/
def readsBack (x : Binary64) (c : Nat) (e : Int) : Bool :=
  let (num, den) := x.ratio
  let unit := if x.exponent ≥ 0 then Nat.pow 2 x.exponent.toNat else 1
  let (cn, cd) := if e ≥ 0 then (c * Nat.pow 10 e.toNat, 1) else (c, Nat.pow 10 (-e).toNat)
  let below := if x.mantissa = Nat.pow 2 52 && x.exponent > leastExponent then 1 else 2
  let low := 4 * num - below * unit
  let high := 4 * num + 2 * unit
  let even := x.mantissa % 2 = 0
  let left := 4 * cn * den
  (low * cd < left || (even && low * cd = left)) && (left < high * cd || (even && left = high * cd))

/-- Of the two neighbours of the magnitude on the grid of `10 ^ e`, the one that reads back, the nearer
if both do. -/
def onGrid (x : Binary64) (e : Int) : Option Nat :=
  let (num, den) := x.ratio
  let (a, b) := if e ≥ 0 then (num, den * Nat.pow 10 e.toNat) else (num * Nat.pow 10 (-e).toNat, den)
  let below := a / b
  let lowOk := readsBack x below e
  let highOk := readsBack x (below + 1) e
  if lowOk && highOk then some (divEven a b)
  else if lowOk then some below
  else if highOk then some (below + 1)
  else none

/-- The exponent of the leading decimal digit, found from an estimate that may be one too small. -/
def leadingExponent (x : Binary64) : Int :=
  let (num, den) := x.ratio
  let estimate : Int := ((Nat.log2 num : Int) - Nat.log2 den) * 30103 / 100000 - 1
  let reaches (e : Int) : Bool :=
    if e ≥ 0 then den * Nat.pow 10 e.toNat ≤ num else den ≤ num * Nat.pow 10 (-e).toNat
  if reaches (estimate + 2) then estimate + 2
  else if reaches (estimate + 1) then estimate + 1
  else estimate

/-- The fewest decimal digits that read back, trying one digit more each time. -/
def shortest (x : Binary64) : Nat → Int → Nat × Int
  | 0, e => ((x.onGrid e).getD 0, e)
  | n + 1, e =>
    match x.onGrid e with
    | some c => (c, e)
    | none => shortest x n (e - 1)

/-- Decimal digits with a point, never with an exponent. -/
def positional (c : Nat) (e : Int) : String :=
  if e ≥ 0 then toString (c * Nat.pow 10 e.toNat)
  else
    let places := (-e).toNat
    let whole := c / Nat.pow 10 places
    let part := Nat.toDigits 10 (c % Nat.pow 10 places)
    let part := List.replicate (places - part.length) '0' ++ part
    let part := (part.reverse.dropWhile (· = '0')).reverse
    if part.isEmpty then toString whole else toString whole ++ "." ++ String.ofList part

def text (x : Binary64) : String :=
  let magnitude :=
    if x.mantissa = 0 then "0"
    else
      let (c, e) := x.shortest 17 x.leadingExponent
      positional c e
  (if x.negative then "-" else "") ++ magnitude ++
    (if magnitude.contains '.' then "" else ".0")

end Binary64
end ObjectStorage.Decimal
