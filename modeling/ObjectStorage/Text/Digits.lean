/-! # Digits

Numbers written and read in a base up to sixteen.
-/
namespace ObjectStorage.Text

def hexDigit (n : Nat) : Char :=
  if n < 10 then Char.ofNat (0x30 + n) else Char.ofNat (0x57 + n)

def hexValue? (c : Char) : Option Nat :=
  if '0' ≤ c && c ≤ '9' then some (c.toNat - 0x30)
  else if 'a' ≤ c && c ≤ 'f' then some (c.toNat - 0x57)
  else if 'A' ≤ c && c ≤ 'F' then some (c.toNat - 0x37)
  else none

def digitValue? (base : Nat) (c : Char) : Option Nat :=
  (hexValue? c).filter (· < base)

/-- The last `width` hexadecimal digits of a number. -/
def hexFixed : Nat → Nat → List Char
  | 0, _ => []
  | width + 1, n => hexFixed width (n / 16) ++ [hexDigit (n % 16)]

def hexText (n : Nat) : List Char := Nat.toDigits 16 n

def readDigits? (base : Nat) (s : List Char) : Option Nat :=
  if s.isEmpty then none
  else s.foldl (fun acc c => do return (← acc) * base + (← digitValue? base c)) (some 0)

def readNatural? (s : List Char) : Option Nat :=
  readDigits? 10 (match s with
    | '+' :: rest => rest
    | _ => s)

theorem digitValue?_of_isDigit {c : Char} (h : c.isDigit = true) :
    digitValue? 10 c = some (c.toNat - '0'.toNat) := by
  obtain ⟨hlow, hhigh⟩ := Char.isDigit_iff_toNat.1 h
  have hrange : ('0' ≤ c && c ≤ '9') = true := by
    simp only [Bool.and_eq_true, decide_eq_true_eq, Char.le_def, UInt32.le_iff_toNat_le]
    exact ⟨hlow, hhigh⟩
  have hvalue : c.toNat - '0'.toNat < 10 := by
    have hnine : '9'.toNat = '0'.toNat + 9 := rfl
    omega
  rw [digitValue?, hexValue?, if_pos hrange]
  exact Option.filter_some_pos (by simpa using hvalue)

private theorem foldl_digits {s : List Char} (h : ∀ c ∈ s, c.isDigit = true) (acc : Nat) :
    s.foldl (fun acc c => do return (← acc) * 10 + (← digitValue? 10 c)) (some acc) =
      some (Nat.ofDigitChars 10 s acc) := by
  induction s generalizing acc with
  | nil => simp
  | cons c s ih =>
    have hs : ∀ d ∈ s, d.isDigit = true := fun d hd => h d (List.mem_cons_of_mem c hd)
    rw [List.foldl_cons, Nat.ofDigitChars_cons, ← ih hs]
    congr 1
    simp [digitValue?_of_isDigit (h c List.mem_cons_self), Nat.mul_comm]

theorem readDigits?_of_isDigit {s : List Char} (hne : s ≠ []) (h : ∀ c ∈ s, c.isDigit = true) :
    readDigits? 10 s = some (Nat.ofDigitChars 10 s 0) := by
  rw [readDigits?, if_neg (by simpa using hne), foldl_digits h 0]

theorem readNatural?_toDigits (n : Nat) : readNatural? (Nat.toDigits 10 n) = some n := by
  have hdigits : ∀ c ∈ Nat.toDigits 10 n, c.isDigit = true :=
    fun c hc => Nat.isDigit_of_mem_toDigits (by decide) (by decide) hc
  have hread := readDigits?_of_isDigit Nat.toDigits_ne_nil hdigits
  rw [Nat.ofDigitChars_ten_toDigits] at hread
  unfold readNatural?
  split
  · rename_i rest heq
    exact absurd (hdigits '+' (by rw [heq]; simp)) (by decide)
  · exact hread

/-- Reads a decimal number that may have a sign before it, if it fits so many bits. -/
def readInteger? (bits : Nat) (s : List Char) : Option Int :=
  let n : Option Int := match s with
    | '-' :: rest => (readDigits? 10 rest).map fun n => -(n : Int)
    | _ => (readNatural? s).map fun n => (n : Int)
  n.filter fun n => -Int.ofNat (Nat.pow 2 (bits - 1)) ≤ n && n < Int.ofNat (Nat.pow 2 (bits - 1))

def isDecimalDigit (c : Char) : Bool := '0' ≤ c && c ≤ '9'

def hexOfBytes (bytes : List UInt8) : String :=
  String.ofList (bytes.flatMap fun b => hexFixed 2 b.toNat)

/-- Bytes from pairs of hexadecimal digits; stops at the first thing that is no pair. -/
def bytesOfHex : List Char → List UInt8
  | a :: b :: rest =>
    match hexValue? a, hexValue? b with
    | some x, some y => UInt8.ofNat (x * 16 + y) :: bytesOfHex rest
    | _, _ => []
  | _ => []

end ObjectStorage.Text
