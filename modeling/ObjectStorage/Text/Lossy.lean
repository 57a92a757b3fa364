/-! # Text of any bytes

The text of bytes that may not be well formed: what can be no part of a character becomes a replacement
character, and so does each beginning of a character that does not go on.
-/
namespace ObjectStorage.Text

def replacement : Char := '\ufffd'

/-- How a character goes on after its first byte: the range of its second byte, and how many more
follow. -/
structure Lead where
  low : Nat
  high : Nat
  more : Nat
  /-- The bits that the first byte gives. -/
  bits : Nat

def lead? (first : Nat) : Option Lead :=
  if 0xc2 ≤ first && first ≤ 0xdf then some ⟨0x80, 0xbf, 0, first - 0xc0⟩
  else if first = 0xe0 then some ⟨0xa0, 0xbf, 1, 0⟩
  else if first = 0xed then some ⟨0x80, 0x9f, 1, 0xd⟩
  else if 0xe1 ≤ first && first ≤ 0xef then some ⟨0x80, 0xbf, 1, first - 0xe0⟩
  else if first = 0xf0 then some ⟨0x90, 0xbf, 2, 0⟩
  else if 0xf1 ≤ first && first ≤ 0xf3 then some ⟨0x80, 0xbf, 2, first - 0xf0⟩
  else if first = 0xf4 then some ⟨0x80, 0x8f, 2, 4⟩
  else none

inductive Partial where
  | none
  | inside (low high more bits : Nat)

def decodeFrom : Partial → List UInt8 → List Char
  | .none, [] => []
  | .inside .., [] => [replacement]
  | .none, b :: rest => start b.toNat (decodeFrom .none rest) fun l => decodeFrom (inside l) rest
  | .inside low high more bits, b :: rest =>
    let n := b.toNat
    if low ≤ n && n ≤ high then
      let bits := bits * 64 + (n - 0x80)
      match more with
      | 0 => Char.ofNat bits :: decodeFrom .none rest
      | more + 1 => decodeFrom (.inside 0x80 0xbf more bits) rest
    else replacement :: start n (decodeFrom .none rest) fun l => decodeFrom (inside l) rest
where
  inside (l : Lead) : Partial := .inside l.low l.high l.more l.bits
  start (n : Nat) (rest : List Char) (goOn : Lead → List Char) : List Char :=
    if n < 0x80 then Char.ofNat n :: rest
    else match lead? n with
      | some l => goOn l
      | none => replacement :: rest

def ofBytes (bytes : List UInt8) : String := String.ofList (decodeFrom .none bytes)

end ObjectStorage.Text
