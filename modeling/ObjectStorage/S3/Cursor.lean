import ObjectStorage.Failure
import ObjectStorage.Text.Blank
import ObjectStorage.Text.Digits

/-! # Cursors

A position in a listing that goes through several buckets: a bucket by its number, and a token of that
bucket. The text of a cursor is the number, a bar and the token; no token is written as an empty one.
-/
namespace ObjectStorage.S3

structure Cursor where
  bucket : Nat := 0
  token : Option String := none
deriving DecidableEq, Repr, Inhabited

namespace Cursor

def startOf (bucket : Nat) : Cursor := { bucket := bucket }

def within (bucket : Nat) (token : String) : Cursor := ⟨bucket, some token⟩

def encode (c : Cursor) : String := toString c.bucket ++ "|" ++ c.token.getD ""

def malformed (raw : String) : StorageError := .invalidResponse ("malformed listing cursor: " ++ raw)

/-- Numbers of buckets fit 64 bits. -/
def bucketLimit : Nat := Nat.pow 2 64

def number? (s : List Char) : Option Nat := (Text.readNatural? s).filter (· < bucketLimit)

def decode? (raw : String) : Option Cursor := do
  let (number, token) ← Text.cut '|' raw.toList
  let bucket ← number? number
  return { bucket := bucket, token := if token.isEmpty then none else some (String.ofList token) }

def decode (raw : String) : Except StorageError Cursor :=
  match decode? raw with
  | some c => .ok c
  | none => .error (malformed raw)

/-- A cursor whose text says where it is: its bucket has a number, and its token is not empty. -/
structure Writable (c : Cursor) : Prop where
  bucket_lt : c.bucket < bucketLimit
  token_ne : c.token ≠ some ""

theorem toList_encode (c : Cursor) :
    c.encode.toList = Nat.toDigits 10 c.bucket ++ '|' :: (c.token.getD "").toList := by
  simp [encode, Nat.toString_eq_repr, Nat.toList_repr]

theorem encode_ne_empty (c : Cursor) : c.encode ≠ "" := by
  intro h
  have hlist := toList_encode c
  simp [h] at hlist

theorem decode_encode {c : Cursor} (h : c.Writable) : decode c.encode = .ok c := by
  have hbar : '|' ∉ Nat.toDigits 10 c.bucket := by
    intro hmem
    have hdigit := Nat.isDigit_of_mem_toDigits (by decide) (by decide) hmem
    exact absurd hdigit (by decide)
  have hnumber : number? (Nat.toDigits 10 c.bucket) = some c.bucket := by
    rw [number?, Text.readNatural?_toDigits]
    exact Option.filter_some_pos (by simpa using h.bucket_lt)
  have hdecode : decode? c.encode = some c := by
    rcases c with ⟨bucket, token⟩
    rw [decode?, toList_encode, Text.cut_append hbar]
    cases token with
    | none => simp [hnumber]
    | some token =>
      have htoken : token ≠ "" := fun heq => h.token_ne (congrArg some heq)
      simp [hnumber, htoken]
  rw [decode, hdecode]

end Cursor
end ObjectStorage.S3
