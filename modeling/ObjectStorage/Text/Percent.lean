import ObjectStorage.Text.Digits

/-! # Percent encoding

A byte that has no character of its own in a URI is written as a percent sign and two upper-case
hexadecimal digits.
-/
namespace ObjectStorage.Text

def isUnreserved (c : Char) : Bool :=
  c.isAlpha || c.isDigit || c == '-' || c == '.' || c == '_' || c == '~'

def percentByte (b : UInt8) : List Char := '%' :: (hexFixed 2 b.toNat).map Char.toUpper

def percentChar (c : Char) : List Char := (String.singleton c).toUTF8.toList.flatMap percentByte

def percentEncode (keeps : Char → Bool) (s : List Char) : List Char :=
  s.flatMap fun c => if isUnreserved c || keeps c then [c] else percentChar c

def encodeComponent (s : String) : String := String.ofList (percentEncode (fun _ => false) s.toList)

def encodePath (s : String) : String := String.ofList (percentEncode (· == '/') s.toList)

end ObjectStorage.Text
