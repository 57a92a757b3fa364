import ObjectStorage.Http.Uri

/-! # HTTP messages

Requests and responses with their whole body. A header is a name in lower case and the bytes of one
value; a name can stand several times, and the order of its values is kept.
-/
namespace ObjectStorage.Http

structure Header where
  name : String
  value : List UInt8
deriving DecidableEq, Repr

def Header.ofText (name value : String) : Header := ⟨name.toLower, value.toUTF8.toList⟩

namespace Header

/-- Bytes that values can have: no controls but the tab. -/
def isLegalByte (b : UInt8) : Bool := (32 ≤ b && b != 127) || b == 9

def isVisible (h : Header) : Bool := h.value.all fun b => (32 ≤ b && b < 127) || b == 9

def text (h : Header) : String :=
  (String.fromUTF8? (ByteArray.mk h.value.toArray)).getD
    (String.ofList (h.value.map fun b => Char.ofNat b.toNat))

end Header

abbrev Headers := List Header

namespace Headers

def valuesOf (name : String) (hs : Headers) : List (List UInt8) :=
  (hs.filter (·.name = name)).map (·.value)

def first? (name : String) (hs : Headers) : Option Header := hs.find? (·.name = name)

def textsOf (name : String) (hs : Headers) : List String := (hs.filter (·.name = name)).map (·.text)

def append (h : Header) (hs : Headers) : Headers := hs ++ [h]

def set (h : Header) (hs : Headers) : Headers := hs.filter (·.name ≠ h.name) ++ [h]

/-- The headers by name; those of one name stay in order. -/
def sorted (hs : Headers) : Headers := hs.mergeSort fun a b => a.name ≤ b.name

end Headers

structure Request where
  method : String := "GET"
  uri : Uri
  headers : Headers := []
  body : List UInt8 := []
deriving DecidableEq, Repr

structure Response where
  status : Nat := 200
  headers : Headers := []
  body : List UInt8 := []
deriving DecidableEq, Repr

namespace Response

def isSuccess (r : Response) : Bool := 200 ≤ r.status && r.status ≤ 299

end Response
end ObjectStorage.Http
