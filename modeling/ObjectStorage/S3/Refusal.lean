import ObjectStorage.Failure
import ObjectStorage.Http.Message
import ObjectStorage.Xml.Scope

/-! # Refusals

The failures that a store tells: a document with a code and a message, next to the status. Some codes
have fields of their own in the document, which have to be readable too.
-/
namespace ObjectStorage.S3

def bodyText? (r : Http.Response) : Option (List Char) :=
  (String.fromUTF8? (ByteArray.mk r.body.toArray)).map String.toList

namespace Refusal

structure Detail where
  code : Option String := none
  message : Option String := none
deriving DecidableEq, Repr

def detailTable : List (Xml.Reading Detail) :=
  [.text "Code" fun s d => some { d with code := some s },
   .text "Message" fun s d => some { d with message := some s },
   .text "RequestId" fun _ d => some d]

def rootLabel : String := "Error"

def detail? (text : List Char) : Option Detail :=
  match Xml.rootOf text with
  | .error _ => none
  | .ok (sc, ts) => (Xml.readElement detailTable sc ts {}).toOption.map (·.1)

def isRefusal (text : List Char) : Bool :=
  match Xml.rootOf text with
  | .error _ => false
  | .ok (sc, _) => sc.name.label = rootLabel

def fieldsFit (fields : List String) (text : List Char) : Bool :=
  match Xml.rootOf text with
  | .error _ => false
  | .ok (sc, ts) =>
    sc.name.label = rootLabel &&
    (Xml.readElement (fields.map fun name => .text name fun _ s => some s) sc ts ()).isOk

structure Rules where
  /-- The codes with fields of their own. -/
  fields : List (String × List String) := []
  /-- Whether a message counts if there is no code. -/
  keepsMessage : Bool := false

def plain (names : List String) : List (String × List String) := names.map (·, [])

def ofGet : Rules :=
  { fields := plain ["NoSuchKey"] ++ [("InvalidObjectState", ["StorageClass", "AccessTier"])] }

def ofPut : Rules :=
  { fields := plain ["EncryptionTypeMismatch", "InvalidRequest", "InvalidWriteOffset", "TooManyParts"] }

def ofDelete : Rules := { keepsMessage := true }

def ofPage : Rules := { fields := plain ["NoSuchBucket"] }

/-- The code of an answer with the status 404 and no body. -/
def missingCode : String := "NotFound"

def unknown (status : Nat) : StorageError := .service "" none (some status)

def read (rules : Rules) (r : Http.Response) : StorageError :=
  if r.body.isEmpty then
    if r.status = 404 then .service missingCode none (some r.status) else unknown r.status
  else match bodyText? r with
    | none => unknown r.status
    | some text =>
      match detail? text with
      | none => unknown r.status
      | some ⟨none, message⟩ => .service "" (if rules.keepsMessage then message else none) (some r.status)
      | some ⟨some code, message⟩ =>
        if (rules.fields.lookup code).all (fieldsFit · text) then .service code message (some r.status)
        else unknown r.status

end Refusal
end ObjectStorage.S3
