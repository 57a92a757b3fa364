import ObjectStorage.Listing.Page
import ObjectStorage.Xml.Scope

/-! # Documents of pages

The document with a page of a bucket's listing. All its fields are read, also those that do not count.
-/
namespace ObjectStorage.S3.PageDocument

open Xml (Reading)

structure Entry where
  key : Option String := none
  size : Int := 0
  modified : Option Timestamp := none
deriving DecidableEq, Repr

def Entry.meta? (e : Entry) : Option ObjectMeta := e.key.map fun key => ⟨key, e.size.toNat, e.modified⟩

variable {σ : Type}

def ignored (name : String) : Reading σ := .text name fun _ s => some s

def ignoredNumber (name : String) : Reading σ :=
  .text name fun text s => (Text.readInteger? 32 text.toList).map fun _ => s

def truth? : String → Option Bool
  | "true" => some true
  | "false" => some false
  | _ => none

def ignoredElement (name : String) (table : List (Reading Unit)) : Reading σ :=
  .element name fun sc ts s => do
    let (_, rest) ← Xml.readElement table sc ts ()
    return (s, rest)

def ownerTable : List (Reading Unit) := [ignored "DisplayName", ignored "ID"]

def restoreTable : List (Reading Unit) :=
  [.text "IsRestoreInProgress" fun text _ => (truth? text).map fun _ => (),
   .text "RestoreExpiryDate" fun text _ => (Timestamp.parse? text).map fun _ => ()]

def entryTable : List (Reading Entry) :=
  [.text "Key" fun text e => some { e with key := some text },
   .text "LastModified" fun text e =>
     (Timestamp.parse? text).map fun t => { e with modified := Timestamp.ofSeconds? t.seconds t.nanos },
   .text "Size" fun text e => (Text.readInteger? 64 text.toList).map fun n => { e with size := n },
   ignored "ETag", ignored "StorageClass", ignored "ChecksumAlgorithm", ignored "ChecksumType",
   ignoredElement "Owner" ownerTable, ignoredElement "RestoreStatus" restoreTable]

def prefixTable : List (Reading (Option String)) := [.text "Prefix" fun text _ => some (some text)]

def pageTable : List (Reading Page) :=
  [.text "IsTruncated" fun text p => (truth? text).map fun b => { p with truncated := b },
   .text "NextContinuationToken" fun text p => some { p with next := some text },
   .element "Contents" fun sc ts p => do
     let (e, rest) ← Xml.readElement entryTable sc ts {}
     return ({ p with objects := p.objects ++ e.meta?.toList }, rest),
   .element "CommonPrefixes" fun sc ts p => do
     let (common, rest) ← Xml.readElement prefixTable sc ts none
     return ({ p with commonPrefixes := p.commonPrefixes ++ common.toList }, rest),
   ignored "Name", ignored "Prefix", ignored "Delimiter", ignored "EncodingType",
   ignored "ContinuationToken", ignored "StartAfter", ignoredNumber "KeyCount", ignoredNumber "MaxKeys"]

def rootLabel : String := "ListBucketResult"

def read? (text : List Char) : Option Page :=
  match Xml.rootOf text with
  | .error _ => none
  | .ok (sc, ts) =>
    if sc.name.label = rootLabel then (Xml.readElement pageTable sc ts {}).toOption.map (·.1) else none

end ObjectStorage.S3.PageDocument
