import ObjectStorage.Http.Message
import ObjectStorage.Time.HttpDate

/-! # Typed headers

The headers of a response whose values have types. A response with one that does not have its type, or
with several values where there can be one, cannot be read.
-/
namespace ObjectStorage.S3.Typed

inductive Kind where
  | text
  | integer (bits : Nat)
  | flag
  | date
  /-- A date that is left out if its first value is none. -/
  | laxDate
  | timestamp
deriving DecidableEq, Repr

def isGap (c : Char) : Bool := c == ' ' || c == '\t'

def quotedItem? : List Char → Option (List Char × List Char)
  | [] => none
  | '"' :: rest => some ([], rest)
  | '\\' :: '"' :: rest => (quotedItem? rest).map fun (item, rest) => ('\\' :: '"' :: item, rest)
  | c :: rest => (quotedItem? rest).map fun (item, rest) => (c :: item, rest)

def item? (s : List Char) : Option (List Char × List Char) :=
  match s.dropWhile isGap with
  | '"' :: rest => do
    let (item, rest) ← quotedItem? rest
    match rest with
    | [] => return (item, [])
    | ',' :: rest => return (item, rest)
    | _ => failure
  | s =>
    let item := s.takeWhile (· != ',')
    some (Text.trimBlanks item, (s.drop item.length).tail)

/-- The items of a list between commas. The empty text has none, and a comma at its end adds none. -/
def items? : Nat → List Char → Option (List (List Char))
  | 0, _ => some []
  | fuel + 1, s =>
    if s.isEmpty then some []
    else do
      let (item, rest) ← item? s
      return item :: (← items? fuel rest)

def dates? (read : List Char → Option (Timestamp × List Char)) : Nat → List Char → Option (List Timestamp)
  | 0, _ => some []
  | fuel + 1, s =>
    if s.isEmpty then some []
    else do
      let (date, rest) ← read s
      match rest with
      | [] => return [date]
      | ',' :: rest => return date :: (← dates? read fuel rest)
      | _ => failure

def readTimestamp? (s : List Char) : Option (Timestamp × List Char) := do
  let first ← Text.throughFirst ['Z'] s
  return (← Timestamp.parse? (String.ofList first), s.drop first.length)

def allItems? (values : List (List Char)) : Option (List (List Char)) := do
  return (← values.mapM fun v => items? (v.length + 1) v).flatten

/-- A number as the only item of a header; none if there is no item. -/
def integer? (bits : Nat) (values : List (List Char)) : Option (Option Int) := do
  match ← allItems? values with
  | [] => return none
  | [item] => return some (← Text.readInteger? bits item)
  | _ => failure

def fits (kind : Kind) (values : List (List Char)) : Bool :=
  match kind with
  | .text => values.length ≤ 1
  | .integer bits => (integer? bits values).isSome
  | .flag =>
    match allItems? values with
    | some items => items.length ≤ 1 && items.all fun i => i = "true".toList || i = "false".toList
    | none => false
  | .date => datesFit HttpDate.read?
  | .laxDate => !(values.head?.bind HttpDate.parse?).isSome || datesFit HttpDate.read?
  | .timestamp => datesFit readTimestamp?
where
  datesFit (read : List Char → Option (Timestamp × List Char)) : Bool :=
    match values.mapM fun v => dates? read (v.length + 1) v with
    | some dates => dates.flatten.length ≤ 1
    | none => false

def valuesOf (name : String) (hs : Http.Headers) : List (List Char) :=
  (hs.textsOf name).map String.toList

def allFit (table : List (String × Kind)) (hs : Http.Headers) : Bool :=
  table.all fun (name, kind) => fits kind (valuesOf name hs)

def propertyMark : String := "x-amz-meta-"

def propertiesFit (hs : Http.Headers) : Bool :=
  hs.all fun h => !propertyMark.toList.isPrefixOf h.name.toList || (valuesOf h.name hs).length ≤ 1

def checksums : List String :=
  ["x-amz-checksum-crc32", "x-amz-checksum-crc32c", "x-amz-checksum-crc64nvme", "x-amz-checksum-sha1",
   "x-amz-checksum-sha256", "x-amz-checksum-type"]

def encryption : List String :=
  ["x-amz-server-side-encryption", "x-amz-server-side-encryption-aws-kms-key-id",
   "x-amz-server-side-encryption-customer-algorithm", "x-amz-server-side-encryption-customer-key-md5"]

def content : List String :=
  ["accept-ranges", "cache-control", "content-disposition", "content-encoding", "content-language",
   "content-range", "content-type", "x-amz-object-lock-legal-hold", "x-amz-object-lock-mode",
   "x-amz-replication-status", "x-amz-restore", "x-amz-storage-class", "x-amz-website-redirect-location"]

def version : List String := ["etag", "x-amz-expiration", "x-amz-version-id"]

def charged : String := "x-amz-request-charged"

def bucketKey : String := "x-amz-server-side-encryption-bucket-key-enabled"

def asTexts (names : List String) : List (String × Kind) := names.map (·, .text)

def ofGet : List (String × Kind) :=
  asTexts (checksums ++ encryption ++ content ++ version ++ [charged]) ++
  [("content-length", .integer 64), ("last-modified", .date), ("expires", .laxDate),
   ("x-amz-missing-meta", .integer 32), ("x-amz-mp-parts-count", .integer 32),
   ("x-amz-tagging-count", .integer 32), ("x-amz-delete-marker", .flag), (bucketKey, .flag),
   ("x-amz-object-lock-retain-until-date", .timestamp)]

def ofPut : List (String × Kind) :=
  asTexts (checksums ++ encryption ++ version ++ [charged, "x-amz-server-side-encryption-context"]) ++
  [("x-amz-object-size", .integer 64), (bucketKey, .flag)]

def ofDelete : List (String × Kind) :=
  asTexts [charged, "x-amz-version-id"] ++ [("x-amz-delete-marker", .flag)]

def ofPage : List (String × Kind) := asTexts [charged]

end ObjectStorage.S3.Typed
