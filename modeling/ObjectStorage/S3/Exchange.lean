import ObjectStorage.Backend
import ObjectStorage.Http.Bridge
import ObjectStorage.S3.PageDocument
import ObjectStorage.S3.Refusal
import ObjectStorage.S3.Signing
import ObjectStorage.S3.Site
import ObjectStorage.S3.Typed

/-! # Exchanges with a bucket

The HTTP request for each request to a bucket, and what the response to it says.
-/
namespace ObjectStorage.S3

namespace Exchange

/-! ## Requests -/

def method : Request → String
  | .put _ _ => "PUT"
  | .delete _ => "DELETE"
  | _ => "GET"

/-- The key in the path; a listing is of the bucket itself. -/
def key? : Request → Option String
  | .get key | .put key _ | .delete key => some key
  | .page _ _ _ => none

def query : Request → List (String × String)
  | .get _ => [("x-id", "GetObject")]
  | .put _ _ => [("x-id", "PutObject")]
  | .delete _ => [("x-id", "DeleteObject")]
  | .page first delimiter token =>
    [("list-type", "2")] ++ (if delimiter.isEmpty then [] else [("delimiter", delimiter)]) ++
    [("prefix", first)] ++ (token.map ("continuation-token", ·)).toList

def body : Request → List UInt8
  | .put _ data => data
  | _ => []

def outgoing (c : StorageConfig) (day bucket : String) (r : Request) : Except StorageError Http.Outgoing :=
  if key? r = some "" then .error (.construction "the key is empty")
  else match Site.of? c bucket, Signing.headers? c day with
    | some site, some headers =>
      .ok { method := method r, uri := site.uri ((key? r).getD "") (query r), headers := headers
            payload := .buffered (body r) }
    | none, _ => .error (.network ("no endpoint: " ++ c.endpoint))
    | _, none => .error (.network "credentials that headers cannot hold")

/-! ## Responses -/

def failureOf : Http.ConnectorError → StorageError
  | .timeout => .timeout "no response in time"
  | .user => .construction "the request cannot be sent"
  | .io => .network "no connection"
  | .other => .network "no response"

/-- The length of the body as the only header of that name gives it. -/
def declaredLength? (r : Http.Response) : Option Nat :=
  match r.headers.textsOf "content-length" with
  | [text] => (Text.readNatural? text.toList).filter (· < Nat.pow 2 64)
  | _ => none

def isWhole (r : Http.Response) : Bool := (declaredLength? r).all (· = r.body.length)

def cutShort (r : Http.Response) : StorageError :=
  .invalidResponse ("status " ++ toString r.status ++ ": the body is not as long as declared")

/-- Whether a response carries out nothing: its status says so, or its body does. -/
def isRefused (r : Http.Response) : Bool := !r.isSuccess || (bodyText? r).any Refusal.isRefusal

def readWhole {α : Type} (rules : Refusal.Rules) (r : Http.Response) (refused : Bool)
    (read : Http.Response → Option α) : Except StorageError α :=
  if !isWhole r then .error (cutShort r)
  else if refused then .error (Refusal.read rules r)
  else match read r with
    | some a => .ok a
    | none => .error (Refusal.unknown r.status)

/-- The size of an object as its length says, if that is no less than nothing. -/
def sizeOf (r : Http.Response) : Nat :=
  match Typed.integer? 64 (Typed.valuesOf "content-length" r.headers) with
  | some (some (.ofNat n)) => n
  | _ => r.body.length

def readObject (r : Http.Response) : Except StorageError Fetched :=
  if !r.isSuccess then readWhole Refusal.ofGet r true fun _ => none
  else if !(Typed.allFit Typed.ofGet r.headers && Typed.propertiesFit r.headers) then
    .error (Refusal.unknown r.status)
  else if isWhole r then .ok ⟨r.body, sizeOf r⟩
  else .error (.network "reading object body: it is not as long as declared")

def confirmed {α : Type} (table : List (String × Typed.Kind)) (r : Http.Response) (a : Option α) : Option α :=
  if Typed.allFit table r.headers then a else none

def read : (r : Request) → Http.Response → Answer r
  | .get _, response => readObject response
  | .put _ _, response =>
    readWhole Refusal.ofPut response (isRefused response) fun r => confirmed Typed.ofPut r (some ())
  | .delete _, response =>
    readWhole Refusal.ofDelete response (isRefused response) fun r => confirmed Typed.ofDelete r (some ())
  | .page _ _ _, response =>
    readWhole Refusal.ofPage response (isRefused response) fun r =>
      confirmed Typed.ofPage r ((bodyText? r).bind PageDocument.read?)

end Exchange

variable {σ : Type}

def bucket (c : StorageConfig) (day : String) (next : Http.Executor σ) (name : String) : Backend σ where
  call r :=
    match Exchange.outgoing c day name r with
    | .error e => return .error e
    | .ok o => do
      match ← Http.Bridge.send next o with
      | .ok response => return Exchange.read r response
      | .error e => return .error (Exchange.failureOf e)

end ObjectStorage.S3
