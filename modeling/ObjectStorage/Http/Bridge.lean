import ObjectStorage.Http.Transport

/-! # The bridge between protocol and transport

The protocol sends its requests through an executor. It can only send a body that is in memory, and it
sees the headers of a response whose values are visible ASCII.
-/
namespace ObjectStorage.Http

inductive Payload where
  | buffered (data : List UInt8)
  | streamed
deriving DecidableEq, Repr

structure Outgoing where
  method : String := "GET"
  uri : Uri
  headers : Headers := []
  payload : Payload := .buffered []
deriving DecidableEq, Repr

inductive ConnectorError where
  | timeout
  | io
  /-- The request cannot be sent as it is. -/
  | user
  | other
deriving DecidableEq, Repr

namespace ConnectorError

def all : List ConnectorError := [timeout, io, user, other]

def ofTransport : TransportError → ConnectorError
  | .timeout _ => timeout
  | .connect _ => io
  | .invalidRequest _ => user
  | .other _ => other

end ConnectorError

namespace Bridge

/-- A request takes a header up, behind those that it has, if its value can be sent. -/
def takeUp (r : Request) (h : Header) : Except ConnectorError Request :=
  if h.value.all Header.isLegalByte then .ok { r with headers := r.headers.append h } else .error .user

def request (o : Outgoing) : Except ConnectorError Request :=
  match o.payload with
  | .streamed => .error .user
  | .buffered data => o.headers.foldlM takeUp { method := o.method, uri := o.uri, body := data }

/-- A header is handed on, behind those that were, if its value is visible. -/
def handOn (r : Response) (h : Header) : Response :=
  if h.isVisible then { r with headers := r.headers.append h } else r

/-- A status has three digits. -/
def isStatus (status : Nat) : Bool := 100 ≤ status && status ≤ 999

def response (r : Response) : Except ConnectorError Response :=
  if isStatus r.status then .ok (r.headers.foldl handOn { status := r.status, body := r.body }) else .error .other

variable {σ : Type}

def send (next : Executor σ) (o : Outgoing) : Timed σ (Except ConnectorError Response) :=
  match request o with
  | .error e => return .error e
  | .ok r => do
    match ← next r with
    | .ok answer => return response answer
    | .error e => return .error (.ofTransport e)

/-- What is told of a bridge: nothing of its executor. -/
def description : String := "ExecutorHttpClient \x7b .. \x7d"

end Bridge
end ObjectStorage.Http
