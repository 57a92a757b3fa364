import ObjectStorage.Http.Redirect
import ObjectStorage.Http.Wire

/-! # A server on this host

A server that gives the replies of a script, and the transport that reaches no other server. Each
connection carries one request and takes the next reply.
-/
namespace ObjectStorage.Http

inductive Reply where
  | send (bytes : List UInt8)
  | hangUp
deriving DecidableEq, Repr

namespace Reply

/-- The reply with a response. The header tells a length that can be more than that of the body. -/
def ofResponse (r : Response) (missing : Nat) (hasLength : Bool) : Reply :=
  let length := if hasLength then [Header.ofText "content-length" (toString (r.body.length + missing))] else []
  .send (Wire.write { r with headers := .ofText "connection" "close" :: r.headers ++ length })

end Reply

structure Loopback where
  /-- Whether there is a server. -/
  listens : Bool := true
  replies : List Reply := []
  /-- The requests that have come, the last one first. -/
  received : List Request := []

namespace Loopback

def authority : String := "127.0.0.1:9000"

def base : String := "http://" ++ authority

def secureBase : String := "https://" ++ authority

def hosts : List String := ["127.0.0.1", "localhost"]

def isReached (s : Loopback) (u : Uri) : Bool :=
  s.listens && u.scheme = some "http" && (u.host?.map String.toLower).any hosts.contains &&
  Redirect.tcpPortOf u = Uri.tcpPortOf? authority

def next (s : Loopback) (r : Request) : Reply × Loopback :=
  let s := { s with received := r :: s.received }
  match s.replies with
  | [] => (.hangUp, s)
  | reply :: rest => (reply, { s with replies := rest })

def outcomeOf (method : String) : Reply → Outcome
  | .hangUp => .error (.connect "connection closed before a response")
  | .send bytes =>
    match Wire.readAll method bytes with
    | .ok response => .ok response
    | .error .head => .error (.connect "no response that can be read")
    | .error .body => .error (.other "error reading the body")

def exchange : Executor Loopback := fun r =>
  .modifyGet fun s =>
    if s.isReached r.uri then
      let (reply, s) := s.next r
      (outcomeOf r.method reply, s)
    else (.error (.connect "connection refused"), s)

def keepsInQuery (c : Char) : Bool := '!' ≤ c && c ≤ '~' && !(['"', '#', '<', '>', '\''].contains c)

def sendable? (u : Uri) : Option Uri := do
  guard (u.scheme.any Uri.commonSchemes.contains)
  let _ ← Host.ofAuthority? (← u.authority)
  return { u with
    path := Path.normal u.path
    query := u.query.map fun q => String.ofList (Text.percentEncode keepsInQuery q.toList) }

def executor : Executor Loopback := fun r =>
  match sendable? r.uri with
  | none => return .error (.invalidRequest ("not a URL: " ++ r.uri.text))
  | some uri => Redirect.follow exchange Redirect.most { r with uri := uri }

end Loopback
end ObjectStorage.Http
