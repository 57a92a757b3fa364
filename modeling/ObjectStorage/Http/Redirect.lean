import ObjectStorage.Http.Host
import ObjectStorage.Http.Reference
import ObjectStorage.Http.Transport

/-! # Redirects

Going on to where a response points: up to ten times in a row, and only over the schemes of the web.
-/
namespace ObjectStorage.Http.Redirect

def most : Nat := 10

def statuses : List Nat := [301, 302, 303, 307, 308]

def sensitive : List String :=
  ["authorization", "cookie", "cookie2", "proxy-authorization", "www-authenticate"]

/-- The number of the service that a URI means; each scheme has one of its own. -/
def tcpPortOf (u : Uri) : Option Nat :=
  u.tcpPort?.orElse fun _ =>
    match u.scheme with
    | some "http" => some 80
    | some "https" => some 443
    | _ => none

def isSameHost (a b : Uri) : Bool := a.host? = b.host? && tcpPortOf a = tcpPortOf b

/-- The method of the next request: what asked for a change then asks for its result. -/
def nextMethod (status : Nat) (method : String) : String :=
  if (status = 301 || status = 302) && method = "POST" then "GET"
  else if status = 303 && method != "HEAD" then "GET"
  else method

def keepsBody (status : Nat) (method : String) : Bool :=
  !((status = 301 || status = 302) && method = "POST") && status != 303

def next? (r : Request) (response : Response) : Option Request := do
  guard (statuses.contains response.status)
  let location ← response.headers.first? "location"
  let uri ← Reference.target? r.uri location.text
  return { method := nextMethod response.status r.method, uri := uri
           headers := if isSameHost r.uri uri then r.headers
             else r.headers.filter fun h => !sensitive.contains h.name
           body := if keepsBody response.status r.method then r.body else [] }

def tooMany : TransportError := .other "too many redirects"

def badScheme : TransportError := .other "redirect to a scheme that is not of the web"

def badHost : TransportError := .invalidRequest "redirect to a host that is none"

variable {σ : Type}

def follow (send : Executor σ) : Nat → Executor σ
  | left, r => do
    match ← send r with
    | .error e => return .error e
    | .ok response =>
      match next? r response with
      | none => return .ok response
      | some r =>
        match left with
        | 0 => return .error tooMany
        | left + 1 =>
          if !(r.uri.scheme.any Uri.commonSchemes.contains) then return .error badScheme
          else if (r.uri.authority.bind Host.ofAuthority?).isNone then return .error badHost
          else follow send left r

end ObjectStorage.Http.Redirect
