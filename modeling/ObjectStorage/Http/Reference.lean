import ObjectStorage.Http.Path
import ObjectStorage.Http.Uri

/-! # References

References to other resources, as responses give them: a URI, or what differs from the URI of the
request.
-/
namespace ObjectStorage.Http

structure Reference where
  scheme : Option String := none
  authority : Option String := none
  path : String := ""
  query : Option String := none
deriving DecidableEq, Repr

namespace Reference

def marks : List Char := ['-', '.', '_', '~', '!', '$', '&', '\'', '(', ')', '*', '+', ',', ';', '=']

def isPlain (c : Char) : Bool := c.isAlpha || c.isDigit || marks.contains c

/-- Whether a text has plain and some further characters only. A percent sign has two hexadecimal digits
after it. -/
def isMade (more : List Char) : List Char → Bool
  | [] => true
  | '%' :: a :: b :: rest =>
    (Text.hexValue? a).isSome && (Text.hexValue? b).isSome && isMade more rest
  | c :: rest => (isPlain c || more.contains c) && isMade more rest

def isScheme (s : List Char) : Bool :=
  s.head?.any Char.isAlpha && s.all fun c => c.isAlpha || c.isDigit || c == '+' || c == '-' || c == '.'

def before? (mark : Char) (s : List Char) : Option (List Char × List Char) := Text.cut mark s

/-- A path with a query and a fragment; the fragment does not count. -/
def tail? (s : List Char) : Option (String × Option String) := do
  let s := match before? '#' s with
    | some (s, fragment) => if isMade [':', '@', '/', '?'] fragment then some s else none
    | none => some s
  let s ← s
  let (path, query) := match before? '?' s with
    | some (path, query) => (path, some query)
    | none => (s, none)
  guard (isMade [':', '@', '/'] path && query.all (isMade [':', '@', '/', '?']))
  return (String.ofList path, query.map String.ofList)

def rest? (s : List Char) : Option Reference :=
  match s with
  | '/' :: '/' :: s => do
    let authority := s.takeWhile fun c => !Uri.endsAuthority c
    guard (isMade [':', '@', '[', ']'] authority)
    let (path, query) ← tail? (s.drop authority.length)
    return { authority := some (String.ofList authority), path := path, query := query }
  | _ => do
    let (path, query) ← tail? s
    return { path := path, query := query }

/-- Reads a reference. What stands before the first colon is a scheme, unless a slash, a question mark or
a hash comes first. -/
def parse? (text : String) : Option Reference :=
  let s := text.toList
  match before? ':' s with
  | none => rest? s
  | some (scheme, rest) =>
    if scheme.any Uri.endsAuthority then rest? s
    else if isScheme scheme then (rest? rest).map fun r => { r with scheme := some (String.ofList scheme) }
    else none

def merged (base path : String) : String :=
  String.ofList (base.toList.reverse.dropWhile (· != '/')).reverse ++ path

def resolve (base : Uri) (r : Reference) : Reference :=
  match r.scheme, r.authority with
  | some _, _ => { r with path := clean r.path }
  | none, some _ => { r with scheme := base.scheme, path := clean r.path }
  | none, none =>
    let path := if r.path.isEmpty then base.path
      else if r.path.startsWith "/" then clean r.path
      else clean (merged base.path r.path)
    { scheme := base.scheme, authority := base.authority, path := path
      query := if r.path.isEmpty then (r.query.orElse fun _ => base.query) else r.query }
where
  clean (path : String) : String := if path.startsWith "/" then Path.withoutDots path else path

def text (r : Reference) : String :=
  (r.scheme.map (· ++ ":")).getD "" ++ (r.authority.map ("//" ++ ·)).getD "" ++ r.path ++
  (r.query.map ("?" ++ ·)).getD ""

def target? (base : Uri) (text : String) : Option Uri := do
  let _ ← parse? base.text
  let r ← parse? text
  Uri.parse? (r.resolve base).text

end Reference
end ObjectStorage.Http
