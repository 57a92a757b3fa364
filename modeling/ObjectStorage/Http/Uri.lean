import ObjectStorage.Text.Digits

/-! # URIs

URIs as requests name them: absolute ones with a scheme and an authority, a path alone, or an authority
alone. They are kept as written; a fragment is dropped.
-/
namespace ObjectStorage.Http

structure Uri where
  scheme : Option String := none
  authority : Option String := none
  /-- The path; if there is a scheme, it starts with a slash. -/
  path : String := ""
  query : Option String := none
deriving DecidableEq, Repr, Inhabited

namespace Uri

def longest : Nat := 65534

def longestScheme : Nat := 64

def isLetterOrDigit (c : Char) : Bool := c.isAlpha || c.isDigit

def isSchemeChar (c : Char) : Bool := isLetterOrDigit c || c == '+' || c == '-' || c == '.' || c == '~'

/-- Characters an authority can have besides letters and digits, the percent sign apart. -/
def authorityMarks : List Char :=
  ['!', '$', '&', '\'', '(', ')', '*', '+', ',', '-', '.', ':', ';', '=', '@', '[', ']', '_', '~']

def isAuthorityChar (c : Char) : Bool := isLetterOrDigit c || authorityMarks.contains c || c == '%'

def endsAuthority (c : Char) : Bool := c == '/' || c == '?' || c == '#'

/-- Characters a path can have; controls, spaces, angle brackets and grave accents are not among them. -/
def isPathChar (c : Char) : Bool := '!' ≤ c && c != '#' && c != '<' && c != '>' && c != '?' && c != '\x60'

def isQueryChar (c : Char) : Bool := '!' ≤ c && c != '"' && c != '#' && c != '<' && c != '>'

def afterLast (mark : Char) (s : List Char) : List Char := (s.reverse.takeWhile (· != mark)).reverse

/-- Whether the brackets of an authority are one pair around an address or none at all. -/
def bracketsMatch (s : List Char) : Bool :=
  match s.count '[', s.count ']' with
  | 0, 0 => true
  | 1, 1 => s.idxOf '[' < s.idxOf ']'
  | _, _ => false

/-- Whether a text is an authority. A percent sign can only stand before the host or inside the
brackets, and one colon at most comes after them. -/
def isAuthority (s : List Char) : Bool :=
  let host := afterLast '@' s
  let rest := afterLast ']' host
  s.all isAuthorityChar && bracketsMatch s && s.getLast? != some '@' &&
  rest.count ':' ≤ 1 && !rest.contains '%' && !(host.takeWhile (· != '[')).contains '%'

def pathQuery? (s : List Char) : Option (String × Option String) :=
  let path := s.takeWhile fun c => c != '?' && c != '#'
  if path.all isPathChar then
    match s.drop path.length with
    | '?' :: rest =>
      let query := rest.takeWhile (· != '#')
      if query.all isQueryChar then some (String.ofList path, some (String.ofList query)) else none
    | _ => some (String.ofList path, none)
  else none

def scheme? (s : List Char) : Option (List Char × List Char) :=
  let scheme := s.takeWhile isSchemeChar
  match s.drop scheme.length with
  | ':' :: '/' :: '/' :: rest => some (scheme, rest)
  | _ => none

def commonSchemes : List String := ["http", "https"]

def keptScheme (s : List Char) : String :=
  let lower := (String.ofList s).toLower
  if commonSchemes.contains lower then lower else String.ofList s

def parse? (text : String) : Option Uri :=
  let s := text.toList
  if longest < text.utf8ByteSize || s.isEmpty then none
  else if s = ['*'] then some { path := "*" }
  else if s.head? = some '/' then (pathQuery? s).map fun (path, query) => { path := path, query := query }
  else match scheme? s with
    | none => if isAuthority s then some { authority := some text } else none
    | some (scheme, rest) =>
      let authority := rest.takeWhile fun c => !endsAuthority c
      if longestScheme < scheme.length || authority.isEmpty || !isAuthority authority then none
      else (pathQuery? (rest.drop authority.length)).map fun (path, query) =>
        { scheme := some (keptScheme scheme), authority := some (String.ofList authority),
          path := if path.isEmpty then "/" else path, query := query }

def text (u : Uri) : String :=
  (u.scheme.map (· ++ "://")).getD "" ++ u.authority.getD "" ++ u.path ++ (u.query.map ("?" ++ ·)).getD ""

/-- The host of an authority, without the user before it and the number after it. -/
def hostOf (authority : String) : String :=
  let s := afterLast '@' authority.toList
  String.ofList (if s.head? = some '[' then s.takeWhile (· != ']') ++ [']'] else s.takeWhile (· != ':'))

/-- The number after the host, if there is one; it is below 65536. -/
def tcpPortOf? (authority : String) : Option Nat :=
  let s := authority.toList
  if s.contains ':' then (Text.readDigits? 10 (afterLast ':' s)).filter (· < 65536) else none

def host? (u : Uri) : Option String := u.authority.map hostOf

def tcpPort? (u : Uri) : Option Nat := u.authority.bind tcpPortOf?

def queryParts (u : Uri) : List String :=
  match u.query with
  | none => []
  | some q => q.splitOn "&"

end Uri
end ObjectStorage.Http
