import ObjectStorage.Text.Digits
import ObjectStorage.Xml.Token

/-! # Elements

Reading elements from tokens. An element ends at the end tag of its name that stands as deep as its
start tag, or where the tokens end.
-/
namespace ObjectStorage.Xml

/-- A token and how deep it stands. An end tag stands as deep as its start tag. -/
structure Nested where
  token : Token
  depth : Nat
deriving Repr

def nest : Nat → List Token → List Nested
  | _, [] => []
  | depth, t :: rest =>
    match t with
    | .startTag _ .opened => ⟨t, depth⟩ :: nest (depth + 1) rest
    | .endTag _ => ⟨t, depth - 1⟩ :: nest (depth - 1) rest
    | _ => ⟨t, depth⟩ :: nest depth rest

/-- The inside of an element; one that its start tag closes has none. -/
structure Scope where
  name : Name
  depth : Nat
  closed : Bool
deriving Repr

inductive Fault where
  | noRoot
  | notText
  | malformed
deriving DecidableEq, Repr

namespace Scope

def endsAt (sc : Scope) (t : Nested) : Bool := t.token = .endTag sc.name && t.depth = sc.depth

def leave (sc : Scope) : List Nested → List Nested
  | [] => []
  | t :: rest => if sc.endsAt t then rest else sc.leave rest

end Scope

def root? : List Nested → Option (Scope × List Nested)
  | [] => none
  | t :: rest =>
    match t.token with
    | .startTag name .opened => some (⟨name, t.depth, false⟩, rest)
    | .startTag name .closed => some (⟨name, t.depth, true⟩, rest)
    | _ => root? rest

def rootOf (s : List Char) : Except Fault (Scope × List Nested) :=
  match root? (nest 0 (tokens s)) with
  | some found => .ok found
  | none => .error .noRoot

def namedEntities : List (String × Char) :=
  [("lt", '<'), ("gt", '>'), ("amp", '&'), ("quot", '"'), ("apos", '\'')]

/-- The character of an entity: named, or given by code point. -/
def entity? (e : List Char) : Option Char :=
  match namedEntities.lookup (String.ofList e) with
  | some c => some c
  | none =>
    let code := match e with
      | '#' :: 'x' :: digits => number? 16 digits
      | '#' :: digits => number? 10 digits
      | _ => none
    code.bind fun n => if h : n.isValidChar then some (Char.ofNatAux n h) else none
where
  number? (base : Nat) (digits : List Char) : Option Nat :=
    Text.readDigits? base (match digits with
      | '+' :: rest => rest
      | _ => digits)

def unescape : Nat → List Char → Option (List Char)
  | 0, s => some s
  | _, [] => some []
  | fuel + 1, '&' :: rest => do
    let name := rest.takeWhile fun c => c != ';' && c != '&'
    guard (rest[name.length]? = some ';')
    return (← entity? name) :: (← unescape fuel (rest.drop (name.length + 1)))
  | fuel + 1, c :: rest => return c :: (← unescape fuel rest)

/-- The text of an element up to the first thing that is no text, and what follows the element. A
child element is a fault. -/
def textOf (sc : Scope) (ts : List Nested) : Except Fault (String × List Nested) :=
  if sc.closed then .ok ("", ts) else go ts
where
  go : List Nested → Except Fault (String × List Nested)
    | [] => .ok ("", [])
    | t :: rest =>
      if sc.endsAt t then .ok ("", rest)
      else match t.token with
        | .text content =>
          match unescape (content.length + 1) content with
          | some s => .ok (String.ofList s, sc.leave rest)
          | none => .error .malformed
        | .startTag _ _ => .error .notText
        | .broken => .error .malformed
        | _ => go rest

/-- Visits the children of an element in order. A visit gives what follows the child. -/
def children {σ : Type} (visit : Scope → List Nested → σ → Except Fault (σ × List Nested)) (sc : Scope) :
    Nat → List Nested → σ → Except Fault (σ × List Nested)
  | 0, ts, s => .ok (s, ts)
  | _, [], s => .ok (s, [])
  | fuel + 1, t :: rest, s =>
    if sc.closed then .ok (s, t :: rest)
    else if sc.endsAt t then .ok (s, rest)
    else match t.token with
      | .startTag _ .missing => .ok (s, [])
      | .startTag name tagEnd => do
        let (s, rest) ← visit ⟨name, t.depth, tagEnd = .closed⟩ rest s
        children visit sc fuel rest s
      | _ => children visit sc fuel rest s

/-- A child element by name and what its text or its own children do to a value. -/
inductive Reading (σ : Type) where
  | text (name : String) (read : String → σ → Option σ)
  | element (name : String) (read : Scope → List Nested → σ → Except Fault (σ × List Nested))

namespace Reading

variable {σ : Type}

def name : Reading σ → String
  | .text name _ => name
  | .element name _ => name

end Reading

/-- Reads an element by a table of its children. Those that are not in the table are passed over. -/
def readElement {σ : Type} (table : List (Reading σ)) (sc : Scope) (ts : List Nested) (s : σ) :
    Except Fault (σ × List Nested) :=
  children (fun child ts s =>
    match table.find? (·.name = child.name.label) with
    | some (.text _ read) => do
      let (content, rest) ← textOf child ts
      match read content s with
      | some s => .ok (s, rest)
      | none => .error .malformed
    | some (.element _ read) => read child ts s
    | none => .ok (s, if child.closed then ts else child.leave ts)) sc (ts.length + 1) ts s

end ObjectStorage.Xml
