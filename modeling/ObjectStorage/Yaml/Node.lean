import ObjectStorage.Yaml.Token

/-! # Nodes

The tree of a document. An alias stays a reference to the node it names, since it may name a node it
stands in.
-/
namespace ObjectStorage.Yaml

inductive Node where
  | scalar (tag : Option String) (style : Style) (text : String)
  | sequence (tag : Option String) (items : List Node)
  | mapping (tag : Option String) (entries : List (Node × Node))
  | aliasTo (target : Nat)
deriving Inhabited, Repr

namespace Node

def plain (text : String) : Node := .scalar none .plain text

def empty : Node := plain ""

end Node

/-- One document: its tree, the nodes its aliases refer to, and how many starts, ends, scalars and
aliases it has. A text without any document has no root. -/
structure Document where
  root : Option Node
  anchors : List (Nat × Node)
  size : Nat

def standardHandles : List (String × String) := [("!", "!"), ("!!", "tag:yaml.org,2002:")]

structure Composer where
  tokens : List Token
  handles : List (String × String) := standardHandles
  /-- The number each anchor name refers to. -/
  names : List (String × Nat) := []
  /-- Anchored nodes with their numbers and starting places. -/
  anchored : List (Nat × Nat × Node) := []
  size : Nat := 0

abbrev Compose := StateT Composer Option

namespace Compose

def peek : Compose (Option Token) := return (← get).tokens.head?

def advance : Compose Unit := modify fun s => { s with tokens := s.tokens.tail }

def count : Compose Unit := modify fun s => { s with size := s.size + 1 }

def emptyScalar : Compose Node := do
  count
  return .empty

/-- Gives a name the next number, which is how many names there have been. -/
def declare (name : String) : Compose Nat :=
  modifyGet fun s =>
    let number := s.names.length
    (number, { s with names := (name, number) :: s.names.filter (·.1 ≠ name) })

/-- Builds an anchored node, if there is an anchor, and remembers where it started. -/
def anchoredBy (anchor : Option String) (build : Compose Node) : Compose Node := do
  match anchor with
  | none => build
  | some name =>
    let start := (← get).size
    let number ← declare name
    let node ← build
    modify fun s => { s with anchored := (number, start, node) :: s.anchored }
    return node

def aliasNode (name : String) : Compose Node := do
  match (← get).names.lookup name with
  | none => failure
  | some number =>
    count
    return .aliasTo number

/-- The full tag of a handle and suffix; a verbatim tag has no handle. -/
def fullTag (handle suffix : String) : Compose String := do
  if handle.isEmpty then return suffix
  else match (← get).handles.lookup handle with
    | none => failure
    | some start => return start ++ suffix

def properties : Compose (Option String × Option String) := do
  match ← peek with
  | some (.anchor name) =>
    advance
    match ← peek with
    | some (.tag handle suffix) =>
      advance
      return (some name, some (← fullTag handle suffix))
    | _ => return (some name, none)
  | some (.tag handle suffix) =>
    advance
    match ← peek with
    | some (.anchor name) =>
      advance
      return (some name, some (← fullTag handle suffix))
    | _ => return (none, some (← fullTag handle suffix))
  | _ => return (none, none)

def isOneOf (ts : List Token) : Option Token → Bool
  | none => false
  | some t => ts.contains t

mutual

/-- A node: an alias, or properties and content, one of them at least. -/
def node : Nat → Bool → Bool → Compose Node
  | 0, _, _ => failure
  | n + 1, block, indentless => do
    match ← peek with
    | some (.aliasOf name) =>
      advance
      aliasNode name
    | _ =>
      let (anchor, tag) ← properties
      anchoredBy anchor (content n block indentless tag (anchor.isSome || tag.isSome))

def content : Nat → Bool → Bool → Option String → Bool → Compose Node
  | 0, _, _, _, _ => failure
  | n + 1, block, indentless, tag, mayBeEmpty => do
    match ← peek, block, indentless with
    | some .blockEntry, _, true =>
      count
      return .sequence tag (← indentlessItems n)
    | some (.scalar style text), _, _ =>
      advance
      count
      return .scalar (tag.filter (· ≠ "!")) style text
    | some .flowSequenceStart, _, _ =>
      advance
      count
      return .sequence tag (← flowItems n true)
    | some .flowMappingStart, _, _ =>
      advance
      count
      return .mapping tag (← flowEntries n true)
    | some .blockSequenceStart, true, _ =>
      advance
      count
      return .sequence tag (← blockItems n)
    | some .blockMappingStart, true, _ =>
      advance
      count
      return .mapping tag (← blockEntries n)
    | _, _, _ =>
      if mayBeEmpty then
        count
        return .scalar tag .plain ""
      else failure

def nodeUnless : Nat → Bool → Bool → List Token → Compose Node
  | 0, _, _, _ => failure
  | n + 1, block, indentless, ts => do
    if isOneOf ts (← peek) then emptyScalar else node n block indentless

def blockItems : Nat → Compose (List Node)
  | 0 => failure
  | n + 1 => do
    match ← peek with
    | some .blockEntry =>
      advance
      let item ← nodeUnless n true false [.blockEntry, .blockEnd]
      return item :: (← blockItems n)
    | some .blockEnd =>
      advance
      count
      return []
    | _ => failure

/-- The items of a sequence that starts in the column of the mapping around it. -/
def indentlessItems : Nat → Compose (List Node)
  | 0 => failure
  | n + 1 => do
    match ← peek with
    | some .blockEntry =>
      advance
      let item ← nodeUnless n true false [.blockEntry, .key, .value, .blockEnd]
      return item :: (← indentlessItems n)
    | _ =>
      count
      return []

def blockEntries : Nat → Compose (List (Node × Node))
  | 0 => failure
  | n + 1 => do
    match ← peek with
    | some .key =>
      advance
      let k ← nodeUnless n true true [.key, .value, .blockEnd]
      let v ← valueUnless n true [.key, .value, .blockEnd]
      return (k, v) :: (← blockEntries n)
    | some .blockEnd =>
      advance
      count
      return []
    | _ => failure

def valueUnless : Nat → Bool → List Token → Compose Node
  | 0, _, _ => failure
  | n + 1, block, ts => do
    if (← peek) = some .value then
      advance
      nodeUnless n block block ts
    else emptyScalar

def flowItems : Nat → Bool → Compose (List Node)
  | 0, _ => failure
  | n + 1, first => do
    if (← peek) = some .flowSequenceEnd then
      advance
      count
      return []
    else
      if !first then
        guard ((← peek) = some .flowEntry)
        advance
      match ← peek with
      | some .key =>
        advance
        count
        let entry ← flowPair n
        count
        return .mapping none [entry] :: (← flowItems n false)
      | some .flowSequenceEnd =>
        advance
        count
        return []
      | _ =>
        let item ← node n false false
        return item :: (← flowItems n false)

/-- A single entry that is an item of a flow sequence. Where its key is missing, the token in its
place goes too. -/
def flowPair : Nat → Compose (Node × Node)
  | 0 => failure
  | n + 1 => do
    let k ←
      if isOneOf [.value, .flowEntry, .flowSequenceEnd] (← peek) then
        advance
        emptyScalar
      else node n false false
    let v ← valueUnless n false [.flowEntry, .flowSequenceEnd]
    return (k, v)

def flowEntries : Nat → Bool → Compose (List (Node × Node))
  | 0, _ => failure
  | n + 1, first => do
    if (← peek) = some .flowMappingEnd then
      advance
      count
      return []
    else
      if !first then
        guard ((← peek) = some .flowEntry)
        advance
      match ← peek with
      | some .key =>
        advance
        let k ← nodeUnless n false false [.value, .flowEntry, .flowMappingEnd]
        let v ← valueUnless n false [.flowEntry, .flowMappingEnd]
        return (k, v) :: (← flowEntries n false)
      | some .flowMappingEnd =>
        advance
        count
        return []
      | _ =>
        let k ← node n false false
        let v ← emptyScalar
        return (k, v) :: (← flowEntries n false)

end

/-- The directives of a document: a version of the language once, and each handle once. -/
def directives : List Token → Bool → List (String × String) → Compose (List (String × String))
  | .versionDirective major minor :: rest, false, own => do
    guard (major = 1 && (minor = 1 || minor = 2))
    advance
    directives rest true own
  | .tagDirective handle start :: rest, versioned, own => do
    guard (own.all (·.1 ≠ handle))
    advance
    directives rest versioned ((handle, start) :: own)
  | .versionDirective _ _ :: _, true, _ => failure
  | _, _, own => return own

def isDirective : Token → Bool
  | .versionDirective _ _ | .tagDirective _ _ => true
  | _ => false

def document : Compose (Option Node) := do
  let fuel := 4 * (← get).tokens.length + 8
  match ← peek with
  | none => return none
  | some t =>
    let root ←
      if isDirective t || t = .documentStart then do
        let own ← directives (← get).tokens false []
        modify fun s => { s with handles := own ++ standardHandles }
        guard ((← peek) = some .documentStart)
        advance
        match ← peek with
        | none => emptyScalar
        | some t =>
          if isDirective t || t = .documentStart || t = .documentEnd then emptyScalar
          else node fuel true false
      else node fuel true false
    modify fun s => { s with tokens := s.tokens.dropWhile (· = .documentEnd) }
    guard (← get).tokens.isEmpty
    return some root

end Compose

/-- The anchored node of a number; of several, the one that starts last. -/
def latestAnchor (anchored : List (Nat × Nat × Node)) (number : Nat) : Option Node :=
  (anchored.foldl (fun best (k, start, node) =>
    if k = number && best.all (fun (b : Nat × Node) => b.1 ≤ start) then some (start, node) else best)
    none).map (·.2)

/-- The document of a text; none if the text is malformed or holds several. -/
def Document.ofText? (text : String) : Option Document := do
  let tokens ← tokens? text.toList
  let (root, s) ← Compose.document.run { tokens := tokens }
  let numbers := (s.anchored.map (·.1)).eraseDups
  some
    { root := root
      anchors := numbers.filterMap fun k => (latestAnchor s.anchored k).map (k, ·)
      size := max s.size 1 }

end ObjectStorage.Yaml
