import ObjectStorage.Text.Search

/-! # Tokens of XML

The tokens of a text up to its end or to the first thing that is not well formed. Whether end tags
match their start tags is left to the reader.
-/
namespace ObjectStorage.Xml

/-- A name with the prefix before its colon; no prefix is the empty one. -/
structure Name where
  space : String
  label : String
deriving DecidableEq, Repr

inductive TagEnd where
  | opened
  | closed
  /-- The text ends inside the tag. -/
  | missing
deriving DecidableEq, Repr

inductive Token where
  | startTag (name : Name) (tagEnd : TagEnd)
  | endTag (name : Name)
  | text (content : List Char)
  /-- Comments, processing instructions and character data sections. -/
  | other
  /-- Where the text is not well formed. -/
  | broken
deriving DecidableEq, Repr

def isSpace (c : Char) : Bool := c == ' ' || c == '\t' || c == '\n' || c == '\r'

def isReadable (c : Char) : Bool :=
  if c.toNat < 0x20 then isSpace c else c != '\ufffe' && c != '\uffff'

def inRanges (ranges : List (Nat × Nat)) (c : Char) : Bool :=
  ranges.any fun (low, high) => low ≤ c.toNat && c.toNat ≤ high

def letterRanges : List (Nat × Nat) :=
  [(0xc0, 0xd6), (0xd8, 0xf6), (0xf8, 0x2ff), (0x370, 0x37d), (0x37f, 0x1fff), (0x200c, 0x200d),
   (0x2070, 0x218f), (0x2c00, 0x2fef), (0x3001, 0xd7ff), (0xf900, 0xfdcf), (0xfdf0, 0xfffd),
   (0x10000, 0xeffff)]

def markRanges : List (Nat × Nat) := [(0xb7, 0xb7), (0x300, 0x36f), (0x203f, 0x2040)]

def isNameStart (c : Char) : Bool :=
  c.isAlpha || c == '_' || inRanges letterRanges c

def isNameChar (c : Char) : Bool :=
  isNameStart c || c.isDigit || c == '-' || c == '.' || inRanges markRanges c

def name? (s : List Char) : Option (Name × List Char) :=
  let inName (c : Char) : Bool := isNameChar c || c == ':'
  let word := s.takeWhile inName
  let rest := s.dropWhile inName
  let starts (part : List Char) : Bool := part.head?.all isNameStart
  match word.span (· != ':') with
  | (label, []) =>
    if !label.isEmpty && starts label then some (⟨"", String.ofList label⟩, rest) else none
  | (space, _ :: label) =>
    if !label.isEmpty && starts space && starts label && !label.contains ':' then
      some (⟨String.ofList space, String.ofList label⟩, rest)
    else none

/-- What follows an end mark, if all before it can be read, and what is before it. -/
def through? (mark : List Char) : List Char → Option (List Char × List Char)
  | [] => none
  | c :: rest =>
    if mark.isPrefixOf (c :: rest) then some ([], (c :: rest).drop mark.length)
    else if isReadable c then (through? mark rest).map fun (before, after) => (c :: before, after)
    else none

def skipSpaces (s : List Char) : List Char := s.dropWhile isSpace

/-- Whether two hyphens stand together, or one at the end; neither may be in a comment. -/
def hasHyphens : List Char → Bool
  | ['-'] => true
  | '-' :: '-' :: _ => true
  | _ :: rest => hasHyphens rest
  | [] => false

def comment? (s : List Char) : Option (List Char) :=
  match through? ['-', '-', '>'] (s.drop 4) with
  | some (content, rest) => if hasHyphens content then none else some rest
  | none => none

/-- A processing instruction; the declaration is not one. -/
def instruction? (s : List Char) : Option (List Char) := do
  guard (!"<?xml ".toList.isPrefixOf s)
  let (_, rest) ← name? (s.drop 2)
  return (← through? ['?', '>'] (skipSpaces rest)).2

def documentType? (s : List Char) : Option (List Char) :=
  let head := s.takeWhile fun c => c != '[' && c != '>'
  match s.drop head.length with
  | '[' :: rest => (through? [']'] rest).bind fun (_, rest) => (through? ['>'] rest).map (·.2)
  | '>' :: rest => some rest
  | _ => none

def tagEnd : Nat → List Char → Option (TagEnd × List Char)
  | 0, _ => none
  | fuel + 1, s =>
    match skipSpaces s with
    | '>' :: rest => some (.opened, rest)
    | '/' :: '>' :: rest => some (.closed, rest)
    | [] => some (.missing, [])
    | inner => do
      guard (s.head?.any isSpace)
      let (_, rest) ← name? inner
      match skipSpaces rest with
      | '=' :: rest =>
        match skipSpaces rest with
        | quote :: rest =>
          guard (quote == '"' || quote == '\'')
          let value := rest.takeWhile fun c => c != quote && c != '<'
          guard (value.all isReadable)
          match rest.drop value.length with
          | c :: rest => if c == quote then tagEnd fuel rest else none
          | [] => none
        | [] => none
      | _ => none

inductive Place where
  | start
  | beforeRoot
  | inRoot (depth : Nat)
  | afterRoot

/-- A start tag; a name that is none is no tag at all. -/
def startTag? (s : List Char) : Option (Name × TagEnd × List Char) := do
  let (name, rest) ← name? (s.drop 1)
  match tagEnd (rest.length + 1) rest with
  | some (tagEnd, rest) => return (name, tagEnd, rest)
  | none => return (name, .missing, [])

/-- The tokens of a text from some place on. An unfinished start tag is followed by nothing. -/
def tokensFrom : Nat → Place → List Char → List Token
  | 0, _, _ => []
  | _, _, [] => []
  | fuel + 1, place, s =>
    let skip (rest : Option (List Char)) (place : Place) : List Token :=
      match rest with
      | some rest => .other :: tokensFrom fuel place rest
      | none => [.broken]
    let starts (mark : String) : Bool := mark.toList.isPrefixOf s
    let element (depth : Nat) : List Token :=
      match startTag? s with
      | none => [.broken]
      | some (name, tagEnd, rest) =>
        .startTag name tagEnd ::
          match tagEnd with
          | .opened => tokensFrom fuel (.inRoot (depth + 1)) rest
          | .closed => tokensFrom fuel (if depth = 0 then .afterRoot else .inRoot depth) rest
          | .missing => []
    match place with
    | .start =>
      if starts "<?xml " then skip ((through? ['?', '>'] s).map (·.2)) .beforeRoot
      else tokensFrom fuel .beforeRoot s
    | .beforeRoot =>
      if starts "<!DOCTYPE" then skip (documentType? s) .beforeRoot
      else if starts "<!--" then skip (comment? s) .beforeRoot
      else if starts "<?" then skip (instruction? s) .beforeRoot
      else if starts "<!" then [.broken]
      else if starts "<" then element 0
      else if s.head?.any isSpace then tokensFrom fuel .beforeRoot (skipSpaces s)
      else [.broken]
    | .inRoot depth =>
      if starts "<!--" then skip (comment? s) place
      else if starts "<![CDATA[" then
        skip ((through? [']', ']', '>'] (s.drop 9)).map (·.2)) place
      else if starts "<!" then [.broken]
      else if starts "<?" then skip (instruction? s) place
      else if starts "</" then
        match name? (s.drop 2) with
        | none => [.broken]
        | some (name, rest) =>
          match skipSpaces rest with
          | '>' :: rest =>
            .endTag name :: tokensFrom fuel (if depth ≤ 1 then .afterRoot else .inRoot (depth - 1)) rest
          | _ => [.broken]
      else if starts "<" then element depth
      else
        let content := s.takeWhile (· != '<')
        if content.all isReadable && (Text.throughFirst [']', ']', '>'] content).isNone then
          .text content :: tokensFrom fuel place (s.drop content.length)
        else [.broken]
    | .afterRoot =>
      if starts "<!--" then skip (comment? s) place
      else if starts "<?" then skip (instruction? s) place
      else if s.head?.any isSpace then tokensFrom fuel place (skipSpaces s)
      else [.broken]

/-- The tokens of a text; a byte order mark before it does not count. -/
def tokens (s : List Char) : List Token :=
  let s := match s with
    | '\ufeff' :: rest => rest
    | _ => s
  tokensFrom (2 * s.length + 2) .start s

end ObjectStorage.Xml
