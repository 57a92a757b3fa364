import ObjectStorage.Yaml.Resolved
import ObjectStorage.Yaml.Node

/-! # Written trees

A tree of texts, flags and numbers, the style each text is written in, and the lines of the whole
tree. A text is written so that it reads back as the same text: plainly if it can be, else between
single quotes, else between double quotes; a text of several lines is a literal block if it can be.
-/
namespace ObjectStorage.Yaml

/-- What is written: records hold single values, lists of texts and further records. -/
inductive Written where
  | text (s : String)
  | flag (b : Bool)
  | number (n : Nat)
  | texts (items : List String)
  | record (fields : List (String × Written))
deriving Inhabited

namespace Style

open Reader (endsWord)

def isPrintable (c : Char) : Bool :=
  c == '\n' || (' ' ≤ c && c ≤ '~') ||
  ('\u00a0' ≤ c && c.toNat < 0x10000 && c != '\ufeff' && c != '\ufffe' && c != '\uffff')

def indicators : List Char :=
  ['#', ',', '[', ']', '\x7b', '\x7d', '&', '*', '!', '|', '>', '\'', '"', '%', '@', '\x60']

/-- Whether a text starts with what looks like something else than a plain scalar. -/
def startsOtherwise (s : List Char) : Bool :=
  match s with
  | [] => false
  | c :: rest =>
    indicators.contains c || ((c == '?' || c == ':' || c == '-') && endsWord rest) ||
    ['-', '-', '-'].isPrefixOf s || ['.', '.', '.'].isPrefixOf s

/-- Whether something after the first character would end a plain scalar: a colon before white space,
or a comment after it. -/
def endsInside : Char → List Char → Bool
  | _, [] => false
  | before, c :: rest =>
    (c == ':' && endsWord rest) || (c == '#' && endsWord [before]) || endsInside c rest

def anyPair (p : Char → Char → Bool) : List Char → Bool
  | a :: b :: rest => p a b || anyPair p (b :: rest)
  | _ => false

/-- Whether only escapes can keep a text: it has characters that cannot be written, or spaces before
a line break. -/
def needsEscapes (s : List Char) : Bool :=
  s.any (!isPrintable ·) || anyPair (fun a b => a == ' ' && isBreak b) s

def fitsSingleQuotes (s : List Char) : Bool :=
  !needsEscapes s && !anyPair (fun a b => isBreak a && b == ' ') s

def fitsLiteral (s : List Char) : Bool := !needsEscapes s && s.getLast? != some ' '

def fitsPlain (s : List Char) : Bool :=
  let atEnds (p : Char → Bool) := s.head?.any p || s.getLast?.any p
  fitsSingleQuotes s && !s.any isBreak && !atEnds (· == ' ') && !startsOtherwise s &&
  match s with
  | [] => true
  | c :: rest => !endsInside c rest

def ofText (text : String) : Style :=
  let s := text.toList
  if s.contains '\n' then
    if fitsLiteral s then .literal else .doubleQuoted
  else if !needsQuotes text && fitsPlain s then .plain
  else if fitsSingleQuotes s then .singleQuoted
  else .doubleQuoted

end Style

def escaped (c : Char) : List Char :=
  if Style.isPrintable c && !isBreak c && c != '"' && c != '\\' then [c]
  else match shortEscapes.find? (·.2 == c) with
    | some (letter, _) => ['\\', letter]
    | none =>
      let digits (width : Nat) := (Text.hexFixed width c.toNat).map Char.toUpper
      if c.toNat ≤ 0xff then '\\' :: 'x' :: digits 2
      else if c.toNat ≤ 0xffff then '\\' :: 'u' :: digits 4
      else '\\' :: 'U' :: digits 8

def spaces (n : Nat) : List Char := List.replicate n ' '

/-- Characters with an indentation before each that follows a line break. -/
def indented (indent : Nat) : Bool → List Char → List Char
  | _, [] => []
  | broken, c :: rest =>
    if isBreak c then c :: indented indent true rest
    else (if broken then spaces indent else []) ++ c :: indented indent false rest

/-- A text between single quotes. The line breaks it may hold are not those that fold. -/
def singleQuoted (indent : Nat) (s : List Char) : List Char :=
  '\'' :: indented indent false (s.flatMap fun c => if c == '\'' then ['\'', '\''] else [c]) ++
    (if s.getLast?.any isBreak then spaces indent else []) ++ ['\'']

/-- What follows the bar of a literal block: the indentation, if the text does not show it, and what
becomes of the line breaks at its end. -/
def literalHeader (s : List Char) : List Char :=
  (if s.head?.any (fun c => c == ' ' || isBreak c) then ['2'] else []) ++
  match s.reverse with
  | [] => ['-']
  | c :: before =>
    if !isBreak c then ['-']
    else if before.head?.all isBreak then ['+'] else []

def scalarText (indent : Nat) (style : Style) (s : List Char) : List Char :=
  match style with
  | .plain => s
  | .singleQuoted => singleQuoted indent s
  | .doubleQuoted => '"' :: s.flatMap escaped ++ ['"']
  | .literal | .folded => '|' :: literalHeader s ++ '\n' :: indented indent true s

def scalarLine (indent : Nat) (style : Style) (s : List Char) : List Char :=
  let written := scalarText indent style s
  if written.getLast?.any isBreak then written else written ++ ['\n']

namespace Written

mutual

def toNode : Written → Node
  | .text s => .scalar none (Style.ofText s) s
  | .flag b => .plain (toString b)
  | .number n => .plain (toString n)
  | .texts items => .sequence none (items.map fun s => .scalar none (Style.ofText s) s)
  | .record fields => .mapping none (toEntries fields)

def toEntries : List (String × Written) → List (Node × Node)
  | [] => []
  | (name, value) :: rest => (.plain name, toNode value) :: toEntries rest

end

mutual

/-- What follows the key of an entry, or what a tree is that stands alone. -/
def lines (indent : Nat) (gap : List Char) : Written → List Char
  | .text s => gap ++ scalarLine (indent + 2) (Style.ofText s) s.toList
  | .flag b => gap ++ (toString b).toList ++ ['\n']
  | .number n => gap ++ (toString n).toList ++ ['\n']
  | .texts [] => gap ++ ['[', ']', '\n']
  | .texts items =>
    (if gap.isEmpty then [] else ['\n']) ++
    items.flatMap fun s => spaces indent ++ ['-', ' '] ++ scalarLine (indent + 2) (Style.ofText s) s.toList
  | .record [] => gap ++ ['\x7b', '\x7d', '\n']
  | .record fields =>
    if gap.isEmpty then fieldLines indent fields else '\n' :: fieldLines (indent + 2) fields

def fieldLines (indent : Nat) : List (String × Written) → List Char
  | [] => []
  | (name, value) :: rest =>
    spaces indent ++ name.toList ++ ':' :: lines indent [' '] value ++ fieldLines indent rest

end

def render (w : Written) : String := String.ofList (lines 0 [] w)

end Written
end ObjectStorage.Yaml
