import ObjectStorage.Yaml.Reader
import ObjectStorage.Text.Digits

/-! # Scalars as written

The five ways to write a scalar, and reading the text of each. Line breaks inside a plain or quoted
scalar fold: a single one is a space, and of several the first disappears.
-/
namespace ObjectStorage.Yaml

inductive Style where
  | plain
  | singleQuoted
  | doubleQuoted
  | literal
  | folded
deriving DecidableEq, Repr, Inhabited

/-- A folded text in the making: what is settled and the white space that may follow it. The lists
are reversed. -/
structure Folding where
  text : List Char := []
  blanks : List Char := []
  /-- The first line break of the white space, as it reads. -/
  firstBreak : Option Char := none
  moreBreaks : List Char := []
  /-- Whether the white space holds a line break. -/
  broken : Bool := false

namespace Folding

def foldedBreaks (first : Option Char) (more : List Char) : List Char :=
  if first = some '\n' then (if more.isEmpty then [' '] else more)
  else more ++ first.toList

def settle (f : Folding) : Folding :=
  { text := (if f.broken then foldedBreaks f.firstBreak f.moreBreaks else f.blanks) ++ f.text }

def push (f : Folding) (c : Char) : Folding := { f with text := c :: f.text }

/-- Takes the white space up to the next word. With an indentation given, a tab that stands in for
it is refused. -/
def gap (indent : Option Nat) : Nat → Reader → Folding → Option (Reader × Folding)
  | 0, r, f => some (r, f)
  | n + 1, r, f =>
    match r.peek? with
    | none => some (r, f)
    | some c =>
      if isSpacing c then
        if f.broken && c == '\t' && indent.any (r.column < ·) then none
        else gap indent n r.skip (if f.broken then f else { f with blanks := c :: f.blanks })
      else if isBreak c then
        let (b, r) := r.takeBreak
        if f.broken then gap indent n r { f with moreBreaks := b.toList ++ f.moreBreaks }
        else gap indent n r { f with blanks := [], firstBreak := b, broken := true }
      else some (r, f)

end Folding

def flowMarks : List Char := [',', '[', ']', '\x7b', '\x7d']

/-- Whether a colon ends a plain scalar before the given characters, or the character does itself. -/
def endsPlain (inFlow : Bool) (c : Char) (after : List Char) : Bool :=
  (c == ':' && Reader.endsWord after) || (inFlow && flowMarks.contains c)

def strayColon (inFlow : Bool) (c : Char) (after : List Char) : Bool :=
  inFlow && c == ':' && after.head?.any ('?' :: flowMarks).contains

def plainWord (inFlow : Bool) : Nat → Reader → Folding → Option (Reader × Folding)
  | 0, r, f => some (r, f)
  | n + 1, r, f =>
    match r.rest with
    | [] => some (r, f)
    | c :: after =>
      if isSpacing c || isBreak c then some (r, f)
      else if strayColon inFlow c after then none
      else if endsPlain inFlow c after then some (r, f)
      else plainWord inFlow n r.skip (f.settle.push c)

/-- A plain scalar from its first character on. What it returns is still broken if a line break
follows it. -/
def plainScalar (inFlow : Bool) (indent : Nat) : Nat → Reader → Folding → Option (Reader × Folding)
  | 0, r, f => some (r, f)
  | n + 1, r, f =>
    if r.atDocumentMark || r.at? '#' then some (r, f)
    else do
      let (r, f) ← plainWord inFlow (n + 1) r f
      if r.peek?.any (fun c => isSpacing c || isBreak c) then
        let (r, f) ← Folding.gap (some indent) (n + 1) r f
        if !inFlow && r.column < indent then some (r, f) else plainScalar inFlow indent n r f
      else some (r, f)

def shortEscapes : List (Char × Char) :=
  [('0', '\x00'), ('a', '\x07'), ('b', '\x08'), ('t', '\t'), ('\t', '\t'), ('n', '\n'), ('v', '\x0b'),
   ('f', '\x0c'), ('r', '\r'), ('e', '\x1b'), (' ', ' '), ('"', '"'), ('/', '/'), ('\\', '\\'),
   ('N', '\u0085'), ('_', '\u00a0'), ('L', '\u2028'), ('P', '\u2029')]

def codePointEscapes : List (Char × Nat) := [('x', 2), ('u', 4), ('U', 8)]

def charOfCode? (n : Nat) : Option Char :=
  if h : n.isValidChar then some (Char.ofNatAux n h) else none

/-- A backslash and what belongs to it: the character meant and how many characters it took. -/
def escape? (s : List Char) : Option (Char × Nat) := do
  let c ← s[1]?
  match shortEscapes.lookup c with
  | some d => some (d, 2)
  | none =>
    let width ← codePointEscapes.lookup c
    let digits := (s.drop 2).take width
    if digits.length = width then
      let code ← Text.readDigits? 16 digits
      let d ← charOfCode? code
      some (d, 2 + width)
    else none

/-- The characters of a quoted scalar up to white space or the closing quote. -/
def quotedWord (quote : Char) : Nat → Reader → Folding → Option (Reader × Folding)
  | 0, r, f => some (r, f)
  | n + 1, r, f =>
    match r.rest with
    | [] => some (r, f)
    | c :: after =>
      if isSpacing c || isBreak c then some (r, f)
      else if c == quote then
        if quote == '\'' && after.head? == some '\'' then quotedWord quote n (r.skipN 2) (f.push '\'')
        else some (r, f)
      else if c == '\\' && quote == '"' then
        if after.head?.any isBreak then some (r.skip.skipBreak, { f with broken := true })
        else do
          let (d, taken) ← escape? r.rest
          quotedWord quote n (r.skipN taken) (f.push d)
      else quotedWord quote n r.skip (f.push c)

/-- A quoted scalar after its opening quote, with the closing quote taken. -/
def quotedScalar (quote : Char) : Nat → Reader → Folding → Option (Reader × Folding)
  | 0, _, _ => none
  | n + 1, r, f =>
    if r.atDocumentMark || r.rest.isEmpty then none
    else do
      let (r, f) ← quotedWord quote (n + 1) r f
      if r.at? quote then some (r.skip, f)
      else
        let (r, f) ← Folding.gap none (n + 1) r f
        quotedScalar quote n r f.settle

inductive Chomping where
  | strip
  | clip
  | keep
deriving DecidableEq, Repr

/-- The header of a block scalar after its indicator: chomping and indentation in either order. -/
def blockHeader (r : Reader) : Option (Chomping × Option Nat × Reader) :=
  let chomping (r : Reader) : Option (Chomping × Reader) :=
    if r.at? '+' then some (.keep, r.skip)
    else if r.at? '-' then some (.strip, r.skip)
    else none
  let width (r : Reader) : Option (Option Nat × Reader) :=
    match r.peek? with
    | some c =>
      if Text.isDecimalDigit c then
        if c == '0' then none else some (some (c.toNat - 0x30), r.skip)
      else some (none, r)
    | none => some (none, r)
  match chomping r with
  | some (c, r) => (width r).map fun (w, r) => (c, w, r)
  | none => do
    let (w, r) ← width r
    match w, chomping r with
    | some w, some (c, r) => some (c, some w, r)
    | _, _ => some (.clip, w, r)

/-- The indentation and the blank lines before the next line of a block scalar. An indentation that
is not known yet (zero) is found on the way. -/
def blockBreaks (indent : Nat) : Nat → Nat → Reader → List Char → Option (Nat × Reader × List Char)
  | 0, widest, r, breaks => some (widest, r, breaks)
  | n + 1, widest, r, breaks =>
    let inside (column : Nat) : Bool := indent == 0 || column < indent
    let room := if indent == 0 then r.rest.length else indent - r.column
    let spaces := (r.rest.takeWhile (· == ' ')).take room
    let r := r.skipN spaces.length
    let widest := max widest r.column
    if inside r.column && r.at? '\t' then none
    else match r.takeBreak with
      | (some b, r) => blockBreaks indent n widest r (b :: breaks)
      | (none, r) => some (widest, r, breaks)

/-- A block scalar in the making; lists are reversed. -/
structure BlockText where
  text : List Char := []
  lastBreak : Option Char := none
  moreBreaks : List Char := []
  /-- Whether the last line started with a blank. -/
  indented : Bool := false

namespace BlockText

/-- Joins the pending breaks before a line. A folded scalar turns a single break between lines that
start with no blank into a space. -/
def join (literal lineIndented : Bool) (b : BlockText) : List Char :=
  if !literal && b.lastBreak = some '\n' && !b.indented && !lineIndented then
    (if b.moreBreaks.isEmpty then [' '] else b.moreBreaks) ++ b.text
  else b.moreBreaks ++ b.lastBreak.toList ++ b.text

def finish (b : BlockText) : Chomping → List Char
  | .strip => b.text
  | .clip => b.lastBreak.toList ++ b.text
  | .keep => b.moreBreaks ++ b.lastBreak.toList ++ b.text

end BlockText

def blockLines (literal : Bool) (indent : Nat) : Nat → Reader → BlockText → Option (Reader × BlockText)
  | 0, r, b => some (r, b)
  | n + 1, r, b =>
    if r.column == indent && !r.rest.isEmpty then do
      let lineIndented := r.peek?.any isSpacing
      let (line, r) := r.takeWhile (!isBreak ·)
      let text := line.reverse ++ b.join literal lineIndented
      let (last, r) := r.takeBreak
      let (_, r, more) ← blockBreaks indent (n + 1) 0 r []
      blockLines literal indent n r
        { text := text, lastBreak := last, moreBreaks := more, indented := lineIndented }
    else some (r, b)

/-- A block scalar after its indicator; `parent` is the indentation of what it stands in. -/
def blockScalar (literal : Bool) (parent : Int) (r : Reader) : Option (List Char × Reader) := do
  let fuel := r.rest.length + 1
  let (chomping, width, r) ← blockHeader r
  let r ← r.endLine?
  let given := width.map fun w => (max parent 0).toNat + w
  let (widest, r, more) ← blockBreaks (given.getD 0) fuel 0 r []
  let indent := given.getD (max (max widest (parent + 1).toNat) 1)
  let (r, b) ← blockLines literal indent fuel r { moreBreaks := more }
  some ((b.finish chomping).reverse, r)

end ObjectStorage.Yaml
