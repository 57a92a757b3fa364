/-! # Reading position

The characters of a text that are still to be read, with the place they start at. Every step drops
characters from the front, so what is left only gets shorter.
-/
namespace ObjectStorage.Yaml

def isBreak (c : Char) : Bool :=
  c == '\n' || c == '\r' || c == '\u0085' || c == '\u2028' || c == '\u2029'

def isSpacing (c : Char) : Bool := c == ' ' || c == '\t'

def isWordChar (c : Char) : Bool :=
  ('0' ≤ c && c ≤ '9') || ('A' ≤ c && c ≤ 'Z') || ('a' ≤ c && c ≤ 'z') || c == '_' || c == '-'

def isReadable (c : Char) : Bool :=
  c == '\t' || c == '\n' || c == '\r' || (' ' ≤ c && c ≤ '~') || c == '\u0085' ||
  ('\u00a0' ≤ c && c ≤ '\ufffd') || 0x10000 ≤ c.toNat

structure Reader where
  rest : List Char
  index : Nat
  line : Nat
  column : Nat

namespace Reader

def ofText (s : List Char) : Reader := ⟨s, 0, 0, 0⟩

def skip (r : Reader) : Reader :=
  match r.rest with
  | [] => r
  | _ :: rest => ⟨rest, r.index + 1, r.line, r.column + 1⟩

def skipN (r : Reader) (n : Nat) : Reader :=
  ⟨r.rest.drop n, r.index + n, r.line, r.column + n⟩

/-- Takes a line break: the two characters of a CRLF are one break, and every break but the two
Unicode separators reads as a line feed. -/
def takeBreak (r : Reader) : Option Char × Reader :=
  match r.rest with
  | '\r' :: '\n' :: rest => (some '\n', ⟨rest, r.index + 2, r.line + 1, 0⟩)
  | c :: rest =>
    if c == '\u2028' || c == '\u2029' then (some c, ⟨rest, r.index + 1, r.line + 1, 0⟩)
    else if isBreak c then (some '\n', ⟨rest, r.index + 1, r.line + 1, 0⟩)
    else (none, r)
  | [] => (none, r)

def skipBreak (r : Reader) : Reader := r.takeBreak.2

/-- Takes the longest run of characters of one kind; the kind holds no line break. -/
def takeWhile (p : Char → Bool) (r : Reader) : List Char × Reader :=
  let run := r.rest.takeWhile p
  (run, ⟨r.rest.dropWhile p, r.index + run.length, r.line, r.column + run.length⟩)

def skipWhile (p : Char → Bool) (r : Reader) : Reader := (r.takeWhile p).2

def peek? (r : Reader) : Option Char := r.rest.head?

def at? (r : Reader) (c : Char) : Bool := r.rest.head? == some c

def second? (r : Reader) : Option Char := r.rest[1]?

def endsWord (s : List Char) : Bool :=
  match s with
  | [] => true
  | c :: _ => isSpacing c || isBreak c

def endsLine (s : List Char) : Bool :=
  match s with
  | [] => true
  | c :: _ => isBreak c

def atWordEnd (r : Reader) : Bool := endsWord r.rest
def atLineEnd (r : Reader) : Bool := endsLine r.rest

def marks (mark : Char) (r : Reader) : Bool :=
  r.column == 0 &&
  match r.rest with
  | a :: b :: c :: rest => a == mark && b == mark && c == mark && endsWord rest
  | _ => false

def atDocumentMark (r : Reader) : Bool := r.marks '-' || r.marks '.'

/-- Blanks, a comment and the line break that end a line; nothing else may stand there. -/
def endLine? (r : Reader) : Option Reader :=
  let r := r.skipWhile isSpacing
  let r := if r.at? '#' then r.skipWhile (!isBreak ·) else r
  if r.atLineEnd then some r.skipBreak else none

end Reader
end ObjectStorage.Yaml
