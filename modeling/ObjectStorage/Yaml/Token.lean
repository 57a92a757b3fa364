import ObjectStorage.Yaml.Scalar

/-! # Tokens

A text as a list of tokens. Indentation becomes explicit starts and ends of block collections, and a
key that is only known to be one when its colon comes gets its token put in front afterwards.
-/
namespace ObjectStorage.Yaml

inductive Token where
  | versionDirective (major minor : Nat)
  | tagDirective (handle start : String)
  | documentStart
  | documentEnd
  | blockSequenceStart
  | blockMappingStart
  | blockEnd
  | flowSequenceStart
  | flowSequenceEnd
  | flowMappingStart
  | flowMappingEnd
  | blockEntry
  | flowEntry
  | key
  | value
  | aliasOf (name : String)
  | anchor (name : String)
  | tag (handle suffix : String)
  | scalar (style : Style) (text : String)
deriving DecidableEq, Repr

/-- A place where a key may have started: the number of the token, and where it stands. A required
one starts a line of the current block mapping. -/
structure KeyStart where
  required : Bool
  token : Nat
  index : Nat
  line : Nat
  column : Nat

structure Lexer where
  reader : Reader
  /-- The tokens so far, reversed, and their number. -/
  tokens : List Token := []
  count : Nat := 0
  /-- The column of the current block collection, none at the top, and those around it. -/
  indent : Int := -1
  outer : List Int := []
  keyAllowed : Bool := true
  /-- The possible key of the block level, then of each open flow collection, innermost first. -/
  keyStart : Option KeyStart := none
  enclosing : List (Option KeyStart) := []

namespace Lexer

def inFlow (l : Lexer) : Bool := !l.enclosing.isEmpty

def column (l : Lexer) : Int := l.reader.column

def emit (l : Lexer) (t : Token) : Lexer := { l with tokens := t :: l.tokens, count := l.count + 1 }

def emitAt (l : Lexer) (number : Nat) (t : Token) : Lexer :=
  { l with tokens := l.tokens.insertIdx (l.count - number) t, count := l.count + 1 }

def skip (l : Lexer) (n : Nat) : Lexer := { l with reader := l.reader.skipN n }

def allowKey (l : Lexer) (allowed : Bool) : Lexer := { l with keyAllowed := allowed }

/-- Opens a block collection if the column is further right than the current one. -/
def openBlock (l : Lexer) (column : Nat) (number : Option Nat) (t : Token) : Lexer :=
  if l.inFlow || (column : Int) ≤ l.indent then l
  else
    let l := { l with outer := l.indent :: l.outer, indent := column }
    match number with
    | none => l.emit t
    | some k => l.emitAt k t

def closeBlocks (column : Int) : List Int → Lexer → Lexer
  | outer, l =>
    if l.inFlow || l.indent ≤ column then l
    else match outer with
      | [] => { l with indent := -1 }.emit .blockEnd
      | i :: rest => closeBlocks column rest ({ l with indent := i, outer := rest }.emit .blockEnd)

def closeTo (l : Lexer) (column : Int) : Lexer := closeBlocks column l.outer l

/-- Forgets the possible key of this level; a required one may not be forgotten. -/
def dropKeyStart (l : Lexer) : Option Lexer :=
  if l.keyStart.any (·.required) then none else some { l with keyStart := none }

def noteKeyStart (l : Lexer) : Option Lexer :=
  if l.keyAllowed then do
    let l ← l.dropKeyStart
    let r := l.reader
    let start : KeyStart :=
      { required := !l.inFlow && l.indent == l.column, token := l.count, index := r.index,
        line := r.line, column := r.column }
    some { l with keyStart := some start }
  else some l

/-- A key is written on one line and in at most 1024 characters. -/
def KeyStart.isStale (r : Reader) (k : KeyStart) : Bool := k.line < r.line || k.index + 1024 < r.index

def dropStale (l : Lexer) : Option Lexer :=
  let fresh (k : Option KeyStart) : Option (Option KeyStart) :=
    match k with
    | some s => if KeyStart.isStale l.reader s then (if s.required then none else some none) else some k
    | none => some none
  do
    let keyStart ← fresh l.keyStart
    let enclosing ← l.enclosing.mapM fresh
    some { l with keyStart := keyStart, enclosing := enclosing }

def toToken : Nat → Lexer → Lexer
  | 0, l => l
  | n + 1, l =>
    let r := l.reader
    let r := if r.index == 0 && r.at? '\ufeff' then r.skip else r
    let r := r.skipWhile fun c => c == ' ' || ((l.inFlow || !l.keyAllowed) && c == '\t')
    let r := if r.at? '#' then r.skipWhile (!isBreak ·) else r
    if r.peek?.any isBreak then
      toToken n { l with reader := r.skipBreak, keyAllowed := l.keyAllowed || !l.inFlow }
    else { l with reader := r }

def emitScalar (l : Lexer) (style : Style) (text : List Char) (r : Reader) : Lexer :=
  { l with reader := r }.emit (.scalar style (String.ofList text))

def directiveNumber? (r : Reader) : Option (Nat × Reader) := do
  let (digits, r) := r.takeWhile Text.isDecimalDigit
  if digits.length ≤ 9 then some (← Text.readDigits? 10 digits, r) else none

/-- A tag handle: an exclamation mark alone, or a word between two. -/
def tagHandle? (inDirective : Bool) (r : Reader) : Option (List Char × Reader) :=
  if r.at? '!' then
    let (word, r) := r.skip.takeWhile isWordChar
    if r.at? '!' then some ('!' :: word ++ ['!'], r.skip)
    else if inDirective && !word.isEmpty then none
    else some ('!' :: word, r)
  else none

def uriEscape? (s : List Char) : Option (Char × Nat) := do
  let byte (k : Nat) : Option Nat :=
    if s[3 * k]? == some '%' then do
      let a ← Text.hexValue? (← s[3 * k + 1]?)
      let b ← Text.hexValue? (← s[3 * k + 2]?)
      some (a * 16 + b)
    else none
  let lead ← byte 0
  let (width, bits) ←
    if lead < 0x80 then some (1, lead)
    else if 0xc0 ≤ lead && lead < 0xe0 then some (2, lead - 0xc0)
    else if 0xe0 ≤ lead && lead < 0xf0 then some (3, lead - 0xe0)
    else if 0xf0 ≤ lead && lead < 0xf8 then some (4, lead - 0xf0)
    else none
  let code ← (List.range (width - 1)).foldlM (fun acc k => do
    let b ← byte (k + 1)
    if 0x80 ≤ b && b < 0xc0 then some (acc * 64 + (b - 0x80)) else none) bits
  some ((charOfCode? code).getD '\ufffd', 3 * width)

/-- What a URI holds besides letters, digits and percent-encoded characters. -/
def uriMarks : List Char :=
  [';', '/', '?', ':', '@', '&', '=', '+', '$', '.', '!', '~', '*', '\'', '(', ')']

/-- The rest of a tag: characters of a URI, some of them percent-encoded. -/
def tagText? (verbatim : Bool) : Nat → Reader → List Char → Option (List Char × Reader)
  | 0, r, acc => some (acc.reverse, r)
  | n + 1, r, acc =>
    match r.peek? with
    | none => some (acc.reverse, r)
    | some c =>
      if c == '%' then do
        let (d, taken) ← uriEscape? r.rest
        tagText? verbatim n (r.skipN taken) (d :: acc)
      else if isWordChar c || uriMarks.contains c || (verbatim && [',', '[', ']'].contains c) then
        tagText? verbatim n r.skip (c :: acc)
      else some (acc.reverse, r)

def directive (l : Lexer) : Option Lexer := do
  let l ← (l.closeTo (-1)).dropKeyStart
  let l := l.allowKey false
  let (name, r) := l.reader.skip.takeWhile isWordChar
  if name.isEmpty || !r.atWordEnd then none
  else if name = "YAML".toList then
    let (major, r) ← directiveNumber? (r.skipWhile isSpacing)
    if r.at? '.' then
      let (minor, r) ← directiveNumber? r.skip
      let r ← r.endLine?
      some ({ l with reader := r }.emit (.versionDirective major minor))
    else none
  else if name = "TAG".toList then
    let (handle, r) ← tagHandle? true (r.skipWhile isSpacing)
    if r.peek?.any isSpacing then
      let r := r.skipWhile isSpacing
      let (start, r) ← tagText? true (r.rest.length + 1) r []
      if start.isEmpty || !r.atWordEnd then none
      else
        let r ← r.endLine?
        some ({ l with reader := r }.emit (.tagDirective (String.ofList handle) (String.ofList start)))
    else none
  else none

def documentMark (l : Lexer) (t : Token) : Option Lexer := do
  let l ← (l.closeTo (-1)).dropKeyStart
  some ((l.allowKey false).skip 3 |>.emit t)

def openFlow (l : Lexer) (t : Token) : Option Lexer := do
  let l ← l.noteKeyStart
  let l := { l with keyStart := none, enclosing := l.keyStart :: l.enclosing }
  some ((l.allowKey true).skip 1 |>.emit t)

def closeFlow (l : Lexer) (t : Token) : Option Lexer := do
  let l ← l.dropKeyStart
  let l := match l.enclosing with
    | [] => l
    | k :: rest => { l with keyStart := k, enclosing := rest }
  some ((l.allowKey false).skip 1 |>.emit t)

def flowEntry (l : Lexer) : Option Lexer := do
  let l ← l.dropKeyStart
  some ((l.allowKey true).skip 1 |>.emit .flowEntry)

def blockEntry (l : Lexer) : Option Lexer :=
  if !l.inFlow && !l.keyAllowed then none
  else do
    let l := l.openBlock l.reader.column none .blockSequenceStart
    let l ← l.dropKeyStart
    some ((l.allowKey true).skip 1 |>.emit .blockEntry)

def explicitKey (l : Lexer) : Option Lexer :=
  if !l.inFlow && !l.keyAllowed then none
  else do
    let l := l.openBlock l.reader.column none .blockMappingStart
    let l ← l.dropKeyStart
    some ((l.allowKey !l.inFlow).skip 1 |>.emit .key)

def mappingValue (l : Lexer) : Option Lexer :=
  match l.keyStart with
  | some k =>
    let l := l.emitAt k.token .key
    let l := l.openBlock k.column (some k.token) .blockMappingStart
    some (({ l with keyStart := none }.allowKey false).skip 1 |>.emit .value)
  | none =>
    if !l.inFlow && !l.keyAllowed then none
    else
      let l := l.openBlock l.reader.column none .blockMappingStart
      some ((l.allowKey !l.inFlow).skip 1 |>.emit .value)

/-- What may follow the name of an anchor or alias, besides white space. -/
def nameEnds : List Char := ['?', ':', ',', ']', '\x7d', '%', '@', '\x60']

def anchorOrAlias (l : Lexer) (make : String → Token) : Option Lexer := do
  let l := (← l.noteKeyStart).allowKey false
  let (name, r) := l.reader.skip.takeWhile isWordChar
  if !name.isEmpty && (r.atWordEnd || r.peek?.any nameEnds.contains) then
    some ({ l with reader := r }.emit (make (String.ofList name)))
  else none

def tag (l : Lexer) : Option Lexer := do
  let l := (← l.noteKeyStart).allowKey false
  let r := l.reader
  let fuel := r.rest.length + 1
  let (handle, suffix, r) ←
    if r.second? == some '<' then do
      let (suffix, r) ← tagText? true fuel (r.skipN 2) []
      if suffix.isEmpty || !r.at? '>' then none else some ([], suffix, r.skip)
    else do
      let (handle, r) ← tagHandle? false r
      if handle.length > 1 && handle.getLast? == some '!' then do
        let (suffix, r) ← tagText? false fuel r []
        if suffix.isEmpty then none else some (handle, suffix, r)
      else do
        let (more, r) ← tagText? false fuel r []
        let suffix := handle.drop 1 ++ more
        some (if suffix.isEmpty then ([], ['!'], r) else (['!'], suffix, r))
  if r.atWordEnd || (l.inFlow && r.at? ',') then
    some ({ l with reader := r }.emit (.tag (String.ofList handle) (String.ofList suffix)))
  else none

def block (l : Lexer) (literal : Bool) : Option Lexer := do
  let l ← l.dropKeyStart
  let (text, r) ← blockScalar literal l.indent l.reader.skip
  some ((l.allowKey true).emitScalar (if literal then .literal else .folded) text r)

def quoted (l : Lexer) (quote : Char) : Option Lexer := do
  let l := (← l.noteKeyStart).allowKey false
  let (r, f) ← quotedScalar quote (l.reader.rest.length + 1) l.reader.skip {}
  some (l.emitScalar (if quote == '"' then .doubleQuoted else .singleQuoted) f.text.reverse r)

def plain (l : Lexer) : Option Lexer := do
  let l := (← l.noteKeyStart).allowKey false
  let (r, f) ← plainScalar l.inFlow (l.indent + 1).toNat (l.reader.rest.length + 1) l.reader {}
  some ((l.allowKey f.broken).emitScalar .plain f.text.reverse r)

def indicators : List Char :=
  ['-', '?', ':', ',', '[', ']', '\x7b', '\x7d', '#', '&', '*', '!', '|', '>', '\'', '"', '%', '@', '\x60']

/-- Whether a plain scalar can start with the character before the others. -/
def startsPlain (inFlow : Bool) (c : Char) (after : List Char) : Bool :=
  !indicators.contains c ||
  (c == '-' && !after.head?.any isSpacing) ||
  (!inFlow && (c == '?' || c == ':') && !Reader.endsWord after)

def token (l : Lexer) (c : Char) (after : List Char) : Option Lexer :=
  let r := l.reader
  if r.column == 0 && c == '%' then l.directive
  else if r.marks '-' then l.documentMark .documentStart
  else if r.marks '.' then l.documentMark .documentEnd
  else if c == '[' then l.openFlow .flowSequenceStart
  else if c == '\x7b' then l.openFlow .flowMappingStart
  else if c == ']' then l.closeFlow .flowSequenceEnd
  else if c == '\x7d' then l.closeFlow .flowMappingEnd
  else if c == ',' then l.flowEntry
  else if c == '-' && Reader.endsWord after then l.blockEntry
  else if c == '?' && (l.inFlow || Reader.endsWord after) then l.explicitKey
  else if c == ':' && (l.inFlow || Reader.endsWord after) then l.mappingValue
  else if c == '*' then l.anchorOrAlias .aliasOf
  else if c == '&' then l.anchorOrAlias .anchor
  else if c == '!' then l.tag
  else if c == '|' && !l.inFlow then l.block true
  else if c == '>' && !l.inFlow then l.block false
  else if c == '\'' || c == '"' then l.quoted c
  else if !isSpacing c && startsPlain l.inFlow c after then l.plain
  else none

/-- Reads tokens to the end of the text. Every token takes a character at least. -/
def run : Nat → Lexer → Option (List Token)
  | 0, _ => none
  | n + 1, l => do
    let l := toToken (n + 1) l
    let l ← l.dropStale
    let l := l.closeTo l.column
    match l.reader.rest with
    | [] => some (← (l.closeTo (-1)).dropKeyStart).tokens.reverse
    | c :: after => run n (← l.token c after)

end Lexer

def tokens? (s : List Char) : Option (List Token) :=
  if s.all isReadable then Lexer.run (s.length + 1) { reader := .ofText s } else none

end ObjectStorage.Yaml
