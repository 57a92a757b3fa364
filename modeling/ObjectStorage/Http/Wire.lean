import ObjectStorage.Http.Message
import ObjectStorage.Text.Blank
import ObjectStorage.Text.Digits

/-! # Responses on the wire

Responses as bytes, and reading them back. A line ends with a line feed, before which a carriage return
can stand. The body ends where its headers say: with the last chunk, after a length, or with the bytes.
-/
namespace ObjectStorage.Http.Wire

inductive Fault where
  | head
  | body
deriving DecidableEq, Repr

def lineFeed : UInt8 := 10
def carriageReturn : UInt8 := 13

def charsOf (bytes : List UInt8) : List Char := bytes.map fun b => Char.ofNat b.toNat
def bytesOf (s : String) : List UInt8 := s.toUTF8.toList

/-! ## Lines -/

def line? : List UInt8 → Option (List UInt8 × List UInt8)
  | [] => none
  | b :: rest =>
    if b = lineFeed then some ([], rest)
    else if b = carriageReturn && rest.head? = some lineFeed then some ([], rest.tail)
    else (line? rest).map fun (line, rest) => (b :: line, rest)

/-! ## Heads -/

def isNameChar (c : Char) : Bool :=
  c.isAlpha || c.isDigit ||
  ['!', '#', '$', '%', '&', '\'', '*', '+', '-', '.', '^', '_', '\x60', '|', '~'].contains c

def trimGaps (value : List UInt8) : List UInt8 :=
  let drop := List.dropWhile fun b : UInt8 => b = 32 || b = 9
  (drop (drop value).reverse).reverse

/-- A header in a line of its own. Nothing comes between its name and the colon. -/
def header? (line : List UInt8) : Option Header := do
  let name := charsOf (line.takeWhile (· != 58))
  let value ← (line.drop name.length).tail?
  guard (!name.isEmpty && name.all isNameChar && value.all Header.isLegalByte)
  return ⟨(String.ofList name).toLower, trimGaps value⟩

def mostHeaders : Nat := 100

def headers? : Nat → List UInt8 → Option (Headers × List UInt8)
  | 0, _ => none
  | fuel + 1, bytes => do
    let (line, rest) ← line? bytes
    if line.isEmpty then return ([], rest)
    else do
      let h ← header? line
      let (hs, rest) ← headers? fuel rest
      return (h :: hs, rest)

inductive Version where
  | first
  | second
deriving DecidableEq, Repr

def Version.text : Version → String
  | .first => "HTTP/1.0 "
  | .second => "HTTP/1.1 "

def Version.all : List Version := [.first, .second]

def status? (s : List Char) : Option Nat := do
  guard (s.length = 3 && s.all Text.isDecimalDigit)
  (Text.readDigits? 10 s).filter (100 ≤ ·)

def statusLine? (line : List UInt8) : Option (Version × Nat) := do
  let s := charsOf line
  let version ← Version.all.find? fun v => v.text.toList.isPrefixOf s
  let rest := s.drop version.text.length
  let status ← status? (rest.take 3)
  guard ((rest.drop 3).head?.all (· = ' ') && line.all Header.isLegalByte)
  return (version, status)

def skipEmptyLines : Nat → List UInt8 → List UInt8
  | 0, bytes => bytes
  | fuel + 1, bytes =>
    match line? bytes with
    | some ([], rest) => skipEmptyLines fuel rest
    | _ => bytes

structure Head where
  version : Version
  status : Nat
  headers : Headers
deriving DecidableEq, Repr

def head? (bytes : List UInt8) : Option (Head × List UInt8) := do
  let (line, rest) ← line? (skipEmptyLines bytes.length bytes)
  let (version, status) ← statusLine? line
  let (headers, rest) ← headers? (mostHeaders + 1) rest
  return (⟨version, status, headers⟩, rest)

/-! ## Bodies -/

inductive Framing where
  | empty
  | chunks
  | length (n : Nat)
  | untilEnd
deriving DecidableEq, Repr

def contentLength? (values : List String) : Option Nat := do
  let numbers ← (values.flatMap (·.splitOn ",")).mapM fun s =>
    (Text.readDigits? 10 (Text.trimBlanks s.toList)).filter (· < Nat.pow 2 64)
  match numbers with
  | [] => none
  | n :: rest => if rest.all (· = n) then some n else none

def isChunked (values : List String) : Bool :=
  let last := ((values.getLast?.getD "").splitOn ",").getLastD ""
  (String.ofList (Text.trimBlanks last.toList)).toLower = "chunked"

def framing? (method : String) (h : Head) : Option Framing :=
  let codings := h.headers.textsOf "transfer-encoding"
  let lengths := h.headers.textsOf "content-length"
  if h.status = 101 || h.status = 204 || h.status = 304 || method = "HEAD" then some .empty
  else if !codings.isEmpty then
    match h.version with
    | .first => none
    | .second => some (if isChunked codings then .chunks else .untilEnd)
  else if lengths.isEmpty then some .untilEnd
  else (contentLength? lengths).map .length

/-- The size of a chunk: hexadecimal digits, up to blanks or a semicolon. -/
def chunkSize? (line : List UInt8) : Option Nat := do
  let s := charsOf line
  let digits := s.takeWhile fun c => (Text.hexValue? c).isSome
  let rest := (s.drop digits.length).dropWhile fun c => c = ' ' || c = '\t'
  guard (rest.head?.all (· = ';'))
  (Text.readDigits? 16 digits).filter (· < Nat.pow 2 64)

def strictLine? (bytes : List UInt8) : Option (List UInt8 × List UInt8) := do
  let (line, rest) ← line? bytes
  guard (bytes[line.length]? = some carriageReturn && !line.contains carriageReturn)
  return (line, rest)

def chunks? : Nat → List UInt8 → Option (List UInt8)
  | 0, _ => none
  | fuel + 1, bytes => do
    let (line, rest) ← strictLine? bytes
    let size ← chunkSize? line
    if size = 0 then do
      let _ ← headers? rest.length rest
      return []
    else do
      let (ending, after) ← strictLine? (rest.drop size)
      guard (size ≤ rest.length && ending.isEmpty)
      return rest.take size ++ (← chunks? fuel after)

def body? (framing : Framing) (bytes : List UInt8) : Option (List UInt8) :=
  match framing with
  | .empty => some []
  | .chunks => chunks? (bytes.length + 1) bytes
  | .length n => if n ≤ bytes.length then some (bytes.take n) else none
  | .untilEnd => some bytes

/-! ## Responses -/

/-- Whether a response only says that another one is going to follow. -/
def isInterim (status : Nat) : Bool := status < 200 && status != 101

def read (method : String) : Nat → List UInt8 → Except Fault Response
  | 0, _ => .error .head
  | fuel + 1, bytes =>
    match head? bytes with
    | none => .error .head
    | some (h, rest) =>
      if isInterim h.status then read method fuel rest
      else match framing? method h with
        | none => .error .head
        | some framing =>
          match body? framing rest with
          | some body => .ok { status := h.status, headers := h.headers, body := body }
          | none => .error .body

def readAll (method : String) (bytes : List UInt8) : Except Fault Response :=
  read method (bytes.length + 1) bytes

def write (r : Response) : List UInt8 :=
  bytesOf (Version.second.text ++ toString r.status ++ "\r\n") ++
  r.headers.flatMap (fun h => bytesOf (h.name ++ ": ") ++ h.value ++ bytesOf "\r\n") ++
  bytesOf "\r\n" ++ r.body

end ObjectStorage.Http.Wire
