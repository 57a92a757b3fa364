import ObjectStorage.Text.Blank
import ObjectStorage.Http.Uri

/-! # Hosts

Names and addresses of hosts. A host whose last label is a number has to be an address of four bytes,
whose parts may be left out and may be written in other bases; one in brackets has to be an address of
eight groups.
-/
namespace ObjectStorage.Http.Host

/-- A part of an address: hexadecimal, octal or decimal. Nothing after the sign of the base is zero. -/
def addressPart? (s : List Char) : Option Nat :=
  match s with
  | '0' :: 'x' :: rest | '0' :: 'X' :: rest => if rest.isEmpty then some 0 else Text.readDigits? 16 rest
  | '0' :: d :: rest => Text.readDigits? 8 (d :: rest)
  | _ => Text.readDigits? 10 s

/-- The labels of a host; a dot at the end does not count. -/
def labels (host : List Char) : List (List Char) :=
  let all := Text.pieces '.' host
  if 1 < all.length && all.getLast? = some [] then all.dropLast else all

def endsInNumber (host : List Char) : Bool :=
  match (labels host).getLast? with
  | none | some [] => false
  | some last =>
    last.all Text.isDecimalDigit ||
    match last with
    | '0' :: x :: _ => (x == 'x' || x == 'X') && (addressPart? last).isSome
    | _ => false

/-- Whether a host is an address of four bytes: all parts but the last are bytes, and the last one fills
what is left. -/
def isFourByteAddress (host : List Char) : Bool :=
  match (labels host).mapM addressPart? with
  | none => false
  | some parts =>
    parts.length ≤ 4 && parts.dropLast.all (· < 256) &&
    parts.getLast?.any (· < Nat.pow 256 (5 - parts.length))

def isDottedQuad (s : List Char) : Bool :=
  let parts := Text.pieces '.' s
  parts.length = 4 && parts.all fun p =>
    (p.length = 1 || p.head? != some '0') && (Text.readDigits? 10 p).any (· < 256)

/-- How many groups some parts stand for: each is one of up to four digits, and four bytes at the end
are two. -/
def groupCount? : List (List Char) → Option Nat
  | [] => some 0
  | [last] => if isDottedQuad last then some 2 else if isGroup last then some 1 else none
  | p :: rest => if isGroup p then (groupCount? rest).map (· + 1) else none
where
  isGroup (p : List Char) : Bool := p.length ≤ 4 && (Text.readDigits? 16 p).isSome

def atGap? : List Char → Option (List Char × List Char)
  | ':' :: ':' :: rest => some ([], rest)
  | c :: rest => (atGap? rest).map fun (a, b) => (c :: a, b)
  | [] => none

/-- Whether a text is an address of eight groups, some of which may be left out once. -/
def isEightGroupAddress (s : List Char) : Bool :=
  let count (s : List Char) : Option Nat := if s.isEmpty then some 0 else groupCount? (Text.pieces ':' s)
  match atGap? s with
  | none => count s = some 8
  | some (before, after) =>
    match count before, count after with
    | some a, some b => a + b ≤ 7 && !before.contains '.'
    | _, _ => false

inductive Kind where
  | name
  | address
deriving DecidableEq, Repr

def kind? (host : String) : Option Kind :=
  match host.toList with
  | [] => none
  | '[' :: rest => if isEightGroupAddress rest.dropLast then some .address else none
  | s => if endsInNumber s then (if isFourByteAddress s then some .address else none) else some .name

/-- What the host of an authority is. What follows it after a colon has to be a number, or empty. -/
def ofAuthority? (authority : String) : Option Kind :=
  let host := Uri.hostOf authority
  let rest := (Uri.afterLast '@' authority.toList).drop host.toList.length
  match rest with
  | [] | [':'] => kind? host
  | _ => if rest.tail.all Text.isDecimalDigit && (Uri.tcpPortOf? authority).isSome then kind? host else none

end ObjectStorage.Http.Host
