import ObjectStorage.Text.Blank
import ObjectStorage.Text.Percent

/-! # Paths

Paths in the form in which they are sent: segments of one dot are left out, those of two dots go back,
and characters that paths cannot hold are encoded.
-/
namespace ObjectStorage.Http.Path

def isDot (s : List Char) : Bool := s = ['.'] || (String.ofList s).toLower = "%2e"

def isTwoDots (s : List Char) : Bool :=
  ["..", ".%2e", "%2e.", "%2e%2e"].contains (String.ofList s).toLower

/-- Goes through the segments of a path with those that stay, the last one first. The last segment
leaves an empty one where it goes. -/
def resolve (dot twoDots : List Char → Bool) : List (List Char) → List (List Char) → List (List Char)
  | kept, [] => kept.reverse
  | kept, s :: rest =>
    let ending : List (List Char) := if rest.isEmpty then [[]] else []
    if twoDots s then resolve dot twoDots (ending ++ kept.tail) rest
    else if dot s then resolve dot twoDots (ending ++ kept) rest
    else resolve dot twoDots (s :: kept) rest

def segments (path : List Char) : List (List Char) :=
  let all := Text.pieces '/' path
  if all.head? = some [] then all.tail else all

def ofSegments (all : List (List Char)) : List Char := all.flatMap ('/' :: ·)

/-- A path without dot segments; those that are encoded stay. -/
def withoutDots (path : String) : String :=
  String.ofList (ofSegments (resolve (· = ['.']) (· = ['.', '.']) [] (segments path.toList)))

def keeps (c : Char) : Bool :=
  '!' ≤ c && c ≤ '~' && !(['"', '#', '<', '>', '?', '\x60', '\x7b', '\x7d', '^'].contains c)

def normal (path : String) : String :=
  let all := segments (path.toList.map fun c => if c = '\\' then '/' else c)
  String.ofList (ofSegments ((resolve isDot isTwoDots [] all).map (Text.percentEncode keeps)))

end ObjectStorage.Http.Path
