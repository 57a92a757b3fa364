/-! # Search

The first occurrence of one text in another.
-/
namespace ObjectStorage.Text

def throughFirst (needle : List Char) : List Char → Option (List Char)
  | [] => if needle.isEmpty then some [] else none
  | c :: rest =>
    if needle.isPrefixOf (c :: rest) then some needle else (throughFirst needle rest).map (c :: ·)

def dropPrefix? (first : List Char) (s : List Char) : Option (List Char) :=
  if first.isPrefixOf s then some (s.drop first.length) else none

end ObjectStorage.Text
