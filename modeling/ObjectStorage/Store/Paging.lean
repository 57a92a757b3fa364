import ObjectStorage.Listing.Page
import ObjectStorage.Store.Basic
import ObjectStorage.Text.Search

/-! # Pages of a store

A page scans a number of keys from where the last page ended. Keys with a delimiter after the prefix
are told by what they have in common up to it.
-/
namespace ObjectStorage.Store

/-- The prefix that stands for a key: up to the first delimiter after the part that was asked for. -/
def groupOf (first delimiter key : String) : Option String :=
  if delimiter.isEmpty then none
  else
    let rest := key.toList.drop first.length
    (Text.throughFirst delimiter.toList rest).map fun group => first ++ String.ofList group

def dropRepeats : List String → List String
  | a :: b :: rest => if a = b then dropRepeats (b :: rest) else a :: dropRepeats (b :: rest)
  | s => s

def range (s : Store) (first : String) (token : Option String) : List (String × StoredObject) :=
  let before (key : String) : Bool := match token with
    | some last => key ≤ last
    | none => key < first
  let start := s.entries.dropWhile fun (key, _) => before key
  start.takeWhile fun (key, _) => first.toList.isPrefixOf key.toList

def describe (first delimiter : String) (scanned : List (String × StoredObject)) (more : Bool) : Page :=
  { objects := scanned.filterMap fun (key, o) =>
      if (groupOf first delimiter key).isNone then some ⟨key, o.data.length, some o.modified⟩ else none
    commonPrefixes := dropRepeats (scanned.filterMap fun (key, _) => groupOf first delimiter key)
    next := if more then scanned.getLast?.map (·.1) else none
    truncated := more }

def page (pageSize : Nat) (first delimiter : String) (token : Option String) (s : Store) : Page :=
  let size := max pageSize 1
  let range := s.range first token
  describe first delimiter (range.take size) (!(range.drop size).isEmpty)

end ObjectStorage.Store
