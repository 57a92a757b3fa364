import ObjectStorage.Failure
import ObjectStorage.Listing.Page
import ObjectStorage.Timed

/-! # Collecting pages

A listing is collected page by page: each page says where the next one starts. It ends with a page
that is not truncated or names no next one, and fails if a token comes back or if the pages allowed do
not suffice.
-/
namespace ObjectStorage

/-- A listing in the making: what is listed so far, the tokens seen, the last one first, and the
number of pages merged. -/
structure Collector where
  listing : Listing := {}
  tokens : List String := []
  pages : Nat := 0
deriving Repr

namespace Collector

/-- What a page makes of a listing: it is complete or failed, or another page is needed. -/
inductive Step where
  | finished (result : Except StorageError Listing)
  | more (collector : Collector) (token : String)

def addPrefixes (known : List String) (new : List String) : List String :=
  new.foldl (fun known p => if known.contains p then known else known ++ [p]) known

def merge (l : Listing) (p : Page) : Listing :=
  { objects := l.objects ++ p.objects, commonPrefixes := addPrefixes l.commonPrefixes p.commonPrefixes }

def repeated (token : String) : StorageError :=
  .invalidResponse ("listing continuation token repeated: " ++ token)

def step (c : Collector) (p : Page) : Step :=
  let listing := merge c.listing p
  match p.next with
  | some token =>
    if !p.truncated || token.isEmpty then .finished (.ok listing)
    else if c.tokens.contains token then .finished (.error (repeated token))
    else .more ⟨listing, token :: c.tokens, c.pages + 1⟩ token
  | none => .finished (.ok listing)

/-- Whether so many pages are all that is allowed; zero allows any number. -/
def isFull (maxPages : Nat) (c : Collector) : Bool := maxPages ≠ 0 && maxPages ≤ c.pages

variable {σ : Type}

/-- Collects pages, so many at most; no result if these are not enough. -/
def collect (maxPages : Nat) (fetch : Option String → Timed σ (Except StorageError Page)) :
    Nat → Option String → Collector → Timed σ (Option (Except StorageError Listing))
  | 0, _, c => return if c.isFull maxPages then some (.error (.tooManyPages maxPages)) else none
  | fuel + 1, token, c => do
    if c.isFull maxPages then return some (.error (.tooManyPages maxPages))
    match ← fetch token with
    | .error e => return some (.error e)
    | .ok page =>
      match c.step page with
      | .finished result => return some result
      | .more c token => collect maxPages fetch fuel (some token) c

end Collector
end ObjectStorage
