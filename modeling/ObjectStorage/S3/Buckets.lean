import ObjectStorage.Backend
import ObjectStorage.S3.Cursor

/-! # Several buckets as one store

Reads try the buckets in order until one has the key. Writes go to the first bucket. Listings go through
all buckets one after the other.
-/
namespace ObjectStorage.S3.Buckets

variable {σ : Type}

/-- Tries buckets as long as they do not have the key. The failure of the last one tried counts. -/
def sweep (read : String → Timed σ (Except StorageError Fetched)) :
    List String → StorageError → Timed σ (Except StorageError Fetched)
  | [], last => return .error last
  | name :: rest, _ => do
    match ← read name with
    | .ok found => return .ok found
    | .error e => if e.errorClass = .notFound then sweep read rest e else return .error e

/-- A page of one bucket as a page of all: its token becomes a cursor, and the last page of a bucket is
followed by the first page of the next one. A page that says that there is more but not where stays
as it is. -/
def place (count bucket : Nat) (p : Page) : Page :=
  if p.truncated then { p with next := p.next.map fun token => (Cursor.within bucket token).encode }
  else if bucket + 1 < count then
    { p with next := some (Cursor.startOf (bucket + 1)).encode, truncated := true }
  else { p with next := none }

@[simp] theorem objects_place (count bucket : Nat) (p : Page) : (place count bucket p).objects = p.objects := by
  unfold place
  split
  · rfl
  · split <;> rfl

@[simp] theorem commonPrefixes_place (count bucket : Nat) (p : Page) :
    (place count bucket p).commonPrefixes = p.commonPrefixes := by
  unfold place
  split
  · rfl
  · split <;> rfl

def noSuchBucket (bucket count : Nat) : StorageError :=
  .invalidResponse ("listing cursor names bucket " ++ toString bucket ++ " of " ++ toString count)

/-- Where a listing goes on; without a token it starts with the first bucket. -/
def cursorOf : Option String → Except StorageError Cursor
  | none => .ok {}
  | some raw => Cursor.decode raw

def page (names : List String) (read : String → Option String → Timed σ (Except StorageError Page))
    (token : Option String) : Timed σ (Except StorageError Page) :=
  match cursorOf token with
  | .error e => return .error e
  | .ok cursor =>
    match names[cursor.bucket]? with
    | none => return .error (noSuchBucket cursor.bucket names.length)
    | some name => do
      match ← read name cursor.token with
      | .ok p => return .ok (place names.length cursor.bucket p)
      | .error e => return .error e

def primary (names : List String) : String := names.headD ""

def backend (names : List String) (bucket : String → Backend σ) (steps : Nat) : Backend σ where
  call
    | .get key => sweep (fun name => (bucket name).call (.get key)) names (.noSuchKey key)
    | .put key data => (bucket (primary names)).call (.put key data)
    | .delete key => (bucket (primary names)).call (.delete key)
    | .page first delimiter token =>
      page names (fun name token => (bucket name).call (.page first delimiter token)) token
  steps := names.length * steps

end ObjectStorage.S3.Buckets
