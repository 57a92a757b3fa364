import ObjectStorage.Backend
import ObjectStorage.Hedging.Dispatch
import ObjectStorage.Listing.Collect
import ObjectStorage.Retry.Attempts

/-! # Clients

A client makes single attempts into operations: reads are hedged, and each of their attempts is
retried; writes are retried as far as the policy lets them; a listing is collected from pages that are
each retried.
-/
namespace ObjectStorage

structure Client (σ : Type) where
  retry : RetryPolicy := {}
  hedging : HedgePolicy := {}
  /-- Pages of one listing; zero is no limit. -/
  maxPages : Nat := 10000
  backend : Backend σ

namespace Client

variable {σ α : Type}

def outcomeLabel : Except StorageError α → String
  | .ok _ => "ok"
  | .error e => e.errorClass.label

def request (c : Client σ) (name : String) (kind : OperationKind) (r : Request) :
    Timed (World σ) (Answer r) :=
  c.retry.run name kind (World.onStore (c.backend.call r))

def finish (name : String) (outcome : Except StorageError α) : Timed (World σ) (Except StorageError α) := do
  World.count (·.recordOperation name (outcomeLabel outcome))
  return outcome

def put (c : Client σ) (key : String) (data : List UInt8) : Timed (World σ) (Except StorageError Unit) := do
  finish "put" (← c.request "put" .write (.put key data))

def delete (c : Client σ) (key : String) : Timed (World σ) (Except StorageError Unit) := do
  finish "delete" (← c.request "delete" .write (.delete key))

/-- How many pages a listing is followed for. Without a limit that is more than can be counted. -/
def pageFuel (c : Client σ) : Nat := if c.maxPages = 0 then Nat.pow 2 62 else c.maxPages

/-- A listing that is followed for so many pages; no result if it goes on after them. -/
def listWithin (fuel : Nat) (c : Client σ) (first delimiter : String) :
    Timed (World σ) (Option (Except StorageError Listing)) := do
  let fetch (token : Option String) := c.request "list" .read (.page first delimiter token)
  match ← Collector.collect c.maxPages fetch fuel none {} with
  | some outcome => return some (← finish "list" outcome)
  | none => return none

def list (c : Client σ) (first delimiter : String) :
    Timed (World σ) (Option (Except StorageError Listing)) :=
  c.listWithin c.pageFuel first delimiter

def readAttempt (c : Client σ) (key : String) : Timed (World σ) (Except StorageError Fetched) :=
  c.request "get" .read (.get key)

/-- How many steps an attempt of a read takes at most: those of its calls, and before each retry a count, a draw
and a pause. -/
def readSteps (c : Client σ) : Nat := (c.retry.maxRetries + 1) * c.backend.steps + 3 * c.retry.maxRetries

end Client

structure Session (σ : Type) where
  shared : Hedging.Shared σ
  now : Nat := 0

namespace Session

variable {σ α : Type}

def perform (t : Timed (World σ) α) (s : Session σ) : α × Session σ :=
  let (a, now, world) := t.run s.now s.shared.world
  (a, { shared := { s.shared with world := world }, now := now })

def get (c : Client σ) (key : String) (s : Session σ) :
    Option (Except StorageError Fetched) × Session σ :=
  match Hedging.dispatch c.hedging c.readSteps s.now (c.readAttempt key) s.shared with
  | (some (now, outcome), shared) =>
    let (outcome, s) := perform (Client.finish "get" outcome) ⟨shared, now⟩
    (some outcome, s)
  | (none, shared) => (none, { s with shared := shared })

end Session
end ObjectStorage
