import ObjectStorage.Failure
import ObjectStorage.Listing.Page
import ObjectStorage.Timed

/-! # Backends

What a store is asked for in a single attempt, and what answers.
-/
namespace ObjectStorage

inductive Request where
  | get (key : String)
  | put (key : String) (data : List UInt8)
  | delete (key : String)
  | page (first delimiter : String) (token : Option String)
deriving DecidableEq, Repr

namespace Request

abbrev Reply : Request → Type
  | get _ => Fetched
  | put _ _ => Unit
  | delete _ => Unit
  | page _ _ _ => Page

end Request

abbrev Answer (r : Request) : Type := Except StorageError r.Reply

/-- More steps than any call takes. -/
def Backend.countless : Nat := Nat.pow 2 62

structure Backend (σ : Type) where
  call : (r : Request) → Timed σ (Answer r)
  /-- How many steps a call takes at most. -/
  steps : Nat := Backend.countless

end ObjectStorage
