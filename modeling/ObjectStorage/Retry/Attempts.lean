import ObjectStorage.Retry.Policy
import ObjectStorage.World

/-! # Attempts

An operation is attempted until it succeeds, fails for good or has used its retries up. Between two
attempts there is one pause.
-/
namespace ObjectStorage.RetryPolicy

variable {σ α : Type}

def attempts (p : RetryPolicy) (name : String) (kind : OperationKind)
    (attempt : Timed (World σ) (Except StorageError α)) :
    Nat → Timed (World σ) (Except StorageError α)
  | 0 => attempt
  | left + 1 => do
    match ← attempt with
    | .ok a => return .ok a
    | .error e =>
      if p.retries kind e then
        World.count (·.record (.retries name))
        Timed.pause (p.backoff (p.maxRetries - (left + 1)) (← World.draw))
        attempts p name kind attempt left
      else return .error e

def run (p : RetryPolicy) (name : String) (kind : OperationKind)
    (attempt : Timed (World σ) (Except StorageError α)) : Timed (World σ) (Except StorageError α) :=
  p.attempts name kind attempt p.maxRetries

end ObjectStorage.RetryPolicy
