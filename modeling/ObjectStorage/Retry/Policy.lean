import ObjectStorage.Duration
import ObjectStorage.Failure

/-! # Retry policies

Which failures are worth another attempt, how often, and how long to wait before it.
-/
namespace ObjectStorage

inductive WritePolicy where
  | never
  /-- Only if the store said that it did not carry the write out. -/
  | unambiguous
  | always
deriving DecidableEq, Repr, Inhabited

namespace WritePolicy

def all : List WritePolicy := [never, unambiguous, always]

def name : WritePolicy → String
  | never => "never"
  | unambiguous => "unambiguous"
  | always => "always"

def repeats (p : WritePolicy) (e : StorageError) : Bool :=
  match p with
  | never => false
  | unambiguous => !e.isAmbiguous
  | always => true

end WritePolicy

inductive OperationKind where
  | read
  | write
deriving DecidableEq, Repr

structure RetryPolicy where
  /-- Attempts beyond the first. -/
  maxRetries : Nat := 5
  minPeriod : Duration := .ofMillis 100
  maxPeriod : Duration := .ofSecs 10
  writePolicy : WritePolicy := .unambiguous
deriving DecidableEq, Repr, Inhabited

namespace RetryPolicy

def noRetries : RetryPolicy := { maxRetries := 0 }

def retries (p : RetryPolicy) (kind : OperationKind) (e : StorageError) : Bool :=
  e.errorClass = .transient &&
  match kind with
  | .read => true
  | .write => p.writePolicy.repeats e

/-- What the shortest pause is multiplied by: it doubles until it no longer fits 32 bits. -/
def growth (retry : Nat) : Nat := if retry < 32 then Nat.pow 2 retry else Nat.pow 2 32 - 1

def backoffCeiling (p : RetryPolicy) (retry : Nat) : Nat :=
  min (min (p.minPeriod.nanos * growth retry) Duration.longest.nanos) p.maxPeriod.nanos

/-- The shortest and the longest pause before a retry: the upper half of what the policy gives, as far
as 64 bits hold it. -/
def backoffRange (p : RetryPolicy) (retry : Nat) : Nat × Nat :=
  let capped := p.backoffCeiling retry
  let nanos := min capped (Nat.pow 2 64 - 1)
  if nanos < 2 then (capped, capped) else (nanos / 2, nanos)

def backoff (p : RetryPolicy) (retry draw : Nat) : Duration :=
  let (low, high) := p.backoffRange retry
  ⟨low + draw % (high - low + 1)⟩

end RetryPolicy
end ObjectStorage
