import ObjectStorage.Failure
import ObjectStorage.Hedging.Policy

/-! # Races

The rules of one hedged call. It starts with one attempt. A round asks the limiter for another one:
when the timer fires, or at once when the last attempt under way has failed. The first answer that is
no transient failure settles the call; with nothing under way and no round left the last failure does.
-/
namespace ObjectStorage

/-- A hedged call that is not settled: which attempts are under way, by number, how many were issued,
the rounds used, and the failure seen last. -/
structure Race where
  pending : List Nat := [0]
  issued : Nat := 1
  rounds : Nat := 0
  lastFailure : Option StorageError := none
deriving DecidableEq, Repr

namespace Race

/-- What an event makes of a race: an outcome, a request to the limiter, or nothing yet. -/
inductive Step (α : Type) where
  | settled (outcome : Except StorageError α)
  | asking (race : Race)
  | running (race : Race)

variable {α : Type}

def silence : StorageError := .aborted (some "no hedged attempt completed")

def goOn (p : HedgePolicy) (r : Race) : Step α :=
  if r.pending.isEmpty && p.upTo ≤ r.rounds then .settled (.error (r.lastFailure.getD silence))
  else .running r

def finished (p : HedgePolicy) (attempt : Nat) (outcome : Except StorageError α) (r : Race) : Step α :=
  match outcome with
  | .ok a => .settled (.ok a)
  | .error e =>
    if e.errorClass = .transient then
      let r := { r with pending := r.pending.erase attempt, lastFailure := some e }
      if r.pending.isEmpty && r.rounds < p.upTo then .asking { r with rounds := r.rounds + 1 }
      else goOn p r
    else .settled (.error e)

/-- The timer fires; it is only set while rounds are left. -/
def timerFired (p : HedgePolicy) (r : Race) : Step α :=
  if r.rounds < p.upTo then .asking { r with rounds := r.rounds + 1 } else goOn p r

def answered (p : HedgePolicy) (granted : Bool) (r : Race) : Step α :=
  goOn p (if granted then { r with pending := r.pending ++ [r.issued], issued := r.issued + 1 } else r)

end Race
end ObjectStorage
