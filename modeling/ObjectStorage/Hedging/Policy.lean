import ObjectStorage.Duration

/-! # Hedging policies

When a slow read is joined by further attempts, and how many.
-/
namespace ObjectStorage

structure HedgePolicy where
  /-- How long an attempt may stay without an answer; zero turns hedging off. -/
  after : Duration := ⟨0⟩
  /-- Attempts that may be asked for beyond the first. -/
  upTo : Nat := 2
  /-- Hedges of all calls together in a second; zero is no limit. -/
  maxPerSecond : Nat := 5
deriving DecidableEq, Repr, Inhabited

def HedgePolicy.enabled (p : HedgePolicy) : Bool := p.after.nanos ≠ 0 && 0 < p.upTo

end ObjectStorage
