import ObjectStorage.Hedging.Policy

/-! # Limiters

What grants or denies a hedge. The calls of a client share one limiter, and a denied hedge is skipped.
-/
namespace ObjectStorage

inductive Limiter where
  | unlimited
  /-- So many permits are left. -/
  | permits (left : Nat)
  /-- The answers to come; then it denies. -/
  | scripted (answers : List Bool)
deriving DecidableEq, Repr

namespace Limiter

/-- The limiter of a policy: the permits of a second are there at once. -/
def ofPolicy (p : HedgePolicy) : Limiter :=
  if p.maxPerSecond = 0 then unlimited else permits p.maxPerSecond

def ask : Limiter → Bool × Limiter
  | unlimited => (true, unlimited)
  | permits 0 => (false, permits 0)
  | permits (left + 1) => (true, permits left)
  | scripted [] => (false, scripted [])
  | scripted (answer :: rest) => (answer, scripted rest)

def asks : Nat → Limiter → List Bool
  | 0, _ => []
  | n + 1, l => l.ask.1 :: asks n l.ask.2

end Limiter
end ObjectStorage
