import ObjectStorage.Hedging.Limiter
import ObjectStorage.Hedging.Race
import ObjectStorage.World

/-! # Hedged calls under way

Any number of calls race under one policy and share a limiter, a world and a clock. The event that is due next
happens next; nothing happens between events. Every step of an attempt is an event of its own, and so is the end
of an attempt being seen by its call. When a call ends, its attempts that are still running are aborted where they
stand.
-/
namespace ObjectStorage.Hedging

variable {σ α : Type}

inductive Event where
  | start
  /-- An attempt takes a step. -/
  | advance (attempt : Nat)
  /-- The call sees that an attempt has ended. -/
  | observe (attempt : Nat)
  | timer
  | drop
deriving DecidableEq, Repr

/-- How an attempt stands: running on to a point in time, at its end without its call having seen it, or over. -/
inductive Standing (σ α : Type) where
  | running (due : Nat) (rest : Timed (World σ) (Except StorageError α))
  | unseen (time : Nat) (outcome : Except StorageError α)
  | completed (time : Nat)
  | panicked
  | aborted

/-- How an attempt stands that ended: without a reason for its failure it panicked. -/
def Standing.ofOutcome (time : Nat) : Except StorageError α → Standing σ α
  | .error (.aborted none) => .panicked
  | _ => .completed time

structure Attempt (σ α : Type) where
  started : Nat
  standing : Standing σ α

namespace Attempt

/-- The next event of the attempt of a number, and when. Without hedging there is no end to be seen. -/
def next? (p : HedgePolicy) (i : Nat) (a : Attempt σ α) : Option (Nat × Event) :=
  match a.standing with
  | .running due _ => some (due, .advance i)
  | .unseen time _ => if p.enabled then some (time, .observe i) else none
  | _ => none

/-- What runs is aborted, and what has ended has ended. -/
def abort (a : Attempt σ α) : Attempt σ α :=
  match a.standing with
  | .running _ _ => { a with standing := .aborted }
  | .unseen time outcome => { a with standing := .ofOutcome time outcome }
  | _ => a

end Attempt

/-- How a call ends: it returns, its caller drops it, or it breaks down since its timer cannot be set. -/
inductive Closing (α : Type) where
  | returned (outcome : Except StorageError α)
  | dropped
  | broken

def Closing.outcome? : Closing α → Option (Except StorageError α)
  | .returned outcome => some outcome
  | _ => none

/-- Where a call is: not started, racing with a timer set, or over. -/
inductive Phase (α : Type) where
  | upcoming
  | racing (race : Race) (timer : Nat)
  | ended (time : Nat) (closing : Closing α)

structure Call (σ α : Type) where
  start : Nat
  /-- How long the caller waits. -/
  patience : Option Nat := none
  /-- What each attempt does, by number. -/
  attempt : Nat → Timed (World σ) (Except StorageError α)
  attempts : List (Attempt σ α) := []
  phase : Phase α := .upcoming

/-- What calls share. The asks are those made of the limiter so far, the last one first: when, and
whether it granted. -/
structure Shared (σ : Type) where
  world : World σ
  limiter : Limiter
  asks : List (Nat × Bool) := []
  /-- The last point in time that the clock can tell, in nanoseconds: it counts seconds in 63 bits. A clock
  without one goes on for ever. -/
  horizon : Option Nat := some (Nat.pow 2 63 * 1000000000 - 1)

namespace Shared

def ask (now : Nat) (s : Shared σ) : Bool × Shared σ :=
  let (granted, limiter) := s.limiter.ask
  (granted,
    { world := { s.world with metrics := s.world.metrics.recordHedge granted }
      limiter := limiter
      asks := (now, granted) :: s.asks
      horizon := s.horizon })

/-- Whether the clock can tell the point in time that is so far from now. -/
def reaches (now : Nat) (d : Duration) (s : Shared σ) : Bool :=
  s.horizon.all (now * 1000000 + d.nanos ≤ ·)

end Shared

namespace Call

/-- Of two things that are due, the earlier; the first of two at the same time. -/
def sooner {ε : Type} : Option (Nat × ε) → Option (Nat × ε) → Option (Nat × ε)
  | none, b => b
  | a, none => a
  | some a, some b => if b.1 < a.1 then some b else some a

def soonest {ε : Type} (events : List (Option (Nat × ε))) : Option (Nat × ε) := events.foldl sooner none

def next? (p : HedgePolicy) (c : Call σ α) : Option (Nat × Event) :=
  match c.phase with
  | .upcoming => some (c.start, .start)
  | .racing race timer =>
    soonest <|
      (c.attempts.zipIdx.map fun (a, i) => a.next? p i) ++
      [if p.enabled && race.rounds < p.upTo then some (timer, .timer) else none,
        c.patience.map fun patience => (c.start + patience, .drop)]
  | .ended _ _ => none

def finish (now : Nat) (closing : Closing α) (c : Call σ α) : Call σ α :=
  { c with attempts := c.attempts.map Attempt.abort, phase := .ended now closing }

def launch (now : Nat) (c : Call σ α) : Call σ α :=
  { c with attempts := c.attempts ++ [⟨now, .running now (c.attempt c.attempts.length)⟩] }

def stand (i : Nat) (standing : Standing σ α) (c : Call σ α) : Call σ α :=
  { c with attempts := c.attempts.modify i fun a => { a with standing := standing } }

/-- Does what the rules of the race say. After each ask the timer starts anew, and before anything else comes of
the answer. -/
def follow (p : HedgePolicy) (now timer : Nat) (step : Race.Step α) (c : Call σ α) (s : Shared σ) :
    Call σ α × Shared σ :=
  match step with
  | .settled outcome => (c.finish now (.returned outcome), s)
  | .running race => ({ c with phase := .racing race timer }, s)
  | .asking race =>
    let (granted, s) := s.ask now
    let c := if granted then c.launch now else c
    if s.reaches now p.after then
      match race.answered (α := α) p granted with
      | .settled outcome => (c.finish now (.returned outcome), s)
      | .running race | .asking race => ({ c with phase := .racing race (now + p.after.ticks) }, s)
    else (c.finish now .broken, s)

/-- An attempt takes a step. Its end is there to be seen; without hedging it is the end of the call. -/
def advance (p : HedgePolicy) (now i : Nat) (c : Call σ α) (s : Shared σ) : Call σ α × Shared σ :=
  match c.attempts[i]? with
  | some ⟨_, .running _ rest⟩ =>
    let (progress, world) := rest.advance s.world
    let s := { s with world := world }
    match progress with
    | .waiting d rest => (c.stand i (.running (now + d.ticks) rest), s)
    | .finished outcome =>
      let c := c.stand i (.unseen now outcome)
      (if p.enabled then c else c.finish now (.returned outcome), s)
  | _ => (c, s)

def observe (p : HedgePolicy) (now i : Nat) (race : Race) (timer : Nat) (c : Call σ α) (s : Shared σ) :
    Call σ α × Shared σ :=
  match c.attempts[i]? with
  | some ⟨_, .unseen time outcome⟩ =>
    (c.stand i (.ofOutcome time outcome)).follow p now timer (race.finished p i outcome) s
  | _ => (c, s)

def handle (p : HedgePolicy) (now : Nat) (e : Event) (c : Call σ α) (s : Shared σ) :
    Call σ α × Shared σ :=
  match c.phase, e with
  | .upcoming, .start => ({ c.launch now with phase := .racing {} (now + p.after.ticks) }, s)
  | .racing _ _, .advance i => c.advance p now i s
  | .racing race timer, .observe i => if p.enabled then c.observe p now i race timer s else (c, s)
  | .racing race timer, .timer =>
    if p.enabled then c.follow p now timer (race.timerFired p) s else (c, s)
  | .racing _ _, .drop => (c.finish now .dropped, s)
  | _, _ => (c, s)

/-- When a call ended, and with what outcome if it returned. -/
def result? (c : Call σ α) : Option (Nat × Option (Except StorageError α)) :=
  match c.phase with
  | .ended time closing => some (time, closing.outcome?)
  | _ => none

end Call

structure Hall (σ α : Type) where
  policy : HedgePolicy
  calls : List (Call σ α)
  shared : Shared σ

namespace Hall

/-- The next event: when, to which call, and what. -/
def next? (h : Hall σ α) : Option (Nat × Nat × Event) :=
  Call.soonest (h.calls.zipIdx.map fun (c, i) => (c.next? h.policy).map fun (t, e) => (t, i, e))

def handle (now i : Nat) (e : Event) (h : Hall σ α) : Hall σ α :=
  match h.calls[i]? with
  | none => h
  | some c =>
    let (c, s) := c.handle h.policy now e h.shared
    { h with calls := h.calls.set i c, shared := s }

def run : Nat → Hall σ α → Hall σ α
  | 0, h => h
  | fuel + 1, h =>
    match h.next? with
    | none => h
    | some (now, i, e) => run fuel (h.handle now i e)

end Hall

/-- How many events one call can have if each attempt takes so many steps to its end at most. -/
def eventBound (p : HedgePolicy) (steps : Nat) : Nat := 2 + p.upTo + (p.upTo + 1) * (steps + 2)

/-- Runs one call alone from a point in time, and gives its result and when it was there. -/
def dispatch (p : HedgePolicy) (steps now : Nat) (attempt : Timed (World σ) (Except StorageError α))
    (s : Shared σ) : Option (Nat × Except StorageError α) × Shared σ :=
  let h := Hall.run (eventBound p steps) ⟨p, [{ start := now, attempt := fun _ => attempt }], s⟩
  (do
    let (time, outcome) ← h.calls.head?.bind Call.result?
    return (time, ← outcome), h.shared)

end ObjectStorage.Hedging
