import ObjectStorage.Hedging.Dispatch
import ObjectStorage.Proofs.Hedging.Races

/-! # Calls under any schedule

A schedule names events in an order of its own. It need not keep to what is due, so schedules cover
every order in which ends, timers and callers who give up can be observed; the run of a hall plays one
of them. Beside the calls a history is kept of what each of them goes through.
-/
namespace ObjectStorage.Hedging
open Race (Step History Ending)

variable {σ α : Type}

def Shared.asksSince (before after : Shared σ) : List (Nat × Bool) :=
  (after.asks.take (after.asks.length - before.asks.length)).reverse

theorem Shared.asksSince_of_eq {s t : Shared σ} (h : t.asks = s.asks) : s.asksSince t = [] := by
  simp [asksSince, h]

theorem Shared.asksSince_cons {s t : Shared σ} {ask : Nat × Bool} (h : t.asks = ask :: s.asks) :
    s.asksSince t = [ask] := by
  simp [asksSince, h]

namespace Call

/-- The attempt that comes to its end by an event, and how. -/
def finish? (e : Event) (c : Call σ α) (s : Shared σ) : Option (Nat × Except StorageError α) :=
  match c.phase, e with
  | .racing _ _, .advance i =>
    match c.attempts[i]? with
    | some ⟨_, .running _ rest⟩ =>
      match rest.advance s.world with
      | (.finished outcome, _) => some (i, outcome)
      | (.waiting _ _, _) => none
    | _ => none
  | _, _ => none

/-- The attempt that the call sees at its end by an event, and how that was. -/
def sight? (e : Event) (c : Call σ α) : Option (Nat × Except StorageError α) :=
  match c.phase, e with
  | .racing _ _, .observe i =>
    match c.attempts[i]? with
    | some ⟨_, .unseen _ outcome⟩ => some (i, outcome)
    | _ => none
  | _, _ => none

/-- Without hedging an attempt is seen to end as it does. -/
def ending? (p : HedgePolicy) (e : Event) (c : Call σ α) (s : Shared σ) : Option (Nat × Except StorageError α) :=
  if p.enabled then c.sight? e else c.finish? e s

/-- What the rules of the race make of an event. Without hedging they have no say. -/
def verdict? (p : HedgePolicy) (e : Event) (c : Call σ α) : Option (Step α) :=
  if p.enabled then
    match c.phase, e with
    | .racing race _, .timer => some (race.timerFired p)
    | .racing race _, .observe _ => (c.sight? e).map fun (i, outcome) => race.finished p i outcome
    | _, _ => none
  else none

def record (p : HedgePolicy) (now : Nat) (e : Event) (c : Call σ α) (s : Shared σ) : History α where
  endings := (c.ending? p e s).toList.map fun (i, outcome) => ⟨now, i, outcome⟩
  rounds := ((c.verdict? p e).map Step.rounds).getD 0
  answers := (s.asksSince (c.handle p now e s).2).map Prod.snd
  finishes := (c.finish? e s).toList.map fun (i, outcome) => ⟨now, i, outcome⟩

def heard (step : Step α) (s : Shared σ) : History α :=
  match step with
  | .asking _ => { answers := [s.limiter.ask.1] }
  | _ => {}

/-- What an event can do to a call and to what calls share, and what the call goes through. -/
inductive Move (p : HedgePolicy) (now : Nat) (c : Call σ α) (s : Shared σ) :
    History α → Call σ α × Shared σ → Prop where
  /-- The event does not concern the call as it is. -/
  | idle : Move p now c s {} (c, s)
  | started (upcoming : c.phase = .upcoming) :
    Move p now c s {} ({ c.launch now with phase := .racing {} (now + p.after.ticks) }, s)
  | continued {race : Race} {timer i due started : Nat}
      {rest next : Timed (World σ) (Except StorageError α)} {d : Duration} {world : World σ}
      (racing : c.phase = .racing race timer) (running : c.attempts[i]? = some ⟨started, .running due rest⟩)
      (waits : rest.advance s.world = (.waiting d next, world)) :
    Move p now c s {} (c.stand i (.running (now + d.ticks) next), { s with world := world })
  /-- An attempt ends, and its call has not seen it yet. -/
  | finished {race : Race} {timer i due started : Nat}
      {rest : Timed (World σ) (Except StorageError α)} {outcome : Except StorageError α} {world : World σ}
      (hedged : p.enabled = true) (racing : c.phase = .racing race timer)
      (running : c.attempts[i]? = some ⟨started, .running due rest⟩)
      (ends : rest.advance s.world = (.finished outcome, world)) :
    Move p now c s { finishes := [⟨now, i, outcome⟩] } (c.stand i (.unseen now outcome), { s with world := world })
  /-- The call sees an attempt that ended, and the rules of the race say what follows. -/
  | observed {race : Race} {timer i time started : Nat} {outcome : Except StorageError α}
      (hedged : p.enabled = true) (racing : c.phase = .racing race timer)
      (unseen : c.attempts[i]? = some ⟨started, .unseen time outcome⟩) :
    Move p now c s
      ({ endings := [⟨now, i, outcome⟩] } ++ { rounds := (race.finished p i outcome).rounds } ++
        heard (race.finished p i outcome) s)
      ((c.stand i (.ofOutcome time outcome)).follow p now timer (race.finished p i outcome) s)
  /-- Without hedging the end of the attempt is the end of the call. -/
  | returned {race : Race} {timer i due started : Nat}
      {rest : Timed (World σ) (Except StorageError α)} {outcome : Except StorageError α} {world : World σ}
      (unhedged : p.enabled = false) (racing : c.phase = .racing race timer)
      (running : c.attempts[i]? = some ⟨started, .running due rest⟩)
      (ends : rest.advance s.world = (.finished outcome, world)) :
    Move p now c s { endings := [⟨now, i, outcome⟩], finishes := [⟨now, i, outcome⟩] }
      ((c.stand i (.unseen now outcome)).finish now (.returned outcome), { s with world := world })
  | fired {race : Race} {timer : Nat} (hedged : p.enabled = true) (racing : c.phase = .racing race timer) :
    Move p now c s ({ rounds := (race.timerFired p : Step α).rounds } ++ heard (race.timerFired p : Step α) s)
      (c.follow p now timer (race.timerFired p) s)
  | dropped {race : Race} {timer : Nat} (racing : c.phase = .racing race timer) :
    Move p now c s {} (c.finish now .dropped, s)

theorem follow_asking (p : HedgePolicy) (now timer : Nat) (race : Race) (c : Call σ α) (s : Shared σ) :
    c.follow p now timer (.asking race) s =
      if s.reaches now p.after then
        match race.answered (α := α) p s.limiter.ask.1 with
        | .settled outcome =>
          ((if s.limiter.ask.1 then c.launch now else c).finish now (.returned outcome), (s.ask now).2)
        | .running race | .asking race =>
          ({ (if s.limiter.ask.1 then c.launch now else c) with phase := .racing race (now + p.after.ticks) },
            (s.ask now).2)
      else ((if s.limiter.ask.1 then c.launch now else c).finish now .broken, (s.ask now).2) := rfl

theorem follow_cases (p : HedgePolicy) (now timer : Nat) (step : Step α) (c : Call σ α) (s : Shared σ) :
    ∃ d, (d = c ∨ d = c.launch now) ∧
      ((∃ closing, (c.follow p now timer step s).1 = d.finish now closing ∧ closing ≠ .dropped ∧
          (closing = .broken → s.reaches now p.after = false)) ∨
        ∃ race timer', (c.follow p now timer step s).1 = { d with phase := .racing race timer' }) := by
  cases step with
  | settled outcome => exact ⟨c, .inl rfl, .inl ⟨.returned outcome, rfl, by simp⟩⟩
  | running race => exact ⟨c, .inl rfl, .inr ⟨race, timer, rfl⟩⟩
  | asking race =>
    refine ⟨if s.limiter.ask.1 then c.launch now else c, by split <;> simp, ?_⟩
    rw [follow_asking]
    split
    · cases race.answered (α := α) p s.limiter.ask.1 with
      | settled outcome => exact .inl ⟨.returned outcome, rfl, by simp⟩
      | running race => exact .inr ⟨race, _, rfl⟩
      | asking race => exact .inr ⟨race, _, rfl⟩
    · rename_i hlate
      exact .inl ⟨.broken, rfl, by simp, fun _ => by simpa using hlate⟩

theorem follow_keeps {P : Call σ α → Prop} {c : Call σ α} {now : Nat} (hc : P c) (hlaunch : P (c.launch now))
    (hfinish : ∀ d closing, P d → P (d.finish now closing))
    (hphase : ∀ (d : Call σ α) phase, P d → P { d with phase := phase }) (p : HedgePolicy) (timer : Nat)
    (step : Step α) (s : Shared σ) : P (c.follow p now timer step s).1 := by
  obtain ⟨d, hd, hfollow⟩ := follow_cases p now timer step c s
  have hkept : P d := by
    rcases hd with rfl | rfl
    · exact hc
    · exact hlaunch
  rcases hfollow with ⟨closing, heq, -⟩ | ⟨race, timer', heq⟩ <;> rw [heq]
  · exact hfinish d _ hkept
  · exact hphase d _ hkept

theorem follow_shared (p : HedgePolicy) (now timer : Nat) (step : Step α) (c : Call σ α) (s : Shared σ) :
    (c.follow p now timer step s).2 = match step with
      | .asking _ => (s.ask now).2
      | _ => s := by
  cases step with
  | settled outcome => rfl
  | running race => rfl
  | asking race =>
    rw [follow_asking]
    split
    · cases race.answered (α := α) p s.limiter.ask.1 <;> rfl
    · rfl

theorem follow_asksSince (p : HedgePolicy) (now timer : Nat) (step : Step α) (c : Call σ α) (s : Shared σ) :
    (s.asksSince (c.follow p now timer step s).2).map Prod.snd = (heard step s).answers := by
  rw [follow_shared]
  cases step with
  | settled outcome => simp [Shared.asksSince_of_eq, heard]
  | running race => simp [Shared.asksSince_of_eq, heard]
  | asking race =>
    have hasks : (s.ask now).2.asks = (now, s.limiter.ask.1) :: s.asks := rfl
    rw [Shared.asksSince_cons hasks]
    rfl

theorem heard_eq (step : Step α) (s : Shared σ) : heard step s = { answers := (heard step s).answers } := by
  cases step <;> rfl

theorem sight?_advance (i : Nat) (c : Call σ α) : c.sight? (.advance i) = none := by
  unfold sight?
  cases c.phase <;> rfl

theorem verdict?_advance (p : HedgePolicy) (i : Nat) (c : Call σ α) : c.verdict? p (.advance i) = none := by
  unfold verdict?
  cases c.phase <;> simp

theorem advance_asks (p : HedgePolicy) (now i : Nat) (c : Call σ α) (s : Shared σ) :
    (c.advance p now i s).2.asks = s.asks := by
  unfold advance
  split
  · rename_i started due rest _
    rcases rest.advance s.world with ⟨progress, world⟩
    cases progress <;> rfl
  · rfl

/-- Where the rules of the race have no say there is nothing but what ends and what is seen to end. -/
theorem record_of_verdict?_eq_none {p : HedgePolicy} {now : Nat} {e : Event} {c d : Call σ α} {s t : Shared σ}
    (hh : c.handle p now e s = (d, t)) (ht : t.asks = s.asks) (hv : c.verdict? p e = none) :
    c.record p now e s =
      { endings := (c.ending? p e s).toList.map fun (i, outcome) => ⟨now, i, outcome⟩
        finishes := (c.finish? e s).toList.map fun (i, outcome) => ⟨now, i, outcome⟩ } := by
  ext1
  · rfl
  · simp [record, hv]
  · simp [record, hh, Shared.asksSince_of_eq ht]
  · rfl

theorem record_of_handle_eq {p : HedgePolicy} {now : Nat} {e : Event} {c d : Call σ α} {s t : Shared σ}
    (hh : c.handle p now e s = (d, t)) (ht : t.asks = s.asks) (hf : c.finish? e s = none) (hs : c.sight? e = none)
    (hv : c.verdict? p e = none) : c.record p now e s = {} := by
  rw [record_of_verdict?_eq_none hh ht hv]
  simp [ending?, hf, hs]

theorem move_ends {p : HedgePolicy} {now i timer due started : Nat} {race : Race} {c : Call σ α} {s : Shared σ}
    {rest : Timed (World σ) (Except StorageError α)} {outcome : Except StorageError α} {world : World σ}
    (hph : c.phase = .racing race timer) (hat : c.attempts[i]? = some ⟨started, .running due rest⟩)
    (hends : rest.advance s.world = (.finished outcome, world)) :
    Move p now c s (c.record p now (.advance i) s) (c.handle p now (.advance i) s) := by
  have hf : c.finish? (.advance i) s = some (i, outcome) := by simp [finish?, hph, hat, hends]
  have hv := verdict?_advance p i c
  cases hp : p.enabled with
  | true =>
    have hh : c.handle p now (.advance i) s = (c.stand i (.unseen now outcome), { s with world := world }) := by
      simp [handle, hph, advance, hat, hends, hp]
    have hrec : c.record p now (.advance i) s = { finishes := [⟨now, i, outcome⟩] } := by
      rw [record_of_verdict?_eq_none hh rfl hv]
      simp [ending?, hp, sight?_advance, hf]
    rw [hrec, hh]
    exact .finished hp hph hat hends
  | false =>
    have hh : c.handle p now (.advance i) s =
        ((c.stand i (.unseen now outcome)).finish now (.returned outcome), { s with world := world }) := by
      simp [handle, hph, advance, hat, hends, hp]
    have hrec : c.record p now (.advance i) s =
        { endings := [⟨now, i, outcome⟩], finishes := [⟨now, i, outcome⟩] } := by
      rw [record_of_verdict?_eq_none hh rfl hv]
      simp [ending?, hp, hf]
    rw [hrec, hh]
    exact .returned hp hph hat hends

theorem move_advance {p : HedgePolicy} {now i timer : Nat} {race : Race} {c : Call σ α} {s : Shared σ}
    (hph : c.phase = .racing race timer) :
    Move p now c s (c.record p now (.advance i) s) (c.handle p now (.advance i) s) := by
  have hquiet {d : Call σ α} {t : Shared σ} (hh : c.handle p now (.advance i) s = (d, t)) (ht : t.asks = s.asks)
      (hf : c.finish? (.advance i) s = none) : c.record p now (.advance i) s = {} :=
    record_of_handle_eq hh ht hf (sight?_advance i c) (verdict?_advance p i c)
  cases hat : c.attempts[i]? with
  | none =>
    have hh : c.handle p now (.advance i) s = (c, s) := by simp [handle, hph, advance, hat]
    rw [hquiet hh rfl (by simp [finish?, hph, hat]), hh]
    exact .idle
  | some a =>
    obtain ⟨started, standing⟩ := a
    cases standing with
    | running due rest =>
      cases hrest : rest.advance s.world with
      | mk progress world =>
        cases progress with
        | waiting d next =>
          have hh : c.handle p now (.advance i) s =
              (c.stand i (.running (now + d.ticks) next), { s with world := world }) := by
            simp [handle, hph, advance, hat, hrest]
          rw [hquiet hh rfl (by simp [finish?, hph, hat, hrest]), hh]
          exact .continued hph hat hrest
        | finished outcome => exact move_ends hph hat hrest
    | unseen | completed | panicked | aborted =>
      have hh : c.handle p now (.advance i) s = (c, s) := by simp [handle, hph, advance, hat]
      rw [hquiet hh rfl (by simp [finish?, hph, hat]), hh]
      exact .idle

theorem move_observe {p : HedgePolicy} {now i timer : Nat} {race : Race} {c : Call σ α} {s : Shared σ}
    (hph : c.phase = .racing race timer) :
    Move p now c s (c.record p now (.observe i) s) (c.handle p now (.observe i) s) := by
  have hf : c.finish? (.observe i) s = none := by simp [finish?, hph]
  have hidle (hh : c.handle p now (.observe i) s = (c, s)) (he : c.ending? p (.observe i) s = none)
      (hv : c.verdict? p (.observe i) = none) :
      Move p now c s (c.record p now (.observe i) s) (c.handle p now (.observe i) s) := by
    rw [record_of_verdict?_eq_none hh rfl hv, he, hf, hh]
    exact .idle
  cases hp : p.enabled with
  | false => exact hidle (by simp [handle, hph, hp]) (by simp [ending?, hp, hf]) (by simp [verdict?, hp])
  | true =>
    cases hat : c.attempts[i]? with
    | none =>
      exact hidle (by simp [handle, hph, hp, observe, hat]) (by simp [ending?, hp, sight?, hph, hat])
        (by simp [verdict?, hp, hph, sight?, hat])
    | some a =>
      obtain ⟨started, standing⟩ := a
      cases standing with
      | unseen time outcome =>
        have hs : c.sight? (.observe i) = some (i, outcome) := by simp [sight?, hph, hat]
        have hh : c.handle p now (.observe i) s =
            (c.stand i (.ofOutcome time outcome)).follow p now timer (race.finished p i outcome) s := by
          simp [handle, hph, hp, observe, hat]
        have hrec : c.record p now (.observe i) s = { endings := [⟨now, i, outcome⟩] } ++
            { rounds := (race.finished p i outcome).rounds } ++ heard (race.finished p i outcome) s := by
          rw [heard_eq]
          ext1
          · simp [record, ending?, hp, hs]
          · simp [record, verdict?, hp, hph, hs]
          · simpa [record, hh] using
              follow_asksSince p now timer (race.finished p i outcome) (c.stand i (.ofOutcome time outcome)) s
          · simp [record, hf]
        rw [hrec, hh]
        exact .observed hp hph hat
      | running | completed | panicked | aborted =>
        exact hidle (by simp [handle, hph, hp, observe, hat]) (by simp [ending?, hp, sight?, hph, hat])
          (by simp [verdict?, hp, hph, sight?, hat])

theorem move_handle (p : HedgePolicy) (now : Nat) (e : Event) (c : Call σ α) (s : Shared σ) :
    Move p now c s (c.record p now e s) (c.handle p now e s) := by
  have hidle (hh : c.handle p now e s = (c, s)) (hf : c.finish? e s = none) (hs : c.sight? e = none)
      (hv : c.verdict? p e = none) : Move p now c s (c.record p now e s) (c.handle p now e s) := by
    rw [record_of_handle_eq hh rfl hf hs hv, hh]
    exact .idle
  cases hph : c.phase with
  | upcoming =>
    have hf : c.finish? e s = none := by simp [finish?, hph]
    have hs : c.sight? e = none := by simp [sight?, hph]
    have hv : c.verdict? p e = none := by simp [verdict?, hph]
    cases e with
    | start =>
      have hh : c.handle p now .start s =
          ({ c.launch now with phase := .racing {} (now + p.after.ticks) }, s) := by simp [handle, hph]
      rw [record_of_handle_eq hh rfl hf hs hv, hh]
      exact .started hph
    | advance i => exact hidle (by simp [handle, hph]) hf hs hv
    | observe i => exact hidle (by simp [handle, hph]) hf hs hv
    | timer => exact hidle (by simp [handle, hph]) hf hs hv
    | drop => exact hidle (by simp [handle, hph]) hf hs hv
  | ended time closing =>
    exact hidle (by simp [handle, hph]) (by simp [finish?, hph]) (by simp [sight?, hph]) (by simp [verdict?, hph])
  | racing race timer =>
    cases e with
    | start =>
      exact hidle (by simp [handle, hph]) (by simp [finish?, hph]) (by simp [sight?, hph]) (by simp [verdict?, hph])
    | drop =>
      have hh : c.handle p now .drop s = (c.finish now .dropped, s) := by simp [handle, hph]
      rw [record_of_handle_eq hh rfl (by simp [finish?, hph]) (by simp [sight?, hph]) (by simp [verdict?, hph]), hh]
      exact .dropped hph
    | timer =>
      by_cases hp : p.enabled = true
      · have hh : c.handle p now .timer s = c.follow p now timer (race.timerFired p) s := by
          simp [handle, hph, hp]
        have hrec : c.record p now .timer s =
            { rounds := (race.timerFired p : Step α).rounds } ++ heard (race.timerFired p : Step α) s := by
          rw [heard_eq]
          ext1
          · simp [record, ending?, hp, sight?, hph]
          · simp [record, verdict?, hph, hp]
          · simpa [record, hh] using follow_asksSince p now timer (race.timerFired p) c s
          · simp [record, finish?, hph]
        rw [hrec, hh]
        exact .fired hp hph
      · exact hidle (by simp [handle, hph, hp]) (by simp [finish?, hph]) (by simp [sight?, hph])
          (by simp [verdict?, hp])
    | advance i => exact move_advance hph
    | observe i => exact move_observe hph

/-- The world is as it was, or an attempt of the call took a step in it. -/
def Advanced (c : Call σ α) (w world : World σ) : Prop :=
  world = w ∨ ∃ (i started due : Nat) (rest : Timed (World σ) (Except StorageError α)),
    c.attempts[i]? = some ⟨started, .running due rest⟩ ∧ world = (rest.advance w).2

/-- What an event does to what calls share: an attempt may take a step in the world, or the limiter may be asked. -/
theorem handle_shared (p : HedgePolicy) (now : Nat) (e : Event) (c : Call σ α) (s : Shared σ) :
    ((c.record p now e s).answers = [] ∧
        ∃ world, c.Advanced s.world world ∧ (c.handle p now e s).2 = { s with world := world }) ∨
      ((c.record p now e s).answers = [s.limiter.ask.1] ∧ (c.handle p now e s).2 = (s.ask now).2) := by
  have hfollow (timer : Nat) (step : Step α) (d : Call σ α) :
      ((heard step s).answers = [] ∧
          ∃ world, c.Advanced s.world world ∧ (d.follow p now timer step s).2 = { s with world := world }) ∨
        ((heard step s).answers = [s.limiter.ask.1] ∧ (d.follow p now timer step s).2 = (s.ask now).2) := by
    rw [follow_shared]
    cases step with
    | settled outcome => exact .inl ⟨rfl, s.world, .inl rfl, rfl⟩
    | running race => exact .inl ⟨rfl, s.world, .inl rfl, rfl⟩
    | asking race => exact .inr ⟨rfl, rfl⟩
  have hworld {i started due : Nat} {rest : Timed (World σ) (Except StorageError α)}
      {progress : Timed.Progress (World σ) (Except StorageError α)} {world : World σ}
      (hat : c.attempts[i]? = some ⟨started, .running due rest⟩) (hadvance : rest.advance s.world = (progress, world)) :
      c.Advanced s.world world :=
    .inr ⟨i, started, due, rest, hat, (congrArg Prod.snd hadvance).symm⟩
  have hmove := move_handle p now e c s
  generalize c.record p now e s = y at hmove ⊢
  generalize c.handle p now e s = r at hmove ⊢
  cases hmove with
  | idle => exact .inl ⟨rfl, s.world, .inl rfl, rfl⟩
  | started _ => exact .inl ⟨rfl, s.world, .inl rfl, rfl⟩
  | continued _ hat hwaits => exact .inl ⟨rfl, _, hworld hat hwaits, rfl⟩
  | finished _ _ hat hends => exact .inl ⟨rfl, _, hworld hat hends, rfl⟩
  | observed _ _ _ => simpa using hfollow _ _ _
  | returned _ _ hat hends => exact .inl ⟨rfl, _, hworld hat hends, rfl⟩
  | fired _ _ => simpa using hfollow _ _ c
  | dropped _ => exact .inl ⟨rfl, s.world, .inl rfl, rfl⟩

theorem handle_horizon (p : HedgePolicy) (now : Nat) (e : Event) (c : Call σ α) (s : Shared σ) :
    (c.handle p now e s).2.horizon = s.horizon := by
  rcases handle_shared p now e c s with ⟨-, world, -, hshared⟩ | ⟨-, hshared⟩
  · rw [hshared]
  · rw [hshared]
    rfl

/-- What a launch, an end and another phase leave true of a call is true after every event, if it is true of the
call with an attempt that took a step or was seen to end. -/
theorem handle_keeps {P : Call σ α → Prop} {c : Call σ α} {now : Nat} {s : Shared σ} (hc : P c)
    (hlaunch : ∀ d, P d → P (d.launch now)) (hfinish : ∀ d closing, P d → P (d.finish now closing))
    (hphase : ∀ (d : Call σ α) phase, P d → P { d with phase := phase })
    (hwaits : ∀ (i started due later : Nat) (rest next : Timed (World σ) (Except StorageError α)) (d : Duration),
      c.attempts[i]? = some ⟨started, .running due rest⟩ → (rest.advance s.world).1 = .waiting d next →
      P (c.stand i (.running later next)))
    (hends : ∀ (i started due : Nat) (rest : Timed (World σ) (Except StorageError α)) (outcome : Except StorageError α),
      c.attempts[i]? = some ⟨started, .running due rest⟩ → P (c.stand i (.unseen now outcome)))
    (hsees : ∀ (i started time : Nat) (outcome : Except StorageError α),
      c.attempts[i]? = some ⟨started, .unseen time outcome⟩ → P (c.stand i (.ofOutcome time outcome)))
    (p : HedgePolicy) (e : Event) : P (c.handle p now e s).1 := by
  have hmove := move_handle p now e c s
  generalize c.record p now e s = y at hmove
  generalize c.handle p now e s = r at hmove ⊢
  cases hmove with
  | idle => exact hc
  | started _ => exact hphase _ _ (hlaunch c hc)
  | continued _ hat hadvance => exact hwaits _ _ _ _ _ _ _ hat (congrArg Prod.fst hadvance)
  | finished _ _ hat _ => exact hends _ _ _ _ _ hat
  | @observed race timer i time started outcome _ _ hat =>
    have hover := hsees i started time outcome hat
    exact follow_keeps hover (hlaunch _ hover) hfinish hphase p _ _ _
  | returned _ _ hat _ => exact hfinish _ _ (hends _ _ _ _ _ hat)
  | fired _ _ => exact follow_keeps hc (hlaunch c hc) hfinish hphase p _ _ s
  | dropped _ => exact hfinish c _ hc

end Call

namespace Hall

def play (h : Hall σ α) (es : List (Nat × Nat × Event)) : Hall σ α :=
  es.foldl (fun h (now, i, e) => h.handle now i e) h

def record (k now i : Nat) (e : Event) (h : Hall σ α) : History α :=
  match h.calls[k]? with
  | some c => if i = k then c.record h.policy now e h.shared else {}
  | none => {}

def history (k : Nat) : List (Nat × Nat × Event) → Hall σ α → History α
  | [], _ => {}
  | (now, i, e) :: es, h => h.record k now i e ++ history k es (h.handle now i e)

@[simp] theorem play_cons (h : Hall σ α) (now i : Nat) (e : Event) (es : List (Nat × Nat × Event)) :
    h.play ((now, i, e) :: es) = (h.handle now i e).play es := rfl

theorem play_append (h : Hall σ α) (es more : List (Nat × Nat × Event)) :
    h.play (es ++ more) = (h.play es).play more :=
  List.foldl_append

@[simp] theorem handle_policy (h : Hall σ α) (now i : Nat) (e : Event) :
    (h.handle now i e).policy = h.policy := by
  unfold handle
  cases h.calls[i]? <;> rfl

@[simp] theorem play_policy (h : Hall σ α) (es : List (Nat × Nat × Event)) :
    (h.play es).policy = h.policy := by
  induction es generalizing h with
  | nil => rfl
  | cons ev es ih =>
    obtain ⟨now, i, e⟩ := ev
    rw [play_cons, ih, handle_policy]

theorem handle_of_getElem? {h : Hall σ α} {i : Nat} {c : Call σ α} (hc : h.calls[i]? = some c)
    (now : Nat) (e : Event) :
    h.handle now i e = { h with
      calls := h.calls.set i (c.handle h.policy now e h.shared).1
      shared := (c.handle h.policy now e h.shared).2 } := by
  simp only [handle, hc]

theorem handle_of_none {h : Hall σ α} {i : Nat} (hc : h.calls[i]? = none) (now : Nat) (e : Event) :
    h.handle now i e = h := by
  simp only [handle, hc]

@[simp] theorem handle_horizon (h : Hall σ α) (now i : Nat) (e : Event) :
    (h.handle now i e).shared.horizon = h.shared.horizon := by
  cases hi : h.calls[i]? with
  | none => rw [handle_of_none hi]
  | some c =>
    rw [handle_of_getElem? hi]
    exact Call.handle_horizon h.policy now e c h.shared

@[simp] theorem play_horizon (h : Hall σ α) (es : List (Nat × Nat × Event)) :
    (h.play es).shared.horizon = h.shared.horizon := by
  induction es generalizing h with
  | nil => rfl
  | cons ev es ih =>
    obtain ⟨now, i, e⟩ := ev
    rw [play_cons, ih, handle_horizon]

theorem getElem?_handle (h : Hall σ α) (now i : Nat) (e : Event) (k : Nat) :
    (h.handle now i e).calls[k]? =
      if i = k then h.calls[k]?.map fun c => (c.handle h.policy now e h.shared).1 else h.calls[k]? := by
  cases hi : h.calls[i]? with
  | none =>
    rw [handle_of_none hi]
    by_cases hik : i = k
    · subst hik
      simp [hi]
    · simp [hik]
  | some c =>
    rw [handle_of_getElem? hi]
    by_cases hik : i = k
    · subst hik
      obtain ⟨hlt, rfl⟩ := List.getElem?_eq_some_iff.1 hi
      simp [hlt]
    · simp [hik, List.getElem?_set_ne hik]

theorem record_self {h : Hall σ α} {k : Nat} {c : Call σ α} (hc : h.calls[k]? = some c) (now : Nat) (e : Event) :
    h.record k now k e = c.record h.policy now e h.shared := by
  simp [record, hc]

theorem record_of_ne {h : Hall σ α} {i k : Nat} (hik : i ≠ k) (now : Nat) (e : Event) : h.record k now i e = {} := by
  unfold record
  split <;> simp [hik]

theorem history_cons_self {h : Hall σ α} {k : Nat} {c : Call σ α} (hc : h.calls[k]? = some c) (now : Nat) (e : Event)
    (es : List (Nat × Nat × Event)) :
    h.history k ((now, k, e) :: es) = c.record h.policy now e h.shared ++ (h.handle now k e).history k es := by
  rw [history, record_self hc]

theorem history_cons_of_ne {h : Hall σ α} {i k : Nat} (hik : i ≠ k) (now : Nat) (e : Event)
    (es : List (Nat × Nat × Event)) : h.history k ((now, i, e) :: es) = (h.handle now i e).history k es := by
  rw [history, record_of_ne hik, History.empty_append]

/-- What holds of a call after a history is kept by every schedule, if every event that happens to the
call keeps it. -/
theorem play_induction {P : Call σ α → History α → Prop} {h : Hall σ α} {k : Nat}
    (step : ∀ c x now e s, P c x →
      P (c.handle h.policy now e s).1 (x ++ c.record h.policy now e s))
    {c : Call σ α} (hc : h.calls[k]? = some c) {x : History α} (hx : P c x) (es : List (Nat × Nat × Event)) :
    ∃ d, (h.play es).calls[k]? = some d ∧ P d (x ++ h.history k es) := by
  induction es generalizing h c x with
  | nil => exact ⟨c, hc, by simpa [history] using hx⟩
  | cons ev es ih =>
    obtain ⟨now, i, e⟩ := ev
    have hpolicy := handle_policy h now i e
    have hnext := getElem?_handle h now i e k
    rw [play_cons]
    by_cases hik : i = k
    · subst hik
      rw [history_cons_self hc, ← History.append_assoc]
      rw [if_pos rfl, hc] at hnext
      exact ih (by rwa [hpolicy]) hnext (step c x now e h.shared hx)
    · rw [history_cons_of_ne hik]
      rw [if_neg hik, hc] at hnext
      exact ih (by rwa [hpolicy]) hnext hx

theorem run_eq_play (fuel : Nat) (h : Hall σ α) :
    ∃ es : List (Nat × Nat × Event), es.length ≤ fuel ∧ Hall.run fuel h = h.play es := by
  induction fuel generalizing h with
  | zero => exact ⟨[], by simp, rfl⟩
  | succ fuel ih =>
    unfold run
    cases hn : h.next? with
    | none => exact ⟨[], by simp, rfl⟩
    | some ev =>
      obtain ⟨now, i, e⟩ := ev
      obtain ⟨es, hlen, hrun⟩ := ih (h.handle now i e)
      exact ⟨(now, i, e) :: es, by simpa using hlen, hrun⟩

end Hall

/-- The result of a call that runs alone is what some schedule makes of it. -/
theorem dispatch_eq_play (p : HedgePolicy) (steps now : Nat)
    (attempt : Timed (World σ) (Except StorageError α)) (s : Shared σ) :
    ∃ es : List (Nat × Nat × Event),
      let h := Hall.play ⟨p, [{ start := now, attempt := fun _ => attempt }], s⟩ es
      dispatch p steps now attempt s =
        ((h.calls.head?.bind Call.result?).bind fun r => r.2.bind fun outcome => some (r.1, outcome),
          h.shared) := by
  obtain ⟨es, -, hrun⟩ :=
    Hall.run_eq_play (eventBound p steps) ⟨p, [{ start := now, attempt := fun _ => attempt }], s⟩
  refine ⟨es, ?_⟩
  simp only [dispatch, hrun]
  rfl

end ObjectStorage.Hedging
