import ObjectStorage.Proofs.Hedging.Schedule

/-! # Hedged calls and their histories

A hedged call stands by its history: while it races the attempts that it has not seen end are those of the race,
and once it is over its outcome is the one that the history calls for. Every event keeps this.
-/
namespace ObjectStorage.Hedging
open Race (Step History Ending Undecided)

variable {σ α : Type}

/-- The attempt is not over: it runs, or its end is still to be seen. -/
def Standing.IsOpen : Standing σ α → Prop
  | .running _ _ | .unseen _ _ => True
  | .completed _ | .panicked | .aborted => False

theorem Standing.not_isOpen_ofOutcome (time : Nat) (outcome : Except StorageError α) :
    ¬(Standing.ofOutcome time outcome : Standing σ α).IsOpen := by
  unfold ofOutcome
  split <;> simp [IsOpen]

theorem Standing.ofOutcome_ne_running (time due : Nat) (outcome : Except StorageError α)
    (rest : Timed (World σ) (Except StorageError α)) : ofOutcome time outcome ≠ .running due rest := by
  intro heq
  have hover := not_isOpen_ofOutcome (σ := σ) time outcome
  rw [heq] at hover
  exact hover trivial

/-- When something comes of the attempt at the earliest. -/
def Attempt.due? (a : Attempt σ α) : Option Nat :=
  match a.standing with
  | .running due _ => some due
  | .unseen time _ => some time
  | .completed _ | .panicked | .aborted => none

theorem Attempt.not_isOpen_abort (a : Attempt σ α) : ¬a.abort.standing.IsOpen := by
  obtain ⟨started, standing⟩ := a
  cases standing with
  | unseen time outcome => exact Standing.not_isOpen_ofOutcome time outcome
  | running | completed | panicked | aborted => simp [abort, Standing.IsOpen]

namespace Call

def IsRunning (c : Call σ α) (i : Nat) : Prop :=
  ∃ started due rest, c.attempts[i]? = some ⟨started, .running due rest⟩

/-- The call waits for the attempt of a number: it has not seen it end. -/
def IsPending (c : Call σ α) (i : Nat) : Prop := ∃ a ∈ c.attempts[i]?, a.standing.IsOpen

@[simp] theorem length_launch (c : Call σ α) (now : Nat) :
    (c.launch now).attempts.length = c.attempts.length + 1 := by
  simp [launch]

@[simp] theorem length_stand (c : Call σ α) (i : Nat) (standing : Standing σ α) :
    (c.stand i standing).attempts.length = c.attempts.length := by
  simp [stand]

@[simp] theorem length_finish (c : Call σ α) (now : Nat) (closing : Closing α) :
    (c.finish now closing).attempts.length = c.attempts.length := by
  simp [finish]

theorem IsPending.lt {c : Call σ α} {i : Nat} (h : c.IsPending i) : i < c.attempts.length := by
  obtain ⟨a, hi, -⟩ := h
  exact (List.getElem?_eq_some_iff.1 hi).1

theorem IsRunning.isPending {c : Call σ α} {i : Nat} (h : c.IsRunning i) : c.IsPending i := by
  obtain ⟨started, due, rest, hi⟩ := h
  exact ⟨_, hi, trivial⟩

theorem isPending_of_unseen {c : Call σ α} {i started time : Nat} {outcome : Except StorageError α}
    (h : c.attempts[i]? = some ⟨started, .unseen time outcome⟩) : c.IsPending i :=
  ⟨_, h, trivial⟩

theorem IsRunning.lt {c : Call σ α} {i : Nat} (h : c.IsRunning i) : i < c.attempts.length :=
  h.isPending.lt

/-- An attempt that a call waits for runs, or its end is there to be seen. -/
theorem IsPending.cases {c : Call σ α} {i : Nat} (h : c.IsPending i) :
    c.IsRunning i ∨ ∃ started time outcome, c.attempts[i]? = some ⟨started, .unseen time outcome⟩ := by
  obtain ⟨⟨started, standing⟩, hi, hopen⟩ := h
  cases standing with
  | running due rest => exact .inl ⟨started, due, rest, hi⟩
  | unseen time outcome => exact .inr ⟨started, time, outcome, hi⟩
  | completed | panicked | aborted => exact hopen.elim

theorem isPending_launch {c : Call σ α} {now i : Nat} :
    (c.launch now).IsPending i ↔ c.IsPending i ∨ i = c.attempts.length := by
  rcases Nat.lt_trichotomy i c.attempts.length with h | h | h
  · have hne : i ≠ c.attempts.length := by omega
    simp [IsPending, launch, List.getElem?_append_left h, hne]
  · subst h
    simp [IsPending, launch, Standing.IsOpen]
  · constructor
    · intro hr
      have hlt := hr.lt
      rw [length_launch] at hlt
      omega
    · rintro (hr | hr)
      · have hlt := hr.lt
        omega
      · omega

/-- An attempt that stands anew without being over is waited for as before. -/
theorem isPending_stand_open {c : Call σ α} {i j : Nat} {standing : Standing σ α} (hi : c.IsPending i)
    (hopen : standing.IsOpen) : (c.stand i standing).IsPending j ↔ c.IsPending j := by
  obtain ⟨a, hat, hwas⟩ := hi
  by_cases hij : i = j
  · subst hij
    rw [Option.mem_def] at hat
    simp [IsPending, stand, hat, hwas, hopen]
  · simp [IsPending, stand, List.getElem?_modify_ne _ _ hij]

theorem isPending_stand_over {c : Call σ α} {i j : Nat} {standing : Standing σ α} (hover : ¬standing.IsOpen) :
    (c.stand i standing).IsPending j ↔ c.IsPending j ∧ j ≠ i := by
  by_cases hij : i = j
  · subst hij
    simp [IsPending, stand, hover]
  · simp [IsPending, stand, List.getElem?_modify_ne _ _ hij, Ne.symm hij]

theorem not_isPending_finish {c : Call σ α} {now i : Nat} {closing : Closing α} :
    ¬(c.finish now closing).IsPending i := by
  rintro ⟨a, hi, hopen⟩
  simp only [finish, List.getElem?_map, Option.mem_def, Option.map_eq_some_iff] at hi
  obtain ⟨b, -, rfl⟩ := hi
  exact b.not_isOpen_abort hopen

structure Runs (c : Call σ α) (r : Race) : Prop where
  issued : c.attempts.length = r.issued
  pending : ∀ i, i ∈ r.pending ↔ c.IsPending i

structure Over (p : HedgePolicy) (time : Nat) (closing : Closing α) (c : Call σ α) (x : History α) : Prop where
  idle : ∀ i, ¬c.IsPending i
  issued : c.attempts.length = x.issued
  answered : x.rounds = x.answers.length
  rounds_le : x.rounds ≤ p.upTo
  settled : ∀ o, closing = .returned o → Race.Settled p time x o
  undecided : closing.outcome? = none → Undecided x.endings

inductive Stands (p : HedgePolicy) (c : Call σ α) (x : History α) : Prop where
  | upcoming (phase : c.phase = .upcoming) (attempts : c.attempts = []) (history : x = {})
  | racing {race : Race} {timer : Nat} (phase : c.phase = .racing race timer) (stands : race.Stands p x)
      (runs : c.Runs race)
  | ended {time : Nat} {closing : Closing α} (phase : c.phase = .ended time closing)
      (isOver : c.Over p time closing x)

theorem Stands.race {p : HedgePolicy} {c : Call σ α} {x : History α} (h : c.Stands p x) {race : Race}
    {timer : Nat} (hph : c.phase = .racing race timer) : race.Stands p x ∧ c.Runs race := by
  cases h with
  | upcoming phase _ _ => rw [phase] at hph; cases hph
  | racing phase stands runs =>
    rw [phase] at hph
    cases hph
    exact ⟨stands, runs⟩
  | ended phase _ => rw [phase] at hph; cases hph

theorem finish_stands {p : HedgePolicy} {now : Nat} {o : Except StorageError α} {c : Call σ α} {x : History α}
    (h : (Step.settled o).Sound p now x) (hc : c.attempts.length = x.issued) :
    (c.finish now (.returned o)).Stands p x := by
  obtain ⟨hsettled, hans, hle⟩ := h
  refine .ended rfl ⟨fun i => not_isPending_finish, by simpa using hc, hans, hle, ?_, by simp [Closing.outcome?]⟩
  rintro o' ⟨⟩
  exact hsettled

/-- A call that is over without an outcome saw nothing that would have settled it. -/
theorem finish_stands_of_undecided {p : HedgePolicy} {now : Nat} {closing : Closing α} {c : Call σ α} {x : History α}
    (hnone : closing.outcome? = none) (hans : x.rounds = x.answers.length) (hle : x.rounds ≤ p.upTo)
    (hundecided : Undecided x.endings) (hc : c.attempts.length = x.issued) : (c.finish now closing).Stands p x := by
  refine .ended rfl ⟨fun i => not_isPending_finish, by simpa using hc, hans, hle, ?_, fun _ => hundecided⟩
  rintro o rfl
  cases hnone

/-- A call follows a sound step: it stands by the history with what it heard. -/
theorem follow_stands {p : HedgePolicy} {now : Nat} {step : Step α} {c : Call σ α} {x : History α}
    (h : step.Sound p now x) (hc : c.attempts.length = x.issued)
    (hruns : ∀ t, step.race? = some t → c.Runs t) (timer : Nat) (s : Shared σ) :
    (c.follow p now timer step s).1.Stands p (x ++ heard step s) := by
  cases step with
  | settled o =>
    have hx : x ++ heard (.settled o) s = x := History.append_empty x
    rw [hx]
    exact finish_stands h hc
  | running race =>
    have hr := hruns race rfl
    have hx : x ++ heard (.running race : Step α) s = x := History.append_empty x
    rw [hx]
    exact .racing rfl h ⟨hr.issued, hr.pending⟩
  | asking race =>
    obtain ⟨htally, hans⟩ := h
    have hr := hruns race rfl
    have hsound := Race.answered_sound htally hans s.limiter.ask.1 now
    -- The call as the answer leaves it has the attempts of the race that heard it.
    have hlaunch : (if s.limiter.ask.1 then c.launch now else c).attempts.length =
        (x ++ heard (.asking race) s).issued := by
      cases hg : s.limiter.ask.1 with
      | false => simp [heard, hg, hc, History.issued]
      | true => simp [heard, hg, hc, History.issued, Nat.add_assoc]
    have hgo (t : Race) (ht : (race.answered p s.limiter.ask.1 : Step α).race? = some t) :
        (if s.limiter.ask.1 then c.launch now else c).Runs t := by
      rw [Race.answered_race ht]
      cases hg : s.limiter.ask.1 with
      | false => exact hr
      | true =>
        refine ⟨by simp [hr.issued], ?_⟩
        intro i
        simp [isPending_launch, hr.pending, hr.issued]
    rw [follow_asking]
    split
    · cases hstep : (race.answered p s.limiter.ask.1 : Step α) with
      | settled o =>
        rw [hstep] at hsound
        exact finish_stands hsound hlaunch
      | running t =>
        rw [hstep] at hsound hgo
        have ht := hgo t rfl
        exact .racing rfl hsound ⟨ht.issued, ht.pending⟩
      | asking t =>
        have hrounds : (race.answered p s.limiter.ask.1 : Step α).rounds = 0 := Race.goOn_rounds p _
        rw [hstep] at hrounds
        cases hrounds
    · refine finish_stands_of_undecided rfl (by simpa [heard] using hans) ?_ (by simpa [heard] using htally.undecided)
        hlaunch
      simpa [heard] using htally.rounds ▸ htally.rounds_le

/-- Every event that happens to a hedged call leaves it standing by its history. -/
theorem handle_stands {p : HedgePolicy} (hp : p.enabled = true) {c : Call σ α} {x : History α}
    (h : c.Stands p x) (now : Nat) (e : Event) (s : Shared σ) :
    (c.handle p now e s).1.Stands p (x ++ c.record p now e s) := by
  have hmove := move_handle p now e c s
  generalize c.record p now e s = y at hmove ⊢
  generalize c.handle p now e s = r at hmove ⊢
  -- An attempt that goes on, or whose end is to be seen, is waited for as before.
  have hstand {race : Race} {timer i : Nat} {standing : Standing σ α} {y : History α}
      (hph : c.phase = .racing race timer) (hi : c.IsRunning i) (hopen : standing.IsOpen)
      (hy : race.Stands p (x ++ y)) : (c.stand i standing).Stands p (x ++ y) := by
    obtain ⟨-, hr⟩ := h.race hph
    refine .racing hph hy ⟨by simpa using hr.issued, fun j => ?_⟩
    rw [isPending_stand_open hi.isPending hopen]
    exact hr.pending j
  cases hmove with
  | idle => simpa using h
  | started hph =>
    cases h with
    | upcoming phase attempts history =>
      subst history
      refine .racing rfl (by simpa using Race.stands_start p) ⟨?_, ?_⟩
      · simp [launch, attempts]
      · intro i
        have hnone : ¬c.IsPending i := fun hi => by simpa [attempts] using hi.lt
        change _ ↔ (c.launch now).IsPending i
        simp [isPending_launch, hnone, attempts]
    | racing phase _ _ => rw [phase] at hph; cases hph
    | ended phase _ => rw [phase] at hph; cases hph
  | continued hph hat _ => exact hstand hph ⟨_, _, _, hat⟩ trivial (by simpa using (h.race hph).1)
  | finished _ hph hat _ => exact hstand hph ⟨_, _, _, hat⟩ trivial ((h.race hph).1.finish _)
  | @observed race timer i time started outcome _ hph hat =>
    obtain ⟨hst, hr⟩ := h.race hph
    have hi : i ∈ race.pending := (hr.pending i).2 (isPending_of_unseen hat)
    have hissued : (c.stand i (.ofOutcome time outcome)).attempts.length = x.issued := by
      rw [length_stand, hr.issued, hst.tallies.issued]
    have hnodup : race.pending.Nodup := hst.tallies.nodup
    rw [← History.append_assoc, ← History.append_assoc]
    refine follow_stands (Race.finished_sound hst hi outcome now) (by simpa [History.issued] using hissued)
      ?_ timer s
    intro t ht
    obtain ⟨hpend, hnum⟩ := Race.finished_race ht
    refine ⟨by simpa [hnum] using hr.issued, ?_⟩
    intro j
    rw [hpend, hnodup.mem_erase_iff, isPending_stand_over (Standing.not_isOpen_ofOutcome _ _), hr.pending]
    exact and_comm
  | returned hoff _ _ _ => rw [hp] at hoff; cases hoff
  | @fired race timer _ hph =>
    obtain ⟨hst, hr⟩ := h.race hph
    rw [← History.append_assoc]
    refine follow_stands (Race.timerFired_sound hst now) ?_ ?_ timer s
    · simpa [History.issued] using hr.issued.trans hst.tallies.issued
    · intro t ht
      obtain ⟨hpend, hnum⟩ := Race.timerFired_race ht
      exact ⟨by rw [hnum, hr.issued], by simpa [hpend] using hr.pending⟩
  | dropped hph =>
    obtain ⟨hst, hr⟩ := h.race hph
    rw [History.append_empty]
    exact finish_stands_of_undecided rfl hst.answered hst.rounds_le hst.tallies.undecided
      (hr.issued.trans hst.tallies.issued)

structure Fresh (c : Call σ α) : Prop where
  phase : c.phase = .upcoming
  attempts : c.attempts = []

theorem Fresh.stands {c : Call σ α} (h : c.Fresh) (p : HedgePolicy) : c.Stands p {} :=
  .upcoming h.phase h.attempts rfl

end ObjectStorage.Hedging.Call
