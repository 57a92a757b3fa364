import ObjectStorage.Proofs.Hedging.Promptness

/-! # The pace of hedged calls

The timer of a racing call is set for one delay of the policy after its last round, whether or not the limiter
granted that. So the rounds of a punctual schedule follow one another within that delay, the attempts are issued
within as many delays as there are rounds, and a call whose attempts end in time ends in time itself.
-/
namespace ObjectStorage

variable {σ α : Type}

namespace Race
variable {p : HedgePolicy} {r : Race}

theorem finished_rounds_iff {i : Nat} {outcome : Except StorageError α} :
    (r.finished p i outcome).rounds = 1 ↔
      (∃ e, outcome = .error e ∧ e.errorClass = .transient) ∧ r.pending.erase i = [] ∧ r.rounds < p.upTo := by
  cases outcome with
  | ok a => simp [finished, Step.rounds]
  | error e =>
    by_cases he : e.errorClass = .transient
    · by_cases hask : r.pending.erase i = [] ∧ r.rounds < p.upTo
      · simp [finished, he, hask, Step.rounds]
      · have hstep : (r.finished p i (.error e) : Step α) =
            goOn p { r with pending := r.pending.erase i, lastFailure := some e } := by
          simp only [finished, he, ↓reduceIte, List.isEmpty_iff, Bool.and_eq_true, decide_eq_true_eq]
          exact if_neg hask
        rw [hstep, goOn_rounds]
        exact iff_of_false (by simp) fun h => hask h.2
    · simp [finished, he, Step.rounds]

theorem rounds_le_one (step : Step α) : step.rounds ≤ 1 := by
  cases step <;> simp [Step.rounds]

theorem rounds_of_asking {step : Step α} {race : Race} (h : step = .asking race) : step.rounds = 1 := by
  rw [h]
  rfl

theorem lt_of_timerFired {race : Race} (h : (r.timerFired p : Step α) = .asking race) : r.rounds < p.upTo := by
  by_contra hnone
  have hrounds := rounds_of_asking h
  rw [timerFired_of_le (Nat.not_lt.1 hnone), goOn_rounds] at hrounds
  cases hrounds

end Race

namespace Hedging
open Race (Step History)

namespace Call
variable {p : HedgePolicy} {start now timer : Nat} {times : List Nat} {c : Call σ α} {x : History α} {s : Shared σ}
  {e : Event}

def Racing (c : Call σ α) : Prop := ∃ race timer, c.phase = .racing race timer

/-- An attempt is seen to fail in a way that is transient, at the moment of its failure, and no other one is under
way. -/
def Strands (now : Nat) (e : Event) (c : Call σ α) : Prop :=
  ∃ i started err, e = .observe i ∧ c.attempts[i]? = some ⟨started, .unseen now (.error err)⟩ ∧
    err.errorClass = .transient ∧ ∀ j, c.IsPending j → j = i

/-- A call that started at some time and used its rounds at others goes by its timer, and issued its attempts no
later than the rounds allow. -/
structure Paced (p : HedgePolicy) (start : Nat) (times : List Nat) (c : Call σ α) : Prop where
  start_eq : c.start = start
  upcoming : c.phase = .upcoming → times = [] ∧ c.attempts = []
  timer_eq : ∀ race timer, c.phase = .racing race timer → timer = times.getLastD start + p.after.ticks
  times_le : ∀ n t, times[n]? = some t → t ≤ start + (n + 1) * p.after.ticks
  started_le : ∀ a ∈ c.attempts, a.started ≤ start + times.length * p.after.ticks

theorem Paced.last_le (h : c.Paced p start times) : times.getLastD start ≤ start + times.length * p.after.ticks := by
  rcases List.eq_nil_or_concat times with rfl | ⟨before, t, rfl⟩
  · simp
  · have ht := h.times_le before.length t (by simp)
    simpa using ht

theorem Fresh.paced (h : c.Fresh) (p : HedgePolicy) : c.Paced p c.start [] where
  start_eq := rfl
  upcoming _ := ⟨rfl, h.attempts⟩
  timer_eq race timer hph := by
    rw [h.phase] at hph
    cases hph
  times_le n t ht := by simp at ht
  started_le a ha := by simp [h.attempts] at ha

theorem Paced.finish (h : c.Paced p start times) (now : Nat) (closing : Closing α) :
    (c.finish now closing).Paced p start times where
  start_eq := h.start_eq
  upcoming hph := by cases hph
  timer_eq race timer hph := by cases hph
  times_le := h.times_le
  started_le a ha := by
    obtain ⟨b, hb, rfl⟩ := List.mem_map.1 ha
    have hstarted : b.abort.started = b.started := by
      unfold Attempt.abort
      split <;> rfl
    rw [hstarted]
    exact h.started_le b hb

theorem Paced.stand (h : c.Paced p start times) (i : Nat) (standing : Standing σ α) :
    (c.stand i standing).Paced p start times where
  start_eq := h.start_eq
  upcoming hph := by
    obtain ⟨htimes, hattempts⟩ := h.upcoming hph
    exact ⟨htimes, by simp [Call.stand, hattempts]⟩
  timer_eq := h.timer_eq
  times_le := h.times_le
  started_le a ha := by
    obtain ⟨j, hj⟩ := List.getElem?_of_mem ha
    by_cases hij : i = j
    · subst hij
      simp only [Call.stand, List.getElem?_modify_eq, Option.map_eq_map, Option.map_eq_some_iff] at hj
      obtain ⟨b, hb, rfl⟩ := hj
      exact h.started_le b (List.mem_of_getElem? hb)
    · rw [Call.stand, List.getElem?_modify_ne _ _ hij] at hj
      exact h.started_le a (List.mem_of_getElem? hj)

theorem Paced.race (h : c.Paced p start times) (htimer : timer = times.getLastD start + p.after.ticks) (race : Race) :
    Paced p start times { c with phase := .racing race timer } where
  start_eq := h.start_eq
  upcoming hph := by cases hph
  timer_eq := by
    rintro _ _ ⟨⟩
    exact htimer
  times_le := h.times_le
  started_le := h.started_le

theorem Paced.begin (h : c.Paced p start times) (hph : c.phase = .upcoming) :
    Paced p start times { c.launch start with phase := .racing {} (start + p.after.ticks) } := by
  obtain ⟨rfl, hattempts⟩ := h.upcoming hph
  refine ⟨h.start_eq, by simp, ?_, by simp, ?_⟩
  · rintro _ _ ⟨⟩
    rfl
  · intro a ha
    obtain rfl : a = ⟨start, .running start (c.attempt 0)⟩ := by simpa [launch, hattempts] using ha
    exact Nat.le_add_right _ _

theorem Paced.ask (h : c.Paced p start times) (hnow : now ≤ times.getLastD start + p.after.ticks) (granted : Bool)
    (race : Race) :
    Paced p start (times ++ [now])
      { (if granted then c.launch now else c) with phase := .racing race (now + p.after.ticks) } where
  start_eq := by
    cases granted with
    | false => exact h.start_eq
    | true => exact h.start_eq
  upcoming hph := by cases hph
  timer_eq := by
    rintro _ _ ⟨⟩
    simp
  times_le n t ht := by
    have hlast := h.last_le
    rcases Nat.lt_trichotomy n times.length with hlt | rfl | hgt
    · rw [List.getElem?_append_left hlt] at ht
      exact h.times_le n t ht
    · obtain rfl : now = t := by simpa using ht
      rw [Nat.add_mul]
      omega
    · rw [List.getElem?_eq_none (by simp; omega)] at ht
      cases ht
  started_le a ha := by
    have hlast := h.last_le
    rw [List.length_append, List.length_singleton, Nat.add_mul]
    have hold (ha : a ∈ c.attempts) : a.started ≤ start + (times.length * p.after.ticks + 1 * p.after.ticks) := by
      have hstarted := h.started_le a ha
      omega
    cases granted with
    | false => exact hold ha
    | true =>
      rcases List.mem_append.1 ha with ha | ha
      · exact hold ha
      · rw [List.mem_singleton.1 ha]
        change now ≤ _
        omega

theorem Paced.follow (h : c.Paced p start times) (htimer : timer = times.getLastD start + p.after.ticks)
    (step : Step α) (hnow : ∀ race, step = .asking race → now ≤ timer) (s : Shared σ) :
    (c.follow p now timer step s).1.Paced p start (times ++ List.replicate step.rounds now) := by
  cases step with
  | settled outcome =>
    rw [show List.replicate (Step.settled outcome).rounds now = [] from rfl, List.append_nil]
    exact h.finish now (.returned outcome)
  | running race =>
    rw [show List.replicate (Step.running race : Step α).rounds now = [] from rfl, List.append_nil]
    exact h.race htimer race
  | asking race =>
    have hask := fun t => h.ask (htimer ▸ hnow race rfl) s.limiter.ask.1 t
    rw [follow_asking]
    split
    · cases race.answered (α := α) p s.limiter.ask.1 with
      | settled outcome => exact (hask race).finish now (.returned outcome)
      | running t => exact hask t
      | asking t => exact hask t
    · exact (hask race).finish now .broken

theorem heard_rounds (step : Step α) (s : Shared σ) : (heard step s).rounds = 0 := by
  cases step <;> rfl

/-- The pace is kept by each event that is due when nothing else of the call was due before. -/
theorem Paced.handle (h : c.Paced p start times) (hp : p.enabled = true) (hdue : c.DueAt p now e)
    (hfirst : ∀ t e', c.DueAt p t e' → now ≤ t) (s : Shared σ) :
    (c.handle p now e s).1.Paced p start (times ++ List.replicate (c.record p now e s).rounds now) := by
  have htimer {race : Race} {timer : Nat} (hph : c.phase = .racing race timer) (hmore : race.rounds < p.upTo) :
      now ≤ timer := hfirst timer .timer ⟨hp, race, hph, hmore⟩
  have hmove := move_handle p now e c s
  generalize c.record p now e s = y at hmove ⊢
  generalize c.handle p now e s = r at hmove ⊢
  cases hmove with
  | idle => simpa using h
  | started hph =>
    obtain rfl : now = start := (eq_start_of_dueAt hph hdue).2.trans h.start_eq
    simpa using h.begin hph
  | continued _ _ _ | finished _ _ _ _ => simpa using h.stand _ _
  | @observed race timer i time started outcome _ hph hat =>
    have hnow (t : Race) (ht : race.finished p i outcome = .asking t) : now ≤ timer :=
      htimer hph (Race.finished_rounds_iff.1 (Race.rounds_of_asking ht)).2.2
    simpa [heard_rounds] using (h.stand i (.ofOutcome time outcome)).follow (h.timer_eq race timer hph) _ hnow _
  | returned _ _ _ _ => simpa using (h.stand _ _).finish now _
  | @fired race timer _ hph =>
    have hnow (t : Race) (ht : (race.timerFired p : Step α) = .asking t) : now ≤ timer :=
      htimer hph (Race.lt_of_timerFired ht)
    simpa [heard_rounds] using h.follow (h.timer_eq race timer hph) _ hnow s
  | dropped _ => simpa using h.finish now .dropped

/-! ## Rounds and their causes -/

theorem record_rounds (p : HedgePolicy) (now : Nat) (e : Event) (c : Call σ α) (s : Shared σ) :
    (c.record p now e s).rounds = ((c.verdict? p e).map Step.rounds).getD 0 := rfl

theorem strands_iff {i started : Nat} {outcome : Except StorageError α}
    (hat : c.attempts[i]? = some ⟨started, .unseen now outcome⟩) :
    c.Strands now (.observe i) ↔
      (∃ err, outcome = .error err ∧ err.errorClass = .transient) ∧ ∀ j, c.IsPending j → j = i := by
  constructor
  · rintro ⟨j, started', err, ⟨⟩, hfails, htransient, honly⟩
    cases hat.symm.trans hfails
    exact ⟨⟨err, rfl, htransient⟩, honly⟩
  · rintro ⟨⟨err, rfl, htransient⟩, honly⟩
    exact ⟨i, started, err, rfl, hat, htransient, honly⟩

theorem erase_eq_nil_iff {race : Race} (hrace : race.Stands p x) (hruns : c.Runs race) {i : Nat} :
    race.pending.erase i = [] ↔ ∀ j, c.IsPending j → j = i := by
  simp only [List.eq_nil_iff_forall_not_mem, hrace.tallies.nodup.mem_erase_iff, hruns.pending, not_and]
  constructor
  · intro hnone j hj
    by_contra hne
    exact hnone j hne hj
  · intro honly j hne hj
    exact hne (honly j hj)

/-- A round is used by a timer that is due, and by a failure that strands the call while a round is left. -/
theorem record_rounds_iff (hp : p.enabled = true) (h : c.Stands p x) (hdue : c.DueAt p now e) (s : Shared σ) :
    (c.record p now e s).rounds = 1 ↔ c.Racing ∧ x.rounds < p.upTo ∧ (e = .timer ∨ c.Strands now e) := by
  have hnone (hne : ∀ i, e ≠ .observe i) : ¬c.Strands now e := by
    rintro ⟨i, started, err, he, -⟩
    exact hne i he
  rw [record_rounds]
  cases e with
  | start | drop | advance => simp [verdict?, hnone (by simp)]
  | timer =>
    obtain ⟨-, race, hph, hmore⟩ := hdue
    obtain ⟨hrace, -⟩ := h.race hph
    have hstep : (race.timerFired p : Step α).rounds = 1 := by rw [Race.timerFired_of_lt hmore]; rfl
    have hused : x.rounds < p.upTo := hrace.tallies.rounds ▸ hmore
    simp [verdict?, hph, hp, hstep, hused, Racing]
  | observe i =>
    obtain ⟨-, ⟨race, timer, hph⟩, started, outcome, hat⟩ := hdue
    obtain ⟨hrace, hruns⟩ := h.race hph
    have hracing : c.Racing := ⟨race, timer, hph⟩
    have hsight : c.sight? (.observe i) = some (i, outcome) := by simp [sight?, hph, hat]
    simp only [verdict?, hph, hp, ↓reduceIte, hsight, Option.map_some, Option.getD_some, Race.finished_rounds_iff,
      erase_eq_nil_iff hrace hruns, hrace.tallies.rounds, strands_iff hat, hracing, true_and, reduceCtorEq, false_or]
    constructor
    · rintro ⟨hfailed, honly, hmore⟩
      exact ⟨hmore, hfailed, honly⟩
    · rintro ⟨hmore, hfailed, honly⟩
      exact ⟨hfailed, honly, hmore⟩

theorem record_rounds_le_one (p : HedgePolicy) (now : Nat) (e : Event) (c : Call σ α) (s : Shared σ) :
    (c.record p now e s).rounds ≤ 1 := by
  rw [record_rounds]
  cases c.verdict? p e with
  | none => exact Nat.zero_le _
  | some step => exact Race.rounds_le_one step

/-- What an event is to the rounds of a call, which are at certain times before it and at others with it. -/
structure Beat (p : HedgePolicy) (start : Nat) (times : List Nat) (c : Call σ α) (now : Nat) (own : Prop) (e : Event)
    (later : List Nat) : Prop where
  in_time : c.Racing → times.length < p.upTo → now ≤ times.getLastD start + p.after.ticks
  once : later = times ∨ later = times ++ [now]
  /-- The call uses a round exactly if it races and has rounds left, and its timer fires or a failure strands it. -/
  cause : later = times ++ [now] ↔ own ∧ c.Racing ∧ times.length < p.upTo ∧ (e = .timer ∨ c.Strands now e)
  on_time : own → e = .timer → now = times.getLastD start + p.after.ticks

/-- A call that is not over has something due before all delays are over and the last attempt has ended. -/
theorem Paced.exists_dueAt {within : Nat} (h : c.Paced p start times) (hp : p.enabled = true) (hstands : c.Stands p x)
    (hrounds : x.rounds = times.length) (hprompt : c.Prompt within)
    (hover : ∀ time closing, c.phase ≠ .ended time closing) :
    ∃ t e, c.DueAt p t e ∧ t ≤ start + p.upTo * p.after.ticks + within := by
  cases hph : c.phase with
  | upcoming => exact ⟨c.start, .start, ⟨hph, rfl⟩, by rw [h.start_eq]; omega⟩
  | ended time closing => exact absurd hph (hover time closing)
  | racing race timer =>
    obtain ⟨hrace, hruns⟩ := hstands.race hph
    have hused : race.rounds = times.length := hrace.tallies.rounds.trans hrounds
    cases hpending : race.pending with
    | nil =>
      have hmore := hrace.lively hpending
      have hdelays : (times.length + 1) * p.after.ticks ≤ p.upTo * p.after.ticks :=
        Nat.mul_le_mul_right _ (hused ▸ hmore)
      have hlast := h.last_le
      have htimer := h.timer_eq race timer hph
      rw [Nat.add_mul] at hdelays
      exact ⟨timer, .timer, ⟨hp, race, hph, hmore⟩, by omega⟩
    | cons i pending =>
      have hi : c.IsPending i := (hruns.pending i).1 (by simp [hpending])
      have hdelays : times.length * p.after.ticks ≤ p.upTo * p.after.ticks :=
        Nat.mul_le_mul_right _ (hused ▸ hrace.tallies.rounds_le)
      have hintime {a : Attempt σ α} (hat : c.attempts[i]? = some a) {due : Nat} (hdue : due ∈ a.due?) :
          due ≤ start + p.upTo * p.after.ticks + within := by
        have hstarted := h.started_le a (List.mem_of_getElem? hat)
        have hprompt := hprompt a (List.mem_of_getElem? hat) due hdue
        omega
      rcases hi.cases with ⟨started, due, rest, hat⟩ | ⟨started, time, outcome, hat⟩
      · exact ⟨due, .advance i, ⟨⟨race, timer, hph⟩, started, rest, hat⟩, hintime hat rfl⟩
      · exact ⟨time, .observe i, ⟨hp, ⟨race, timer, hph⟩, started, outcome, hat⟩, hintime hat rfl⟩

theorem ended_of_handle {time : Nat} {closing : Closing α}
    (h : (c.handle p now e s).1.phase = .ended time closing) : c.phase = .ended time closing ∨ time = now := by
  have hfollow (timer : Nat) (step : Step α) (d : Call σ α) (s : Shared σ)
      (h : (d.follow p now timer step s).1.phase = .ended time closing) : time = now := by
    obtain ⟨d, -, ⟨how, heq, -⟩ | ⟨race, timer', heq⟩⟩ := follow_cases p now timer step d s
    · rw [heq] at h
      cases h
      rfl
    · rw [heq] at h
      cases h
  have hmove := move_handle p now e c s
  generalize c.record p now e s = y at hmove
  generalize c.handle p now e s = r at hmove h
  cases hmove with
  | idle => exact .inl h
  | started _ => cases h
  | continued _ _ _ | finished _ _ _ _ => exact .inl h
  | observed _ _ _ => exact .inr (hfollow _ _ _ _ h)
  | returned _ _ _ _ =>
    cases h
    exact .inr rfl
  | fired _ _ => exact .inr (hfollow _ _ _ _ h)
  | dropped _ =>
    cases h
    exact .inr rfl

end Call

namespace Hall
variable {h : Hall σ α} {k : Nat} {c : Call σ α}

/-- The times at which a call used its rounds. -/
def rounds (k : Nat) : List (Nat × Nat × Event) → Hall σ α → List Nat
  | [], _ => []
  | (now, i, e) :: es, h => List.replicate (h.record k now i e).rounds now ++ rounds k es (h.handle now i e)

theorem rounds_append (k : Nat) (es more : List (Nat × Nat × Event)) (h : Hall σ α) :
    h.rounds k (es ++ more) = h.rounds k es ++ (h.play es).rounds k more := by
  induction es generalizing h with
  | nil => rfl
  | cons ev es ih =>
    obtain ⟨now, i, e⟩ := ev
    rw [List.cons_append, rounds, rounds, ih, play_cons, List.append_assoc]

theorem length_rounds (k : Nat) (es : List (Nat × Nat × Event)) (h : Hall σ α) :
    (h.rounds k es).length = (h.history k es).rounds := by
  induction es generalizing h with
  | nil => rfl
  | cons ev es ih =>
    obtain ⟨now, i, e⟩ := ev
    rw [rounds, List.length_append, List.length_replicate, ih]
    rfl

/-- What holds of a call and the times of its rounds is kept by a punctual schedule, if each event that is due keeps
it. -/
theorem punctual_induction {P : Call σ α → List Nat → Prop} {p : HedgePolicy} {horizon : Option Nat}
    (step : ∀ c times now e s, s.horizon = horizon → P c times → c.DueAt p now e →
      (∀ t e', c.DueAt p t e' → now ≤ t) →
      P (c.handle p now e s).1 (times ++ List.replicate (c.record p now e s).rounds now))
    (hp : h.policy = p) (hhorizon : h.shared.horizon = horizon) (hc : h.calls[k]? = some c) (times : List Nat)
    (hkept : P c times) {es : List (Nat × Nat × Event)} (hes : Punctual es h) :
    ∃ d, (h.play es).calls[k]? = some d ∧ P d (times ++ h.rounds k es) := by
  induction es generalizing h c times with
  | nil => exact ⟨c, hc, by simpa [rounds] using hkept⟩
  | cons ev es ih =>
    obtain ⟨now, i, e⟩ := ev
    obtain ⟨⟨d, hd, hdue⟩, hfirst, hrest⟩ := hes
    have hnext := getElem?_handle h now i e k
    rw [play_cons, rounds, ← List.append_assoc]
    subst hp
    by_cases hik : i = k
    · subst hik
      cases hc.symm.trans hd
      rw [if_pos rfl, hc] at hnext
      rw [record_self hc]
      have hstep := step c times now e h.shared hhorizon hkept hdue (hfirst c (List.mem_of_getElem? hc))
      exact ih (handle_policy h now i e) (by rwa [handle_horizon]) hnext _ hstep hrest
    · rw [if_neg hik, hc] at hnext
      rw [record_of_ne hik]
      exact ih (handle_policy h now i e) (by rwa [handle_horizon]) hnext _ (by simpa using hkept) hrest

theorem play_pace (hp : h.policy.enabled = true) (hc : h.calls[k]? = some c) (hfresh : c.Fresh)
    {es : List (Nat × Nat × Event)} (hes : Punctual es h) :
    ∃ d, (h.play es).calls[k]? = some d ∧ d.Paced h.policy c.start (h.rounds k es) ∧
      ∃ x, d.Stands h.policy x ∧ x.rounds = (h.rounds k es).length := by
  obtain ⟨d, hd, hpaced⟩ := punctual_induction (P := fun d times => d.Paced h.policy c.start times)
    (fun d times now e s _ hd hdue hfirst => hd.handle hp hdue hfirst s) rfl rfl hc [] (hfresh.paced h.policy) hes
  obtain ⟨d', hd', hstands⟩ := play_stands hp hc hfresh es
  cases hd.symm.trans hd'
  exact ⟨d, hd, by simpa using hpaced, _, hstands, (length_rounds k es h).symm⟩

/-- A call whose attempts are prompt is over when all delays are over and the last attempt has ended, or something
is due until then. -/
theorem play_prompt (hp : h.policy.enabled = true) (hc : h.calls[k]? = some c) (hfresh : c.Fresh) {within : Nat}
    {es : List (Nat × Nat × Event)} (hes : Punctual es h) (hprompt : Prompt within k es h) :
    ∃ d, (h.play es).calls[k]? = some d ∧
      ∀ time closing, d.phase = .ended time closing →
        time ≤ c.start + h.policy.upTo * h.policy.after.ticks + within := by
  induction es using List.reverseRecOn with
  | nil =>
    refine ⟨c, hc, fun time closing hph => ?_⟩
    rw [hfresh.phase] at hph
    cases hph
  | append_singleton es ev ih =>
    obtain ⟨now, i, e⟩ := ev
    obtain ⟨hes, hev⟩ := punctual_append.1 hes
    obtain ⟨hbefore, -⟩ := prompt_append hprompt
    obtain ⟨d, hd, hintime⟩ := ih hes hbefore
    obtain ⟨d', hd', hpaced, x, hstands, hrounds⟩ := play_pace hp hc hfresh hes
    cases hd.symm.trans hd'
    have hnext := getElem?_handle (h.play es) now i e k
    have hplay : h.play (es ++ [(now, i, e)]) = (h.play es).handle now i e := by
      rw [play_append, play_cons]
      rfl
    rw [hplay, hnext, hd]
    by_cases hik : i = k
    · refine ⟨_, by rw [if_pos hik]; rfl, fun time closing hph => ?_⟩
      rcases Call.ended_of_handle hph with hover | rfl
      · exact hintime time closing hover
      by_cases hover : ∃ time closing, d.phase = .ended time closing
      · -- what is over stays so
        obtain ⟨time', closing', hover⟩ := hover
        have hsame := (Call.handle_of_ended hover (h.play es).policy time e (h.play es).shared).1
        exact hintime time closing ((congrArg (fun x => x.1.phase) hsame).symm.trans hph)
      · push Not at hover
        obtain ⟨t, e', hdue, hle⟩ := hpaced.exists_dueAt hp hstands hrounds (hbefore.last hd) hover
        have hpolicy : (h.play es).policy = h.policy := play_policy h es
        exact (hev.2.1 d (List.mem_of_getElem? hd) t e' (hpolicy ▸ hdue)).trans hle
    · exact ⟨d, by rw [if_neg hik], hintime⟩

theorem beat_of_punctual (hp : h.policy.enabled = true) (hc : h.calls[k]? = some c) (hfresh : c.Fresh)
    {es : List (Nat × Nat × Event)} {now i : Nat} {e : Event} (hes : Punctual (es ++ [(now, i, e)]) h) :
    ∃ d, (h.play es).calls[k]? = some d ∧
      d.Beat h.policy c.start (h.rounds k es) now (i = k) e (h.rounds k (es ++ [(now, i, e)])) := by
  obtain ⟨hes, ⟨own, hown, hdue⟩, hfirst, -⟩ := punctual_append.1 hes
  obtain ⟨d, hd, hpaced, x, hstands, hrounds⟩ := play_pace hp hc hfresh hes
  have hpolicy : (h.play es).policy = h.policy := play_policy h es
  rw [hpolicy] at hdue hfirst
  have hlater : h.rounds k (es ++ [(now, i, e)]) =
      h.rounds k es ++ List.replicate ((h.play es).record k now i e).rounds now := by
    rw [rounds_append, rounds, rounds, List.append_nil]
  -- Only an event of the call itself uses a round, and no more than one.
  have hasks : ((h.play es).record k now i e).rounds ≤ 1 ∧ (((h.play es).record k now i e).rounds = 1 ↔
      i = k ∧ d.Racing ∧ (h.rounds k es).length < h.policy.upTo ∧ (e = .timer ∨ d.Strands now e)) := by
    by_cases hik : i = k
    · subst hik
      cases hd.symm.trans hown
      rw [record_self hd, hpolicy, ← hrounds]
      exact ⟨Call.record_rounds_le_one _ _ _ _ _, by simpa using Call.record_rounds_iff hp hstands hdue _⟩
    · simp [record_of_ne hik, hik]
  refine ⟨d, hd, ?_, ?_, ?_, ?_⟩
  · rintro ⟨race, timer, hph⟩ hmore
    have hused : race.rounds = x.rounds := (hstands.race hph).1.tallies.rounds
    rw [← hpaced.timer_eq race timer hph]
    exact hfirst d (List.mem_of_getElem? hd) timer .timer ⟨hp, race, hph, by omega⟩
  · rw [hlater]
    rcases Nat.le_one_iff_eq_zero_or_eq_one.1 hasks.1 with hnone | hone
    · exact .inl (by rw [hnone, List.replicate_zero, List.append_nil])
    · exact .inr (by rw [hone, List.replicate_one])
  · rw [hlater, List.append_cancel_left_eq, ← hasks.2]
    refine ⟨fun heq => by simpa using congrArg List.length heq, fun hone => by rw [hone, List.replicate_one]⟩
  · rintro hik rfl
    subst hik
    cases hd.symm.trans hown
    obtain ⟨-, race, hph, -⟩ := hdue
    exact hpaced.timer_eq race now hph

theorem play_attended (hc : h.calls[k]? = some c) (hfresh : c.Fresh) (hpatience : c.patience = none)
    {es : List (Nat × Nat × Event)} (hes : Punctual es h) :
    ∃ d, (h.play es).calls[k]? = some d ∧ d.Attended h.policy h.shared := by
  have hstep (d : Call σ α) (now : Nat) (e : Event) (s : Shared σ) (hs : s.horizon = h.shared.horizon)
      (hd : d.patience = none ∧ d.Attended h.policy h.shared) (hdue : d.DueAt h.policy now e) :
      (d.handle h.policy now e s).1.patience = none ∧ (d.handle h.policy now e s).1.Attended h.policy h.shared := by
    have hdrop : e ≠ .drop := by
      rintro rfl
      obtain ⟨-, patience, hsome, -⟩ := hdue
      rw [hd.1] at hsome
      cases hsome
    exact ⟨by rw [Call.handle_patience, hd.1], ((hd.2.congr hs).handle hdrop now).congr hs.symm⟩
  obtain ⟨d, hd, -, hattended⟩ := punctual_induction
    (P := fun d _ => d.patience = none ∧ d.Attended h.policy h.shared)
    (fun d times now e s hs hd hdue _ => hstep d now e s hs hd hdue) rfl rfl hc [] ⟨hpatience, hfresh.attended⟩ hes
  exact ⟨d, hd, hattended⟩

theorem over_of_next?_eq_none (hc : h.calls[k]? = some c) (hfresh : c.Fresh) {es : List (Nat × Nat × Event)}
    (hes : Punctual es h) (hstops : (h.play es).next? = none) :
    ∃ d time outcome, (h.play es).calls[k]? = some d ∧ d.result? = some (time, outcome) ∧
      (c.patience = none → outcome = none → h.shared.horizon ≠ none ∧ d.Broke h.policy h.shared time) := by
  obtain ⟨d, hd, hlively⟩ := play_induction (P := fun d _ => d.Lively h.policy) (x := {})
    (fun d _ now e s hd => hd.handle now e s) hc (hfresh.lively h.policy) es
  have hnone := next?_eq_none.1 hstops d (List.mem_of_getElem? hd)
  rw [play_policy] at hnone
  obtain ⟨time, closing, hover⟩ : ∃ time closing, d.phase = .ended time closing := by
    by_contra hnever
    push Not at hnever
    obtain ⟨e, he⟩ := hlively.exists_due hnever
    exact Call.next?_ne_none he hnone
  refine ⟨d, time, _, hd, Call.result?_eq_some.2 ⟨closing, hover, rfl⟩, fun hpatience hnothing => ?_⟩
  obtain ⟨d', hd', hattended⟩ := play_attended hc hfresh hpatience hes
  cases hd.symm.trans hd'
  rcases hattended time closing hover with ⟨o, rfl⟩ | hbroke
  · cases hnothing
  · exact ⟨hbroke.horizon_ne_none, hbroke⟩

/-- The timing of a hedged call in a hall of any calls. It has no more rounds than the policy, each within as many
delays of the start. If its attempts are prompt, it is over when all delays and the time of one attempt have passed.
The clock comes to its end, and the call has returned then unless it broke down. -/
theorem hedge_timing (hp : h.policy.enabled = true) (hc : h.calls[k]? = some c) (hfresh : c.Fresh) :
    (∀ es, Punctual es h → (h.rounds k es).length ≤ h.policy.upTo ∧
      ∀ n t, (h.rounds k es)[n]? = some t → t ≤ c.start + (n + 1) * h.policy.after.ticks) ∧
    (∀ es now i e, Punctual (es ++ [(now, i, e)]) h → ∃ d, (h.play es).calls[k]? = some d ∧
      d.Beat h.policy c.start (h.rounds k es) now (i = k) e (h.rounds k (es ++ [(now, i, e)]))) ∧
    (∀ within es, Punctual es h → Prompt within k es h → ∃ d, (h.play es).calls[k]? = some d ∧
      (∀ time outcome, d.result? = some (time, outcome) →
        time ≤ c.start + h.policy.upTo * h.policy.after.ticks + within) ∧
      (d.result? = none → ∃ t e, d.DueAt h.policy t e ∧
        t ≤ c.start + h.policy.upTo * h.policy.after.ticks + within)) ∧
    (∀ es, Punctual es h → (h.play es).next? = none →
      ∃ d time outcome, (h.play es).calls[k]? = some d ∧ d.result? = some (time, outcome) ∧
        (c.patience = none → outcome = none → h.shared.horizon ≠ none ∧ d.Broke h.policy h.shared time)) ∧
    (∃ N, ∀ fuel ≥ N, ∃ es, Punctual es h ∧ Hall.run fuel h = h.play es ∧ (h.play es).next? = none) ∧
    ∀ f, ∃ n, ¬Punctual ((List.range n).map f) h := by
  refine ⟨fun es hes => ?_, fun es now i e hes => beat_of_punctual hp hc hfresh hes, fun within es hes hprompt => ?_,
    fun es hes hstops => over_of_next?_eq_none hc hfresh hes hstops, ?_, exists_not_punctual h⟩
  · obtain ⟨d, -, hpaced, x, hstands, hrounds⟩ := play_pace hp hc hfresh hes
    exact ⟨hrounds ▸ hstands.keepsBudget.rounds_le, hpaced.times_le⟩
  · obtain ⟨d, hd, hpaced, x, hstands, hrounds⟩ := play_pace hp hc hfresh hes
    obtain ⟨d', hd', hintime⟩ := play_prompt hp hc hfresh hes hprompt
    cases hd.symm.trans hd'
    refine ⟨d, hd, fun time outcome hr => ?_, fun hr => ?_⟩
    · obtain ⟨closing, hover, -⟩ := Call.result?_eq_some.1 hr
      exact hintime time closing hover
    · refine hpaced.exists_dueAt hp hstands hrounds (hprompt.last hd) fun time closing hover => ?_
      rw [Call.result?_eq_some.2 ⟨closing, hover, rfl⟩] at hr
      cases hr
  · obtain ⟨N, hN⟩ := run_stops h
    refine ⟨N, fun fuel hfuel => ?_⟩
    obtain ⟨es, hes, hrun⟩ := exists_timely fuel h
    exact ⟨es, hes.punctual, hrun, hrun ▸ hN fuel hfuel⟩

end Hall

def strandedCall : Call Unit Nat where
  start := 0
  attempt n := if n = 0 then .wait (.ofMillis 15) (.done (.error (.timeout "slow"))) else .done (.ok n)

/-- The first hedge is denied, so that nothing is under way when the first attempt fails. -/
def stranded : Hall Unit Nat where
  policy := { after := .ofMillis 10, upTo := 2 }
  calls := [strandedCall]
  shared := { world := { store := () }, limiter := .scripted [false, true] }

def strandedSchedule : List (Nat × Nat × Event) :=
  [(0, 0, .start), (0, 0, .advance 0), (10, 0, .timer), (15, 0, .advance 0), (15, 0, .observe 0), (15, 0, .advance 1),
    (15, 0, .observe 1)]

theorem lasts_strandedCall (n : Nat) : (strandedCall.attempt n).Lasts 15 := by
  cases n with
  | zero => exact ⟨by decide, trivial⟩
  | succ n => exact trivial

theorem stranded_timing : stranded.policy.enabled = true ∧ strandedCall.Fresh ∧
    Hall.Punctual strandedSchedule stranded ∧ Hall.Prompt 15 0 strandedSchedule stranded ∧
    stranded.rounds 0 strandedSchedule = [10, 15] ∧ (∀ t ∈ stranded.rounds 0 strandedSchedule, t ≤ 20) ∧
    ∃ d time, (stranded.play strandedSchedule).calls[0]? = some d ∧ d.result? = some (time, some (.ok 1)) ∧
      time ≤ 35 := by
  have hp : stranded.policy.enabled = true := rfl
  have hfresh : strandedCall.Fresh := ⟨rfl, rfl⟩
  have htimely : Hall.Timely strandedSchedule stranded := ⟨rfl, rfl, rfl, rfl, rfl, rfl, rfl, trivial⟩
  have hcall : stranded.calls[0]? = some strandedCall := rfl
  have hprompt := Hall.prompt_of_lasting hcall (hfresh.lasting lasts_strandedCall) htimely.punctual
  have htimes : stranded.rounds 0 strandedSchedule = [10, 15] := rfl
  obtain ⟨hrounds, -, hends, -⟩ := Hall.hedge_timing hp hcall hfresh
  obtain ⟨hcount, hle⟩ := hrounds strandedSchedule htimely.punctual
  obtain ⟨d, hd, hintime, -⟩ := hends 15 strandedSchedule htimely.punctual hprompt
  have hresult : (stranded.play strandedSchedule).calls[0]?.bind Call.result? = some (15, some (.ok 1)) := rfl
  rw [hd] at hresult
  refine ⟨hp, hfresh, htimely.punctual, hprompt, htimes, ?_, d, 15, hd, hresult, hintime _ _ hresult⟩
  intro t ht
  obtain ⟨n, hn⟩ := List.getElem?_of_mem ht
  have hlast : n + 1 ≤ 2 := Nat.le_trans (List.getElem?_eq_some_iff.1 hn).1 hcount
  calc t ≤ 0 + (n + 1) * 10 := hle n t hn
    _ ≤ 20 := by omega

end Hedging
end ObjectStorage
