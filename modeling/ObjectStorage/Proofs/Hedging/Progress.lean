import ObjectStorage.Proofs.Hedging.Clock
import ObjectStorage.Proofs.Hedging.Outcomes
import Mathlib.Logic.Hydra

/-! # Calls come to an end

With each event that a call goes on by, less is left of it: first come the rounds that it may still use, then what
its attempts still have before them, their ends being seen included. So a schedule that never ends and is fair to a
call ends it, and so does the clock.
-/
namespace ObjectStorage

variable {σ α : Type}

namespace Timed

def Awaits (next t : Timed σ α) : Prop := ∃ s d, (t.advance s).1 = .waiting d next

/-- No work goes on for ever, whatever the world is between its steps. -/
theorem wellFounded_awaits : WellFounded (Awaits : Timed σ α → Timed σ α → Prop) := by
  refine ⟨fun t => ?_⟩
  induction t with
  | done a =>
    refine ⟨_, ?_⟩
    rintro next ⟨s, d, hwaits⟩
    cases hwaits
  | act change next ih =>
    refine ⟨_, ?_⟩
    rintro _ ⟨s, d, ⟨⟩⟩
    exact ih s
  | wait d next ih =>
    refine ⟨_, ?_⟩
    rintro _ ⟨s, d', ⟨⟩⟩
    exact ih

end Timed

namespace Race
variable {p : HedgePolicy} {r t : Race}

theorem finished_rounds {i : Nat} {outcome : Except StorageError α} (h : (r.finished p i outcome).race? = some t) :
    t.rounds = r.rounds + (r.finished p i outcome).rounds ∧
      ((r.finished p i outcome).rounds ≠ 0 → r.rounds < p.upTo) := by
  cases outcome with
  | ok a => cases h
  | error e =>
    simp only [finished] at h ⊢
    split at h
    · rename_i he
      rw [if_pos he]
      split at h
      · rename_i hask
        rw [if_pos hask]
        cases h
        simp only [Bool.and_eq_true, decide_eq_true_eq] at hask
        exact ⟨rfl, fun _ => hask.2⟩
      · rename_i hask
        rw [if_neg hask, goOn_rounds, goOn_race h]
        exact ⟨rfl, fun hne => absurd rfl hne⟩
    · cases h

theorem timerFired_of_lt (h : r.rounds < p.upTo) :
    (r.timerFired p : Step α) = .asking { r with rounds := r.rounds + 1 } := by
  simp [timerFired, h]

theorem timerFired_of_le (h : p.upTo ≤ r.rounds) : (r.timerFired p : Step α) = goOn p r := by
  simp [timerFired, Nat.not_lt.2 h]

end Race

namespace Hedging
open Race (Step History)

namespace Standing

/-- What an attempt still has before it, if it is not over. -/
def open? : Standing σ α → Option (Standing σ α)
  | .running due rest => some (.running due rest)
  | .unseen time outcome => some (.unseen time outcome)
  | _ => none

theorem open?_ofOutcome (time : Nat) (outcome : Except StorageError α) :
    (ofOutcome time outcome : Standing σ α).open? = none := by
  unfold ofOutcome
  split <;> rfl

/-- An attempt comes nearer to its end by a step, and by the last one to being seen there. -/
def Nears : Standing σ α → Standing σ α → Prop
  | .running _ next, .running _ rest => next.Awaits rest
  | .unseen _ _, .running _ _ => True
  | _, _ => False

theorem wellFounded_nears : WellFounded (Nears : Standing σ α → Standing σ α → Prop) := by
  have hover (standing : Standing σ α) (h : ∀ due rest, standing ≠ .running due rest) : Acc Nears standing := by
    refine ⟨_, fun next hnears => ?_⟩
    cases standing with
    | running due rest => exact absurd rfl (h due rest)
    | unseen | completed | panicked | aborted => cases next <;> exact hnears.elim
  refine ⟨fun standing => ?_⟩
  cases standing with
  | unseen | completed | panicked | aborted => exact hover _ (by simp)
  | running due rest =>
    induction rest using Timed.wellFounded_awaits.induction generalizing due with
    | _ rest ih =>
      refine ⟨_, fun next hnears => ?_⟩
      cases next with
      | running later next => exact ih next hnears later
      | unseen | completed | panicked | aborted => exact hover _ (by simp)

end Standing

namespace Call

def work (c : Call σ α) : Multiset (Standing σ α) := .ofList (c.attempts.filterMap fun a => a.standing.open?)

def stage (p : HedgePolicy) (c : Call σ α) : Nat :=
  match c.phase with
  | .upcoming => p.upTo + 2
  | .racing race _ => p.upTo - race.rounds + 1
  | .ended _ _ => 0

/-- Less is left of a call: fewer rounds, or less before its attempts. -/
def Declines (p : HedgePolicy) (d c : Call σ α) : Prop :=
  Prod.Lex (· < ·) (Relation.CutExpand Standing.Nears) (d.stage p, d.work) (c.stage p, c.work)

theorem wellFounded_declines (p : HedgePolicy) : WellFounded (Declines p : Call σ α → Call σ α → Prop) :=
  InvImage.wf (fun c : Call σ α => (c.stage p, c.work)) (wellFounded_lt.prod_lex Standing.wellFounded_nears.cutExpand)

variable {p : HedgePolicy} {c d : Call σ α}

theorem declines_of_stage (h : d.stage p < c.stage p) : d.Declines p c := .left _ _ h

theorem declines_of_work (hstage : d.stage p = c.stage p) (h : Relation.CutExpand Standing.Nears d.work c.work) :
    d.Declines p c := by
  unfold Declines
  rw [hstage]
  exact .right _ h

theorem stage_racing {race : Race} {timer : Nat} (hph : c.phase = .racing race timer) :
    c.stage p = p.upTo - race.rounds + 1 := by
  simp [stage, hph]

theorem declines_finish {race : Race} {timer : Nat} (hph : c.phase = .racing race timer) (d : Call σ α) (now : Nat)
    (closing : Closing α) : (d.finish now closing).Declines p c := by
  refine declines_of_stage ?_
  rw [stage_racing hph]
  exact Nat.succ_pos _

theorem work_of_attempts {before after : List (Attempt σ α)} {a : Attempt σ α}
    (h : c.attempts = before ++ a :: after) : c.work =
      .ofList a.standing.open?.toList + .ofList ((before ++ after).filterMap fun a => a.standing.open?) := by
  rw [work, h, List.filterMap_append, List.filterMap_cons, List.filterMap_append, Multiset.coe_add, Multiset.coe_eq_coe]
  cases a.standing.open? with
  | none => exact List.Perm.refl _
  | some rest => exact List.perm_middle

theorem work_stand {i started : Nat} {was : Standing σ α} (hat : c.attempts[i]? = some ⟨started, was⟩)
    (hopen : was.open? = some was) (standing : Standing σ α) :
    (c.stand i standing).work + {was} = c.work + .ofList standing.open?.toList := by
  obtain ⟨hlt, hi⟩ := List.getElem?_eq_some_iff.1 hat
  obtain ⟨before, a, after, hc, hlen, hmodify⟩ :=
    List.exists_of_modify (fun a : Attempt σ α => { a with standing := standing }) hlt
  obtain rfl : a = ⟨started, was⟩ := by
    subst hlen
    simpa [hc] using hi
  rw [work_of_attempts hc, work_of_attempts (c := c.stand i standing) hmodify, hopen]
  change _ = {was} + _ + _
  ac_rfl

theorem cutExpand_stand {i started : Nat} {was : Standing σ α} (hat : c.attempts[i]? = some ⟨started, was⟩)
    (hopen : was.open? = some was) {standing : Standing σ α}
    (h : ∀ next, standing.open? = some next → next.Nears was) :
    Relation.CutExpand Standing.Nears (c.stand i standing).work c.work :=
  ⟨standing.open?.toList, was, by simpa using h, work_stand hat hopen standing⟩

theorem stage_follow_asking (now timer : Nat) (race : Race) (c : Call σ α) (s : Shared σ) :
    (c.follow p now timer (.asking race) s).1.stage p ≤ p.upTo - race.rounds + 1 := by
  have hrounds {t : Race} (ht : (race.answered p s.limiter.ask.1 : Step α).race? = some t) :
      t.rounds = race.rounds := by
    rw [Race.answered_race ht]
    split <;> rfl
  rw [follow_asking]
  split
  · cases hstep : (race.answered p s.limiter.ask.1 : Step α) with
    | settled outcome => exact Nat.zero_le _
    | running t | asking t =>
      rw [← hrounds (by rw [hstep]; rfl)]
      exact Nat.le_refl _
  · exact Nat.zero_le _

theorem declines_ask {race t : Race} {timer : Nat} (hph : c.phase = .racing race timer)
    (ht : t.rounds = race.rounds + 1) (hmore : race.rounds < p.upTo) (now : Nat) (d : Call σ α) (s : Shared σ) :
    (d.follow p now timer (.asking t) s).1.Declines p c := by
  have hle := stage_follow_asking (p := p) now timer t d s
  refine declines_of_stage ?_
  rw [stage_racing hph]
  omega

theorem declines_start (hph : c.phase = .upcoming) (now timer : Nat) :
    Declines p { c.launch now with phase := .racing {} timer } c := by
  refine declines_of_stage ?_
  simp only [stage, hph]
  omega

theorem declines_advance {race : Race} {timer i started due : Nat} {rest : Timed (World σ) (Except StorageError α)}
    (hph : c.phase = .racing race timer) (hat : c.attempts[i]? = some ⟨started, .running due rest⟩)
    {standing : Standing σ α} (hnears : standing.Nears (.running due rest)) : (c.stand i standing).Declines p c := by
  refine declines_of_work (by simp [stage, stand, hph]) (cutExpand_stand hat rfl ?_)
  intro next hnext
  cases standing with
  | running | unseen =>
    cases hnext
    exact hnears
  | completed | panicked | aborted => cases hnext

theorem declines_observe {race : Race} {timer i started time : Nat} {outcome : Except StorageError α}
    (hph : c.phase = .racing race timer) (hat : c.attempts[i]? = some ⟨started, .unseen time outcome⟩) (now : Nat)
    (s : Shared σ) :
    ((c.stand i (.ofOutcome time outcome)).follow p now timer (race.finished p i outcome) s).1.Declines p c := by
  cases hstep : race.finished p i outcome with
  | settled o => exact declines_finish hph _ now (.returned o)
  | asking t =>
    have hrace : (race.finished p i outcome).race? = some t := by rw [hstep]; rfl
    obtain ⟨hrounds, hmore⟩ := Race.finished_rounds hrace
    rw [hstep] at hrounds hmore
    exact declines_ask hph hrounds (hmore Nat.one_ne_zero) now _ s
  | running t =>
    have hrace : (race.finished p i outcome).race? = some t := by rw [hstep]; rfl
    obtain ⟨hrounds, -⟩ := Race.finished_rounds hrace
    rw [hstep] at hrounds
    have hwork : Relation.CutExpand Standing.Nears (c.stand i (.ofOutcome time outcome)).work c.work := by
      refine cutExpand_stand hat rfl ?_
      rw [Standing.open?_ofOutcome]
      rintro _ ⟨⟩
    refine declines_of_work ?_ hwork
    rw [stage_racing hph]
    exact congrArg (p.upTo - · + 1) hrounds

theorem handle_eq_or_declines (p : HedgePolicy) (now : Nat) (e : Event) (c : Call σ α) (s : Shared σ) :
    (c.handle p now e s).1 = c ∨ (c.handle p now e s).1.Declines p c := by
  have hmove := move_handle p now e c s
  generalize c.record p now e s = y at hmove
  generalize c.handle p now e s = r at hmove ⊢
  cases hmove with
  | idle => exact .inl rfl
  | started hph => exact .inr (declines_start hph now _)
  | continued hph hat hwaits => exact .inr (declines_advance hph hat ⟨_, _, congrArg Prod.fst hwaits⟩)
  | finished _ hph hat _ => exact .inr (declines_advance hph hat trivial)
  | observed _ hph hat => exact .inr (declines_observe hph hat now _)
  | returned _ hph _ _ => exact .inr (declines_finish hph _ now _)
  | dropped hph => exact .inr (declines_finish hph c now .dropped)
  | @fired race timer _ hph =>
    rcases Nat.lt_or_ge race.rounds p.upTo with hmore | hnone
    · rw [Race.timerFired_of_lt hmore]
      exact .inr (declines_ask hph rfl hmore now c s)
    · rw [Race.timerFired_of_le hnone]
      cases hstep : (Race.goOn p race : Step α) with
      | settled o => exact .inr (declines_finish hph c now (.returned o))
      | running t =>
        obtain rfl : t = race := Race.goOn_race (p := p) (α := α) (by rw [hstep]; rfl)
        exact .inl (by simp only [follow, ← hph])
      | asking t =>
        have hrounds := Race.goOn_rounds (α := α) p race
        rw [hstep] at hrounds
        cases hrounds

theorem handle_declines {e : Event} (h : c.Due p e) (now : Nat) (s : Shared σ) :
    (c.handle p now e s).1.Declines p c := by
  cases e with
  | start =>
    have hph : c.phase = .upcoming := h
    have hstart := declines_start (p := p) hph now (now + p.after.ticks)
    simpa only [handle, hph] using hstart
  | advance i =>
    obtain ⟨⟨race, timer, hph⟩, started, due, rest, hat⟩ := h
    cases hrest : rest.advance s.world with
    | mk progress world =>
      simp only [handle, hph, advance, hat, hrest]
      cases progress with
      | waiting wait next => exact declines_advance hph hat ⟨_, _, congrArg Prod.fst hrest⟩
      | finished outcome =>
        cases hp : p.enabled with
        | true => exact declines_advance hph hat trivial
        | false => exact declines_finish hph _ now _
  | observe i =>
    obtain ⟨hp, ⟨race, timer, hph⟩, started, time, outcome, hat⟩ := h
    simp only [handle, hph, hp, observe, hat]
    exact declines_observe hph hat now s
  | timer =>
    obtain ⟨hp, race, timer, hph, hmore⟩ := h
    simp only [handle, hph, hp, Race.timerFired_of_lt hmore]
    exact declines_ask hph rfl hmore now c s
  | drop => exact h.elim

/-- The one attempt of a call without hedging runs as long as the call does. -/
structure Lone (c : Call σ α) : Prop where
  upcoming : c.phase = .upcoming → c.attempts = []
  running : ∀ race timer, c.phase = .racing race timer →
    ∃ started due rest, c.attempts = [⟨started, .running due rest⟩]

theorem Lone.handle (hp : p.enabled = false) (h : c.Lone) (now : Nat) (e : Event) (s : Shared σ) :
    (c.handle p now e s).1.Lone := by
  have hmove := move_handle p now e c s
  generalize c.record p now e s = y at hmove
  generalize c.handle p now e s = r at hmove ⊢
  cases hmove with
  | idle => exact h
  | started hph =>
    refine ⟨by simp, fun race timer _ => ⟨now, now, c.attempt 0, ?_⟩⟩
    simp [launch, h.upcoming hph]
  | @continued race timer i due started rest next d world hph hat _ =>
    obtain ⟨_, _, _, hattempts⟩ := h.running _ _ hph
    refine ⟨by simp [stand, hph], fun _ _ _ => ⟨started, now + d.ticks, next, ?_⟩⟩
    have hlt := IsRunning.lt ⟨_, _, _, hat⟩
    obtain rfl : i = 0 := by
      rw [hattempts, List.length_singleton] at hlt
      omega
    rw [hattempts] at hat
    cases hat
    simp [stand, hattempts]
  | finished hon _ _ _ => rw [hp] at hon; cases hon
  | observed hon _ _ => rw [hp] at hon; cases hon
  | returned _ _ _ _ => exact ⟨by simp [finish], by simp [finish]⟩
  | fired hon _ => rw [hp] at hon; cases hon
  | dropped _ => exact ⟨by simp [finish], by simp [finish]⟩

/-- A call that is under way has something to go on by. -/
structure Lively (p : HedgePolicy) (c : Call σ α) : Prop where
  hedged : p.enabled = true → ∃ x, c.Stands p x
  lone : p.enabled = false → c.Lone

theorem Fresh.lively (h : c.Fresh) (p : HedgePolicy) : c.Lively p :=
  ⟨fun _ => ⟨{}, h.stands p⟩, fun _ => ⟨fun _ => h.attempts, by simp [h.phase]⟩⟩

theorem Lively.handle (h : c.Lively p) (now : Nat) (e : Event) (s : Shared σ) : (c.handle p now e s).1.Lively p := by
  refine ⟨fun hp => ?_, fun hp => (h.lone hp).handle hp now e s⟩
  obtain ⟨x, hx⟩ := h.hedged hp
  exact ⟨_, handle_stands hp hx now e s⟩

theorem Lively.exists_due (h : c.Lively p) (hover : ∀ time closing, c.phase ≠ .ended time closing) :
    ∃ e, c.Due p e := by
  cases hph : c.phase with
  | upcoming => exact ⟨.start, hph⟩
  | ended time closing => exact absurd hph (hover time closing)
  | racing race timer =>
    cases hp : p.enabled with
    | false =>
      obtain ⟨started, due, rest, hattempts⟩ := (h.lone hp).running race timer hph
      exact ⟨.advance 0, ⟨race, timer, hph⟩, started, due, rest, by rw [hattempts]; rfl⟩
    | true =>
      obtain ⟨x, hx⟩ := h.hedged hp
      obtain ⟨hrace, hruns⟩ := hx.race hph
      cases hpending : race.pending with
      | nil => exact ⟨.timer, hp, race, timer, hph, hrace.lively hpending⟩
      | cons i pending =>
        have hi : c.IsPending i := (hruns.pending i).1 (by simp [hpending])
        rcases hi.cases with hrunning | hunseen
        · exact ⟨.advance i, ⟨race, timer, hph⟩, hrunning⟩
        · exact ⟨.observe i, hp, ⟨race, timer, hph⟩, hunseen⟩

/-- A hedged call broke down: it was to set its timer to a point in time that the clock cannot tell. -/
structure Broke (p : HedgePolicy) (s : Shared σ) (time : Nat) (c : Call σ α) : Prop where
  hedged : p.enabled = true
  phase : c.phase = .ended time .broken
  late : s.reaches time p.after = false

/-- The caller has not given up: if the call is over it has returned, or it broke down. -/
def Attended (p : HedgePolicy) (s : Shared σ) (c : Call σ α) : Prop :=
  ∀ time closing, c.phase = .ended time closing → (∃ o, closing = .returned o) ∨ c.Broke p s time

theorem Broke.horizon_ne_none {s : Shared σ} {time : Nat} (h : c.Broke p s time) : s.horizon ≠ none := by
  intro hendless
  have hlate := h.late
  rw [Shared.reaches, hendless] at hlate
  cases hlate

theorem Broke.congr {s t : Shared σ} {time : Nat} (h : c.Broke p s time) (hhorizon : t.horizon = s.horizon) :
    c.Broke p t time :=
  ⟨h.hedged, h.phase, by simpa only [Shared.reaches, hhorizon] using h.late⟩

theorem Attended.congr {s t : Shared σ} (h : c.Attended p s) (hhorizon : t.horizon = s.horizon) : c.Attended p t :=
  fun time closing hover => (h time closing hover).imp_right fun hbroke => hbroke.congr hhorizon

theorem Fresh.attended (h : c.Fresh) {s : Shared σ} : c.Attended p s :=
  fun _ _ hover => by cases h.phase.symm.trans hover

theorem Attended.outcome {s : Shared σ} (h : c.Attended p s) {time : Nat} {closing : Closing α}
    (hover : c.phase = .ended time closing) : (∃ o, c.result? = some (time, some o)) ∨ c.Broke p s time := by
  refine (h time closing hover).imp_left ?_
  rintro ⟨o, rfl⟩
  exact ⟨o, result?_eq_returned.2 hover⟩

/-- Only a caller who gives up has a call end in another way. -/
theorem Attended.handle {s : Shared σ} (hc : c.Attended p s) {e : Event} (he : e ≠ .drop) (now : Nat) :
    (c.handle p now e s).1.Attended p s := by
  have hfollow (hp : p.enabled = true) (timer : Nat) (step : Step α) (d : Call σ α) :
      (d.follow p now timer step s).1.Attended p s := by
    intro time closing hover
    obtain ⟨_, -, ⟨how, heq, hdrop, hbroken⟩ | ⟨race, timer', heq⟩⟩ := follow_cases p now timer step d s
    · have hended : (d.follow p now timer step s).1.phase = .ended now how := by rw [heq]; rfl
      cases hended.symm.trans hover
      cases closing with
      | returned o => exact .inl ⟨o, rfl⟩
      | dropped => exact absurd rfl hdrop
      | broken => exact .inr ⟨hp, hended, hbroken rfl⟩
    · rw [heq] at hover
      cases hover
  have hracing {race : Race} {timer : Nat} {d : Call σ α} (hph : d.phase = .racing race timer) : d.Attended p s :=
    fun _ _ hover => by cases hph.symm.trans hover
  cases hph : c.phase with
  | upcoming => cases e <;> simp [Attended, Call.handle, hph]
  | ended time closing => simpa only [Call.handle, hph] using hc
  | racing race timer =>
    cases e with
    | start => simpa only [Call.handle, hph] using hc
    | drop => exact absurd rfl he
    | timer =>
      simp only [Call.handle, hph]
      split
      · exact hfollow ‹_› _ _ _
      · exact hc
    | advance i =>
      simp only [Call.handle, hph, advance]
      split
      · split
        · exact hracing hph
        · split
          · exact hracing hph
          · rintro time closing ⟨⟩
            exact .inl ⟨_, rfl⟩
      · exact hc
    | observe i =>
      simp only [Call.handle, hph, observe]
      split
      · split
        · exact hfollow ‹_› _ _ _
        · exact hc
      · exact hc

end Call

namespace Hall

def after (f : Nat → Nat × Nat × Event) (h : Hall σ α) : Nat → Hall σ α
  | 0 => h
  | n + 1 => (after f h n).handle (f n).1 (f n).2.1 (f n).2.2

theorem after_eq_play (f : Nat → Nat × Nat × Event) (h : Hall σ α) (n : Nat) :
    h.after f n = h.play ((List.range n).map f) := by
  induction n with
  | zero => rfl
  | succ n ih =>
    rw [List.range_succ, List.map_append, play_append, ← ih]
    rfl

/-- A schedule without end is fair to a call if its caller does not give up, and nothing that the call could
go on by is put off for ever. -/
structure Fair (h : Hall σ α) (k : Nat) (f : Nat → Nat × Nat × Event) : Prop where
  patient : ∀ n now, f n ≠ (now, k, .drop)
  happens : ∀ n e, (∀ m, n ≤ m → ∃ c, (h.after f m).calls[k]? = some c ∧ c.Due h.policy e) →
    ∃ m, n ≤ m ∧ ∃ now, f m = (now, k, e)

def Course (h : Hall σ α) (k : Nat) (f : Nat → Nat × Nat × Event) (d : Nat → Call σ α) : Prop :=
  ∀ n, (h.after f n).calls[k]? = some (d n)

section Course
variable {h : Hall σ α} {k : Nat} {f : Nat → Nat × Nat × Event} {d : Nat → Call σ α}

theorem exists_course {c : Call σ α} (hc : h.calls[k]? = some c) (hlively : c.Lively h.policy)
    (f : Nat → Nat × Nat × Event) : ∃ d, h.Course k f d ∧ d 0 = c ∧ ∀ n, (d n).Lively h.policy := by
  have hlook (n : Nat) : ∃ d, (h.after f n).calls[k]? = some d ∧ d.Lively h.policy := by
    rw [after_eq_play]
    exact play_induction (P := fun d _ => d.Lively h.policy) (x := {})
      (fun d _ now e s hd => hd.handle now e s) hc hlively _
  choose d hd hlively using hlook
  exact ⟨d, hd, Option.some.inj ((hd 0).symm.trans hc), hlively⟩

theorem Course.succ (hd : h.Course k f d) (n : Nat) :
    if (f n).2.1 = k then d (n + 1) = ((d n).handle h.policy (f n).1 (f n).2.2 (h.after f n).shared).1
    else d (n + 1) = d n := by
  have hpolicy : (h.after f n).policy = h.policy := by rw [after_eq_play, play_policy]
  have hnext := hd (n + 1)
  rw [after, getElem?_handle, hd n, hpolicy] at hnext
  by_cases hk : (f n).2.1 = k
  · rw [if_pos hk] at hnext ⊢
    exact (Option.some.inj hnext).symm
  · rw [if_neg hk] at hnext ⊢
    exact (Option.some.inj hnext).symm

theorem Course.eq_or_declines (hd : h.Course k f d) {n m : Nat} (hnm : n ≤ m) :
    d m = d n ∨ Relation.TransGen (Call.Declines h.policy) (d m) (d n) := by
  induction m, hnm using Nat.le_induction with
  | base => exact .inl rfl
  | succ m _ ih =>
    have hnext : d (m + 1) = d m ∨ (d (m + 1)).Declines h.policy (d m) := by
      have hm := hd.succ m
      split at hm
      · rw [hm]
        exact Call.handle_eq_or_declines h.policy _ _ _ _
      · exact .inl hm
    rcases hnext with heq | hless
    · rwa [heq]
    · rcases ih with heq | hmore
      · exact .inr (.single (heq ▸ hless))
      · exact .inr (.head hless hmore)

theorem Course.exists_ended (hd : h.Course k f d) (hlively : ∀ n, (d n).Lively h.policy) (hf : h.Fair k f) (n : Nat) :
    ∃ m time closing, (d m).phase = .ended time closing := by
  generalize hn : d n = dn
  induction dn using (Call.wellFounded_declines h.policy).transGen.induction generalizing n with
  | _ dn ih =>
    by_contra hnever
    push Not at hnever
    -- If less were left of the call at some later moment, it would end by what is known of that moment.
    have hsame (m : Nat) (hnm : n ≤ m) : d m = d n := by
      rcases hd.eq_or_declines hnm with heq | hless
      · exact heq
      · exact absurd (ih _ (hn ▸ hless) m rfl) (by push Not; exact hnever)
    -- So it stays as it is, with something to go on by, and the schedule comes to that.
    obtain ⟨e, he⟩ := (hlively n).exists_due (hnever n)
    obtain ⟨m, hnm, now, hfm⟩ := hf.happens n e fun m hnm => ⟨d m, hd m, by rwa [hsame m hnm]⟩
    have hm := hd.succ m
    rw [hfm, if_pos rfl] at hm
    have hless : (d (m + 1)).Declines h.policy (d n) := by
      rw [hm, hsame m hnm]
      exact Call.handle_declines he now _
    exact absurd (ih _ (hn ▸ .single hless) (m + 1) rfl) (by push Not; exact hnever)

theorem Course.attended (hd : h.Course k f d) (hf : h.Fair k f) (hstart : (d 0).Attended h.policy h.shared) (n : Nat) :
    (d n).Attended h.policy h.shared := by
  induction n with
  | zero => exact hstart
  | succ n ih =>
    have hn := hd.succ n
    have hhorizon : (h.after f n).shared.horizon = h.shared.horizon := by rw [after_eq_play, play_horizon]
    split at hn
    · rename_i hk
      have hdrop : (f n).2.2 ≠ .drop := fun hdrop => hf.patient n (f n).1 (by rw [← hk, ← hdrop])
      rw [hn]
      exact ((ih.congr hhorizon).handle hdrop _).congr hhorizon.symm
    · rwa [hn]

theorem ends_of_fair {c : Call σ α} (hc : h.calls[k]? = some c) (hfresh : c.Fresh) (hf : h.Fair k f) :
    ∃ n d time, (h.after f n).calls[k]? = some d ∧
      ((∃ o, d.result? = some (time, some o)) ∨ d.Broke h.policy h.shared time) := by
  obtain ⟨d, hd, rfl, hlively⟩ := exists_course hc (hfresh.lively h.policy) f
  obtain ⟨n, time, closing, hover⟩ := hd.exists_ended hlively hf 0
  exact ⟨n, d n, time, hd n, (hd.attended hf hfresh.attended n).outcome hover⟩

end Course

theorem run_ends {p : HedgePolicy} {c : Call σ α} (hlively : c.Lively p) (hpatience : c.patience = none) (s : Shared σ)
    (hattended : c.Attended p s) : ∃ N, ∀ fuel ≥ N, ∃ d time, (Hall.run fuel ⟨p, [c], s⟩).calls = [d] ∧
      ((∃ o, d.result? = some (time, some o)) ∨ d.Broke p s time) := by
  induction c using (Call.wellFounded_declines p).induction generalizing s with
  | _ c ih =>
    by_cases hover : ∃ time closing, c.phase = .ended time closing
    · obtain ⟨time, closing, hover⟩ := hover
      refine ⟨0, fun fuel _ => ⟨c, time, ?_, hattended.outcome hover⟩⟩
      have hnone : (Hall.mk p [c] s).next? = none := by
        rw [next?_alone rfl, Call.next?, hover]
        rfl
      rw [run_of_next?_eq_none hnone]
    · push Not at hover
      obtain ⟨e, he⟩ := hlively.exists_due hover
      obtain ⟨⟨now, e⟩, hnext⟩ := Option.ne_none_iff_exists'.1 (Call.next?_ne_none he)
      have hdue := Call.due_of_next? hpatience hnext
      have hdrop : e ≠ .drop := by
        rintro rfl
        exact hdue
      have hhorizon : (c.handle p now e s).2.horizon = s.horizon := Call.handle_horizon p now e c s
      obtain ⟨N, hN⟩ := ih _ (Call.handle_declines hdue now s) (hlively.handle now e s)
        (by rw [Call.handle_patience, hpatience]) (c.handle p now e s).2 ((hattended.handle hdrop now).congr hhorizon)
      refine ⟨N + 1, fun fuel hfuel => ?_⟩
      obtain ⟨fuel, rfl⟩ : ∃ n, fuel = n + 1 := ⟨fuel - 1, by omega⟩
      rw [run, next?_alone rfl, hnext]
      obtain ⟨d, time, hcalls, hends⟩ := hN fuel (by omega)
      exact ⟨d, time, hcalls, hends.imp_right fun hbroke => hbroke.congr hhorizon.symm⟩

end Hall
end Hedging
end ObjectStorage
