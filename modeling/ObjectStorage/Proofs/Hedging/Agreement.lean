import ObjectStorage.Proofs.Hedging.Pace
import ObjectStorage.Proofs.Hedging.Unhedged
import Mathlib.Data.Nat.Pairing

/-! # Attempts that agree

Hedging is not seen in what a call returns when all its attempts would come to the same outcome, each after
waits of its own. Then that is the outcome of the call, with hedging or without it, whatever the limiter
answers and in whatever order things are observed. The call does return, unless it is to set its timer to a point
in time that is too far off for the clock to tell.
-/
namespace ObjectStorage

variable {σ α : Type}

namespace Timed

/-- Work that ends with this result, after waits of its own and whatever the world holds. -/
def Yields (a : α) : Timed σ α → Prop
  | done b => b = a
  | act _ next => ∀ s, (next s).Yields a
  | wait _ next => next.Yields a

def anyhow : Protocol σ Unit where
  valid _ := True
  step _ _ _ _ _ := True
  refl _ _ _ := trivial
  trans _ _ := trivial

theorem Yields.follows {a : α} {t : Timed (World σ) α} (h : t.Yields a) (n : Nat) :
    t.Follows (anyhow : Protocol σ Unit).onStore n (fun _ b => b = a) () := by
  induction t with
  | done b => exact h
  | act change next ih => exact fun s _ => ⟨trivial, (), trivial, ih s (h s)⟩
  | wait d next ih => exact ih h

end Timed

namespace Hedging

theorem Shared.reaches_mono {s : Shared σ} {now later : Nat} {d : Duration} (h : s.reaches later d = true)
    (hle : now ≤ later) : s.reaches now d = true := by
  unfold reaches at h ⊢
  rw [Option.all_eq_true] at h ⊢
  intro horizon hhorizon
  have hlater := h horizon hhorizon
  rw [decide_eq_true_eq] at hlater ⊢
  exact (Nat.add_le_add_right (Nat.mul_le_mul_right 1000000 hle) _).trans hlater

namespace Hall

theorem outcome_of_yields {h : Hall σ α} {k : Nat} {c : Call σ α} (hc : h.calls[k]? = some c) (hfresh : c.Fresh)
    {o : Except StorageError α} (hyields : ∀ n, (c.attempt n).Yields o) {es : List (Nat × Nat × Event)}
    {d : Call σ α} (hd : (h.play es).calls[k]? = some d) {time : Nat} {outcome : Except StorageError α}
    (hresult : d.result? = some (time, some outcome)) : outcome = o := by
  obtain ⟨d', hd', stages, haccords⟩ := play_induction (h := h) (k := k) (x := {})
    (P := fun d x => ∃ stages, d.Accords h.policy Timed.anyhow (fun _ outcome => outcome = o) stages x)
    (fun d x now e s hx => by
      obtain ⟨stages, haccords⟩ := hx
      obtain ⟨later, hlater, -⟩ := haccords.handle now e (s := s) trivial
      exact ⟨later, hlater⟩)
    hc ⟨_, .of_fresh h.policy hfresh fun n => (hyields n).follows n⟩ es
  obtain rfl : d = d' := Option.some.inj (hd.symm.trans hd')
  obtain ⟨i, -, ho⟩ := haccords.exists_of_result hresult
  exact ho

/-- The clock has a call return that runs alone, if it does not break down. -/
theorem run_of_yields {c : Call σ α} (hfresh : c.Fresh) (hpatience : c.patience = none) {o : Except StorageError α}
    (hyields : ∀ n, (c.attempt n).Yields o) (p : HedgePolicy) (s : Shared σ) :
    ∃ most, ∀ fuel ≥ most, ∃ d time, (Hall.run fuel ⟨p, [c], s⟩).calls = [d] ∧
      (d.result? = some (time, some o) ∨ d.Broke p s time) := by
  obtain ⟨most, hends⟩ := run_ends (hfresh.lively p) hpatience s hfresh.attended
  refine ⟨most, fun fuel hfuel => ?_⟩
  obtain ⟨d, time, hcalls, hover⟩ := hends fuel hfuel
  refine ⟨d, time, hcalls, hover.imp_left ?_⟩
  rintro ⟨outcome, hresult⟩
  obtain ⟨es, -, hrun⟩ := run_eq_play fuel ⟨p, [c], s⟩
  have hd : (Hall.play ⟨p, [c], s⟩ es).calls[0]? = some d := by
    rw [← hrun, hcalls]
    rfl
  obtain rfl := outcome_of_yields (k := 0) rfl hfresh hyields hd hresult
  exact hresult

theorem not_broke_of_prompt {h : Hall σ α} {k : Nat} {c d : Call σ α} (hc : h.calls[k]? = some c) (hfresh : c.Fresh)
    {within time : Nat} {es : List (Nat × Nat × Event)} (hes : Punctual es h) (hprompt : Prompt within k es h)
    (hreaches : h.shared.reaches (c.start + h.policy.upTo * h.policy.after.ticks + within) h.policy.after = true)
    (hd : (h.play es).calls[k]? = some d) : ¬d.Broke h.policy h.shared time := by
  intro hbroke
  obtain ⟨d', hd', hintime⟩ := play_prompt hbroke.hedged hc hfresh hes hprompt
  cases hd.symm.trans hd'
  have hearly := Shared.reaches_mono hreaches (hintime time .broken hbroke.phase)
  rw [hbroke.late] at hearly
  cases hearly

end Hall

def Event.ofNumber : Nat → Event
  | 0 => .start
  | 1 => .timer
  | n + 2 => if n % 2 = 0 then .advance (n / 2) else .observe (n / 2)

/-- A schedule of one call in which each event comes up again and again, whether it is due or not. -/
def roundabout (k n : Nat) : Nat × Nat × Event := (n, k, .ofNumber n.unpair.1)

theorem fair_roundabout (h : Hall σ α) (k : Nat) : h.Fair k (roundabout k) := by
  refine ⟨?_, ?_⟩
  · intro n now heq
    have hdrop : Event.ofNumber n.unpair.1 = .drop := congrArg (fun event => event.2.2) heq
    revert hdrop
    rcases n.unpair.1 with _ | _ | n
    · simp [Event.ofNumber]
    · simp [Event.ofNumber]
    · simp only [Event.ofNumber]
      split <;> simp
  · intro n e hdue
    -- The pair of an event's number with a moment comes no earlier than the moment.
    have hnumber : ∃ code, Event.ofNumber code = e := by
      cases e with
      | start => exact ⟨0, rfl⟩
      | timer => exact ⟨1, rfl⟩
      | advance i => exact ⟨2 * i + 2, by simp [Event.ofNumber]⟩
      | observe i =>
        have hodd : (2 * i + 1) % 2 = 1 := by omega
        have hhalf : (2 * i + 1) / 2 = i := by omega
        exact ⟨2 * i + 1 + 2, by simp [Event.ofNumber, hodd, hhalf]⟩
      | drop =>
        obtain ⟨c, -, hdrop⟩ := hdue n (Nat.le_refl n)
        exact hdrop.elim
    obtain ⟨code, rfl⟩ := hnumber
    refine ⟨Nat.pair code n, Nat.right_le_pair code n, Nat.pair code n, ?_⟩
    rw [roundabout, Nat.unpair_pair]

/-- A dispatched attempt cannot break down: it is not hedged, or the clock goes on for ever, or it can tell the time
one delay after all attempts must have ended. -/
def Shared.Spans (p : HedgePolicy) (now : Nat) (attempt : Timed (World σ) (Except StorageError α)) (s : Shared σ) :
    Prop :=
  p.enabled = false ∨ s.horizon = none ∨
    ∃ within, attempt.Lasts within ∧ s.reaches (now + p.upTo * p.after.ticks + within) p.after = true

theorem Shared.Spans.not_broke {p : HedgePolicy} {now : Nat} {attempt : Timed (World σ) (Except StorageError α)}
    {s : Shared σ} (hspans : s.Spans p now attempt) {fuel time : Nat} {d : Call σ α}
    (hd : (Hall.run fuel ⟨p, [{ start := now, attempt := fun _ => attempt }], s⟩).calls = [d]) :
    ¬d.Broke p s time := by
  intro hbroke
  rcases hspans with hoff | hendless | ⟨within, hlasts, hreaches⟩
  · cases hoff.symm.trans hbroke.hedged
  · exact hbroke.horizon_ne_none hendless
  · obtain ⟨es, hes, hrun⟩ :=
      Hall.exists_timely fuel ⟨p, [{ start := now, attempt := fun _ => attempt }], s⟩
    have hfresh : ({ start := now, attempt := fun _ => attempt } : Call σ α).Fresh := ⟨rfl, rfl⟩
    have hprompt := Hall.prompt_of_lasting (k := 0) rfl (hfresh.lasting fun _ => hlasts) hes.punctual
    rw [hrun] at hd
    exact Hall.not_broke_of_prompt (k := 0) rfl hfresh hes.punctual hprompt hreaches (by rw [hd]; rfl) hbroke

theorem dispatch_of_yields {attempt : Timed (World σ) (Except StorageError α)} {o : Except StorageError α}
    (hyields : attempt.Yields o) (p : HedgePolicy) (now : Nat) (s : Shared σ) :
    (∀ steps time outcome, (dispatch p steps now attempt s).1 = some (time, outcome) → outcome = o) ∧
    (s.Spans p now attempt → ∃ most, ∀ steps ≥ most, ∃ time, (dispatch p steps now attempt s).1 = some (time, o)) := by
  have hfresh : ({ start := now, attempt := fun _ => attempt } : Call σ α).Fresh := ⟨rfl, rfl⟩
  refine ⟨fun steps time outcome hdispatch => ?_, fun hspans => ?_⟩
  · obtain ⟨es, heq⟩ := dispatch_eq_play p steps now attempt s
    rw [heq] at hdispatch
    obtain ⟨⟨time', outcome'⟩, hhead, houtcome⟩ := Option.bind_eq_some_iff.1 hdispatch
    obtain ⟨d, hd, hresult⟩ := Option.bind_eq_some_iff.1 hhead
    obtain ⟨o', rfl, hsame⟩ := Option.bind_eq_some_iff.1 houtcome
    cases hsame
    rw [List.head?_eq_getElem?] at hd
    exact Hall.outcome_of_yields (k := 0) rfl hfresh (fun _ => hyields) hd hresult
  · obtain ⟨most, hreturns⟩ := Hall.run_of_yields hfresh rfl (fun _ => hyields) p s
    refine ⟨most, fun steps hsteps => ?_⟩
    have hbound : most ≤ eventBound p steps := by
      have hle : steps + 2 ≤ (p.upTo + 1) * (steps + 2) := Nat.le_mul_of_pos_left _ (Nat.succ_pos _)
      unfold eventBound
      omega
    obtain ⟨d, time, hcalls, hresult | hbroke⟩ := hreturns _ hbound
    · refine ⟨time, ?_⟩
      simp only [dispatch]
      rw [hcalls]
      simp [hresult]
    · exact absurd hbroke (hspans.not_broke hcalls)

/-- Hedging makes no difference to the outcome when all attempts of a call come to the same one: under every
schedule, policy and limiter it is all that the call can return. Fair schedules and the clock have it return, unless
it is to set its timer to a time that the clock cannot tell. -/
theorem hedging_transparent {h : Hall σ α} {k : Nat} {c : Call σ α} (hc : h.calls[k]? = some c) (hfresh : c.Fresh)
    {o : Except StorageError α} (hyields : ∀ n, (c.attempt n).Yields o) :
    (∀ (es : List (Nat × Nat × Event)) (d : Call σ α) (time : Nat) (outcome : Except StorageError α),
      (h.play es).calls[k]? = some d → d.result? = some (time, some outcome) → outcome = o) ∧
    (∀ f : Nat → Nat × Nat × Event, h.Fair k f → ∃ n d time, (h.after f n).calls[k]? = some d ∧
      (d.result? = some (time, some o) ∨ d.Broke h.policy h.shared time)) ∧
    (c.patience = none → ∀ (p : HedgePolicy) (s : Shared σ), ∃ most, ∀ fuel ≥ most,
      ∃ d time, (Hall.run fuel ⟨p, [c], s⟩).calls = [d] ∧
        (d.result? = some (time, some o) ∨ d.Broke p s time)) ∧
    (∀ within es, Hall.Punctual es h → Hall.Prompt within k es h →
      h.shared.reaches (c.start + h.policy.upTo * h.policy.after.ticks + within) h.policy.after = true →
      ∀ d time, (h.play es).calls[k]? = some d → ¬d.Broke h.policy h.shared time) ∧
    ∀ n (p : HedgePolicy) (now : Nat) (s : Shared σ),
      (∀ steps time outcome, (dispatch p steps now (c.attempt n) s).1 = some (time, outcome) → outcome = o) ∧
      (s.Spans p now (c.attempt n) →
        ∃ most, ∀ steps ≥ most, ∃ time, (dispatch p steps now (c.attempt n) s).1 = some (time, o)) := by
  refine ⟨fun es d time outcome hd => Hall.outcome_of_yields hc hfresh hyields hd, ?_,
    fun hpatience => Hall.run_of_yields hfresh hpatience hyields,
    fun within es hes hprompt hreaches d time hd => Hall.not_broke_of_prompt hc hfresh hes hprompt hreaches hd,
    fun n p now s => dispatch_of_yields (hyields n) p now s⟩
  intro f hf
  obtain ⟨n, d, time, hd, hover⟩ := Hall.ends_of_fair hc hfresh hf
  refine ⟨n, d, time, hd, hover.imp_left ?_⟩
  rintro ⟨outcome, hresult⟩
  obtain rfl := Hall.outcome_of_yields hc hfresh hyields (by rwa [← Hall.after_eq_play]) hresult
  exact hresult

def unanimousAttempt (n : Nat) : Timed (World Unit) (Except StorageError Nat) :=
  .wait (.ofMillis (100 - 40 * n)) (.done (.error (.timeout "slow")))

def unanimous : Hall Unit Nat where
  policy := { after := .ofMillis 1, upTo := 2 }
  calls := [{ start := 0, attempt := unanimousAttempt }]
  shared := { world := { store := () }, limiter := .permits 1, horizon := none }

theorem unanimous_transparent : unanimous.Fair 0 (roundabout 0) ∧
    (∃ n d time, (unanimous.after (roundabout 0) n).calls[0]? = some d ∧
      d.result? = some (time, some (.error (.timeout "slow")))) ∧
    ∀ s : Shared Unit, s.horizon = some (Nat.pow 2 63 * 1000000000 - 1) → ∃ most, ∀ steps ≥ most,
      ∃ time, (dispatch unanimous.policy steps 0 (unanimousAttempt 1) s).1 = some (time, .error (.timeout "slow")) := by
  obtain ⟨-, hreturns, -, -, hdispatch⟩ :=
    hedging_transparent (h := unanimous) (k := 0) rfl ⟨rfl, rfl⟩ fun n => rfl
  have hfair := fair_roundabout unanimous 0
  refine ⟨hfair, ?_, fun s hs => ?_⟩
  · obtain ⟨n, d, time, hd, hresult | hbroke⟩ := hreturns _ hfair
    · exact ⟨n, d, time, hd, hresult⟩
    · exact absurd rfl hbroke.horizon_ne_none
  · have hlasts : (unanimousAttempt 1).Lasts 60 := ⟨by decide, trivial⟩
    have hreaches : s.reaches (0 + 2 * 1 + 60) (.ofMillis 1) = true := by
      rw [Shared.reaches, hs]
      decide
    exact (hdispatch 1 unanimous.policy 0 s).2 (.inr (.inr ⟨60, hlasts, hreaches⟩))

/-- A read whose timer is set for the longest delay there is, and whose attempts fail for the time being. -/
def overlong : Hall Unit Nat where
  policy := { after := .longest, upTo := 1, maxPerSecond := 0 }
  calls := [{ start := 0, attempt := fun _ => .wait (.ofMillis 5) (.done (.error (.timeout "slow"))) }]
  shared := { world := { store := () }, limiter := .unlimited }

def overlongSchedule : List (Nat × Nat × Event) :=
  [(0, 0, .start), (0, 0, .advance 0), (5, 0, .advance 0), (5, 0, .observe 0)]

/-- It does not return although all its attempts agree, and it would without hedging. -/
theorem overlong_breaks :
    let attempt : Timed (World Unit) (Except StorageError Nat) := .wait (.ofMillis 5) (.done (.error (.timeout "slow")))
    attempt.Yields (.error (.timeout "slow")) ∧
      (∀ steps, (dispatch overlong.policy steps 0 attempt overlong.shared).1 = none) ∧
      (overlong.play overlongSchedule).calls.map Call.result? = [some (5, none)] ∧
      ∃ most, ∀ steps ≥ most, (dispatch { overlong.policy with upTo := 0 } steps 0 attempt overlong.shared).1 =
        some (5, .error (.timeout "slow")) := by
  intro attempt
  refine ⟨rfl, fun steps => ?_, rfl, ?_⟩
  · have htimely : overlong.Timely overlongSchedule := ⟨rfl, rfl, rfl, rfl, trivial⟩
    obtain ⟨more, hmore⟩ : ∃ more, eventBound overlong.policy steps = more + overlongSchedule.length := by
      have hle : 2 * 2 ≤ (overlong.policy.upTo + 1) * (steps + 2) := Nat.mul_le_mul (by decide) (by omega)
      exact ⟨eventBound overlong.policy steps - 4, by change _ = _ + 4; unfold eventBound; omega⟩
    change ((Hall.run (eventBound overlong.policy steps) overlong).calls.head?.bind Call.result?).bind _ = none
    rw [hmore, Hall.run_of_timely htimely, Hall.run_of_next?_eq_none rfl]
    rfl
  · obtain ⟨most, hdispatch⟩ :=
      dispatch_unhedged (p := { overlong.policy with upTo := 0 }) rfl 0 attempt overlong.shared
    exact ⟨most, fun steps hsteps => by rw [hdispatch steps hsteps]; rfl⟩

end Hedging
end ObjectStorage
