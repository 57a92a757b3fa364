import ObjectStorage.Proofs.Hedging.Calls

/-! # What a hedged call returns

The first decisive outcome that a call observes is what it returns, at the moment it observes it. A
transient failure is returned only when nothing better can come.
-/
namespace ObjectStorage.Hedging
open Race (Step History Ending Decisive Undecided)

variable {σ α : Type}

theorem Hall.play_stands {h : Hall σ α} (hp : h.policy.enabled = true) {k : Nat} {c : Call σ α}
    (hc : h.calls[k]? = some c) (hfresh : c.Fresh) (es : List (Nat × Nat × Event)) :
    ∃ d, (h.play es).calls[k]? = some d ∧ d.Stands h.policy (h.history k es) := by
  obtain ⟨d, hd, hstands⟩ := Hall.play_induction (P := fun c x => c.Stands h.policy x)
    (fun c x now e s hx => Call.handle_stands hp hx now e s) hc (hfresh.stands h.policy) es
  exact ⟨d, hd, by simpa using hstands⟩

namespace Call

theorem result?_eq_some {c : Call σ α} {time : Nat} {outcome : Option (Except StorageError α)} :
    c.result? = some (time, outcome) ↔ ∃ closing, c.phase = .ended time closing ∧ closing.outcome? = outcome := by
  unfold result?
  cases c.phase <;> simp

theorem result?_eq_returned {c : Call σ α} {time : Nat} {o : Except StorageError α} :
    c.result? = some (time, some o) ↔ c.phase = .ended time (.returned o) := by
  rw [result?_eq_some]
  constructor
  · rintro ⟨closing, hph, ho⟩
    cases closing with
    | returned outcome =>
      cases ho
      exact hph
    | dropped | broken => cases ho
  · exact fun hph => ⟨_, hph, rfl⟩

theorem Stands.over {p : HedgePolicy} {c : Call σ α} {x : History α} (h : c.Stands p x) {time : Nat}
    {closing : Closing α} (hph : c.phase = .ended time closing) : c.Over p time closing x := by
  cases h with
  | upcoming phase _ _ => cases phase.symm.trans hph
  | racing phase _ _ => cases phase.symm.trans hph
  | ended phase isOver =>
    cases phase.symm.trans hph
    exact isOver

theorem Stands.result_of_decisive {p : HedgePolicy} {c : Call σ α} {x : History α} (h : c.Stands p x)
    {y : Ending α} (hy : y ∈ x.endings) (hd : Decisive y.outcome) :
    c.result? = some (y.time, some y.outcome) ∧ ∃ before, x.endings = before ++ [y] ∧ Undecided before := by
  cases h with
  | upcoming _ _ history => simp [history] at hy
  | racing _ stands _ => exact absurd hd (stands.tallies.undecided y hy)
  | @ended time closing phase isOver =>
    cases closing with
    | dropped | broken => exact absurd hd (isOver.undecided rfl y hy)
    | returned o =>
      cases isOver.settled o rfl with
      | exhausted undecided _ _ _ => exact absurd hd (undecided y hy)
      | @decisive before i _ _ undecided endings =>
        rw [endings] at hy
        rcases List.mem_append.1 hy with hy | hy
        · exact absurd hd (undecided y hy)
        · obtain rfl := List.mem_singleton.1 hy
          exact ⟨result?_eq_returned.2 phase, before, endings, undecided⟩

theorem Stands.last_of_result {p : HedgePolicy} {c : Call σ α} {x : History α} (h : c.Stands p x) {time : Nat}
    {o : Except StorageError α} (hr : c.result? = some (time, some o)) :
    x.endings.getLast?.map Ending.outcome = some o := by
  cases (h.over (result?_eq_returned.1 hr)).settled o rfl with
  | decisive _ _ endings => simp [endings]
  | exhausted _ last _ _ => exact last

theorem Stands.exhausted_of_result {p : HedgePolicy} {c : Call σ α} {x : History α} (h : c.Stands p x)
    {time : Nat} {o : Except StorageError α} (hr : c.result? = some (time, some o)) (ho : ¬Decisive o) :
    Undecided x.endings ∧ x.ended.Perm (List.range c.attempts.length) ∧ x.rounds = p.upTo := by
  have hover := h.over (result?_eq_returned.1 hr)
  cases hover.settled o rfl with
  | decisive decisive _ _ => exact absurd decisive ho
  | exhausted undecided _ rounds all => exact ⟨undecided, hover.issued ▸ all, rounds⟩

end Call

/-- The winner of a hedged call, in whatever order ends and timers are observed. The first outcome observed that is
no transient failure is returned at that moment. What is returned is always what was observed last, and a transient
failure only when each attempt issued was observed to fail so and all rounds are used. -/
theorem Hall.hedged_result {h : Hall σ α} (hp : h.policy.enabled = true) {k : Nat} {c : Call σ α}
    (hc : h.calls[k]? = some c) (hfresh : c.Fresh) (es : List (Nat × Nat × Event)) :
    ∃ d, (h.play es).calls[k]? = some d ∧
      (∀ y ∈ (h.history k es).endings, Decisive y.outcome →
        d.result? = some (y.time, some y.outcome) ∧
          ∃ before, (h.history k es).endings = before ++ [y] ∧ Undecided before) ∧
      (∀ time o, d.result? = some (time, some o) →
        (h.history k es).endings.getLast?.map Ending.outcome = some o) ∧
      (∀ time e, d.result? = some (time, some (.error e)) → e.errorClass = .transient →
        Undecided (h.history k es).endings ∧
          (h.history k es).ended.Perm (List.range d.attempts.length) ∧
          (h.history k es).rounds = h.policy.upTo) ∧
      (∀ race timer, d.phase = .racing race timer →
        (∀ i, i ∈ race.pending ↔ d.IsPending i) ∧
          (race.pending = [] → race.lastFailure ≠ none ∧ race.rounds < h.policy.upTo)) := by
  obtain ⟨d, hd, hstands⟩ := Hall.play_stands hp hc hfresh es
  refine ⟨d, hd, ?_, ?_, ?_, ?_⟩
  · intro y hy hdec
    exact hstands.result_of_decisive hy hdec
  · intro time o hr
    exact hstands.last_of_result hr
  · intro time e hr he
    exact hstands.exhausted_of_result hr fun hdec => hdec he
  · intro race timer hph
    obtain ⟨hrace, hruns⟩ := hstands.race hph
    refine ⟨hruns.pending, ?_⟩
    intro hempty
    obtain ⟨e, he⟩ := hrace.tallies.exists_lastFailure hempty
    exact ⟨by simp [he], hrace.lively hempty⟩

/-- A call whose first attempt fails late and whose first hedge is denied. -/
def relay : Hall Unit Nat where
  policy := { after := .ofMillis 1, upTo := 2 }
  calls := [{ start := 0, attempt := fun n =>
    if n = 0 then .wait (.ofMillis 30) (.done (.error (.timeout "slow"))) else .done (.ok n) }]
  shared := { world := { store := () }, limiter := .scripted [false, true] }

def relaySchedule : List (Nat × Nat × Event) :=
  [(0, 0, .start), (0, 0, .advance 0), (1, 0, .timer), (30, 0, .advance 0), (31, 0, .observe 0), (31, 0, .advance 1),
    (32, 0, .observe 1)]

theorem relay_result : relay.policy.enabled = true ∧
    ∃ d, (relay.play relaySchedule).calls[0]? = some d ∧ d.result? = some (32, some (.ok 1)) := by
  have hp : relay.policy.enabled = true := rfl
  obtain ⟨d, hd, hwins, -⟩ := Hall.hedged_result hp (k := 0) rfl ⟨rfl, rfl⟩ relaySchedule
  have hendings : (relay.history 0 relaySchedule).endings =
      [⟨31, 0, .error (.timeout "slow")⟩, ⟨32, 1, .ok 1⟩] := rfl
  have hy := hwins ⟨32, 1, .ok 1⟩ (by simp [hendings]) trivial
  exact ⟨hp, d, hd, hy.1⟩

end ObjectStorage.Hedging
