import ObjectStorage.Client
import ObjectStorage.Proofs.Hedging.Clock

/-! # Calls without hedging

A call under a policy that is turned off has one attempt. The clock runs that as if there were no race, and
the limiter is not asked. So a read that is not hedged is performed as a write is.
-/
namespace ObjectStorage

variable {σ α : Type} {p : HedgePolicy}

namespace Hedging

def Call.single (start timer : Nat) (race : Race) (attempt : Nat → Timed (World σ) (Except StorageError α))
    (started due : Nat) (rest : Timed (World σ) (Except StorageError α)) : Call σ α :=
  { start := start, attempt := attempt, attempts := [⟨started, .running due rest⟩], phase := .racing race timer }

section Single
variable (hp : p.enabled = false) (start timer : Nat) (race : Race)
variable (attempt : Nat → Timed (World σ) (Except StorageError α)) (started due : Nat)
include hp

theorem Hall.run_single (fuel : Nat) (rest : Timed (World σ) (Except StorageError α)) (s : Shared σ) :
    let c := Call.single start timer race attempt started due rest
    Hall.run (fuel + 1) ⟨p, [c], s⟩ =
      Hall.run fuel ⟨p, [(c.advance p due 0 s).1], (c.advance p due 0 s).2⟩ := by
  intro c
  have hnext : c.next? p = some (due, .advance 0) := by
    simp [c, Call.single, Call.next?, Attempt.next?, hp, Call.soonest, Call.sooner]
  rw [Hall.run, Hall.next?_alone rfl, hnext]
  rfl

theorem Hall.run_alone (rest : Timed (World σ) (Except StorageError α)) (s : Shared σ) :
    ∃ most, ∀ fuel ≥ most, ∃ c : Call σ α,
      Hall.run fuel ⟨p, [Call.single start timer race attempt started due rest], s⟩ =
        ⟨p, [c], { s with world := (rest.run due s.world).2.2 }⟩ ∧
      c.result? = some ((rest.run due s.world).2.1, some (rest.run due s.world).1) := by
  induction rest generalizing due s with
  | done outcome =>
    refine ⟨1, fun fuel hfuel => ?_⟩
    obtain ⟨fuel, rfl⟩ : ∃ n, fuel = n + 1 := ⟨fuel - 1, by omega⟩
    let c := Call.single start timer race attempt started due (.done outcome)
    refine ⟨(c.stand 0 (.unseen due outcome)).finish due (.returned outcome), ?_, rfl⟩
    rw [Hall.run_single hp]
    simp only [Call.single, Call.advance, List.getElem?_cons_zero, Timed.advance, hp]
    exact Hall.run_of_next?_eq_none rfl fuel
  | act change next ih =>
    obtain ⟨most, hruns⟩ := ih s.world due { s with world := change s.world }
    refine ⟨most + 1, fun fuel hfuel => ?_⟩
    obtain ⟨fuel, rfl⟩ : ∃ n, fuel = n + 1 := ⟨fuel - 1, by omega⟩
    rw [Hall.run_single hp]
    exact hruns fuel (by omega)
  | wait d next ih =>
    obtain ⟨most, hruns⟩ := ih (due + d.ticks) s
    refine ⟨most + 1, fun fuel hfuel => ?_⟩
    obtain ⟨fuel, rfl⟩ : ∃ n, fuel = n + 1 := ⟨fuel - 1, by omega⟩
    rw [Hall.run_single hp]
    exact hruns fuel (by omega)

end Single

/-- Without hedging a dispatched attempt runs as it does alone, given as many events as it has steps. -/
theorem dispatch_unhedged (hp : p.enabled = false) (now : Nat) (attempt : Timed (World σ) (Except StorageError α))
    (s : Shared σ) :
    ∃ most, ∀ steps ≥ most, dispatch p steps now attempt s =
      (some ((attempt.run now s.world).2.1, (attempt.run now s.world).1),
        { s with world := (attempt.run now s.world).2.2 }) := by
  obtain ⟨most, hruns⟩ :=
    Hall.run_alone hp now (now + p.after.ticks) {} (fun _ => attempt) now now attempt s
  refine ⟨most, fun steps hsteps => ?_⟩
  have hbound : eventBound p steps = 1 + (eventBound p steps - 1) := by
    unfold eventBound
    omega
  have hfuel : most ≤ eventBound p steps - 1 := by
    have hle : steps + 2 ≤ (p.upTo + 1) * (steps + 2) := Nat.le_mul_of_pos_left _ (Nat.succ_pos _)
    unfold eventBound
    omega
  obtain ⟨c, hrun, hresult⟩ := hruns _ hfuel
  have hstart : Hall.run (eventBound p steps) ⟨p, [{ start := now, attempt := fun _ => attempt }], s⟩ =
      Hall.run (eventBound p steps - 1)
        ⟨p, [.single now (now + p.after.ticks) {} (fun _ => attempt) now now attempt], s⟩ := by
    rw [hbound, Nat.add_comm 1, Nat.add_sub_cancel]
    rfl
  simp only [dispatch, hstart, hrun]
  simp [hresult]

end Hedging

/-- A read that is not hedged is performed as a write is. The store has to say how many steps its calls take, or
more. -/
theorem Session.get_unhedged (c : Client σ) (hp : c.hedging.enabled = false) (key : String) (s : Session σ) :
    let performed := Session.perform (c.readAttempt key >>= Client.finish "get") s
    ∃ most, ∀ steps ≥ most,
      s.get { c with backend := { c.backend with steps := steps } } key = (some performed.1, performed.2) := by
  intro performed
  obtain ⟨most, hdispatch⟩ := Hedging.dispatch_unhedged hp s.now (c.readAttempt key) s.shared
  refine ⟨most, fun steps hsteps => ?_⟩
  let d : Client σ := { c with backend := { c.backend with steps := steps } }
  have hle : most ≤ d.readSteps := by
    have hmul : steps ≤ (c.retry.maxRetries + 1) * steps := Nat.le_mul_of_pos_left _ (Nat.succ_pos _)
    change most ≤ (c.retry.maxRetries + 1) * steps + 3 * c.retry.maxRetries
    omega
  have hread : Hedging.dispatch d.hedging d.readSteps s.now (d.readAttempt key) s.shared = _ := hdispatch _ hle
  change s.get d key = _
  simp only [get, hread, performed, perform, Timed.bind_eq, Timed.run_bind]

end ObjectStorage
