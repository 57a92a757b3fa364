import ObjectStorage.Client

/-! # Runs of a retried operation

All attempts but the last one ended in a failure that the policy retries, and the last one ends the
run as it ends itself.
-/
namespace ObjectStorage

variable {σ α : Type}

def World.afterRetry (name : String) (w : World σ) : World σ :=
  { w with metrics := w.metrics.record (.retries name), draws := w.draws.tail }

namespace RetryPolicy
variable {p : RetryPolicy} (name : String) {kind : OperationKind}
variable {attempt : Timed (World σ) (Except StorageError α)}

theorem retried_or_final (p : RetryPolicy) (kind : OperationKind) (outcome : Except StorageError α) :
    (∃ e, outcome = .error e ∧ p.retries kind e = true) ∨ ∀ e, outcome = .error e → p.retries kind e = false := by
  by_cases hagain : ∃ e, outcome = .error e ∧ p.retries kind e = true
  · exact .inl hagain
  · right
    intro e he
    exact Bool.eq_false_iff.2 fun hretry => hagain ⟨e, he, hretry⟩

/-- What follows a failure that is retried: it is counted, a number is drawn for the pause, and the attempts that
are left are made after it. -/
theorem run_attempts_again (left : Nat) {now time : Nat} {w v : World σ} {e : StorageError}
    (hrun : attempt.run now w = (.error e, time, v)) (hretry : p.retries kind e = true) :
    (p.attempts name kind attempt (left + 1)).run now w =
      (p.attempts name kind attempt left).run
        (time + (p.backoff (p.maxRetries - (left + 1)) (v.draws.headD 0)).ticks) (v.afterRetry name) := by
  rw [attempts, Timed.bind_eq, Timed.run_bind, hrun]
  simp only [hretry, ↓reduceIte]
  rfl

/-- The store is as the failed attempt left it. -/
theorem run_attempts_retry (left : Nat) {now : Nat} {w : World σ} {e : StorageError}
    (hfail : (attempt.run now w).1 = .error e) (hretry : p.retries kind e = true) :
    ∃ (time : Nat) (world : World σ), world.store = (attempt.run now w).2.2.store ∧
      (p.attempts name kind attempt (left + 1)).run now w =
        (p.attempts name kind attempt left).run time world := by
  rcases hrun : attempt.run now w with ⟨outcome, time, world⟩
  obtain rfl : outcome = .error e := by simpa [hrun] using hfail
  exact ⟨_, world.afterRetry name, rfl, run_attempts_again name left hrun hretry⟩

theorem run_attempts_stop {left now : Nat} {w : World σ}
    (hstop : ∀ e, (attempt.run now w).1 = .error e → p.retries kind e = false) :
    (p.attempts name kind attempt left).run now w = attempt.run now w := by
  cases left with
  | zero => rfl
  | succ left =>
    rw [attempts, Timed.bind_eq, Timed.run_bind]
    cases hres : attempt.run now w with
    | mk outcome rest =>
      cases outcome with
      | ok a => rfl
      | error e =>
        have hno := hstop e (by rw [hres])
        simp only [hno]
        rfl

theorem run_attempts_ok (left : Nat) {now time : Nat} {w v : World σ} {a : α}
    (h : attempt.run now w = (.ok a, time, v)) :
    (p.attempts name kind attempt left).run now w = (.ok a, time, v) := by
  refine (run_attempts_stop name fun e he => ?_).trans h
  rw [h] at he
  cases he

/-- What holds before the first attempt and is kept by each failure that is retried holds before the last attempt. -/
theorem run_attempts {P : σ → List StorageError → Prop}
    (keeps : ∀ now (w : World σ) failures e, P w.store failures → (attempt.run now w).1 = .error e →
      p.retries kind e = true → P (attempt.run now w).2.2.store (failures ++ [e]))
    (left now : Nat) {w : World σ} (before : List StorageError) (hw : P w.store before) :
    ∃ (time : Nat) (world : World σ) (failures : List StorageError),
      (p.attempts name kind attempt left).run now w = attempt.run time world ∧
      P world.store (before ++ failures) ∧ (∀ e ∈ failures, p.retries kind e = true) ∧
      failures.length ≤ left ∧
      (failures.length < left → ∀ e, (attempt.run time world).1 = .error e → p.retries kind e = false) := by
  induction left generalizing now w before with
  | zero => exact ⟨now, w, [], rfl, by simpa using hw, by simp, Nat.le_refl _, by simp⟩
  | succ left ih =>
    rcases p.retried_or_final kind (attempt.run now w).1 with ⟨e, hfail, hretry⟩ | hstop
    · obtain ⟨time, world, hstore, hrun⟩ := run_attempts_retry name left hfail hretry
      have hkept : P world.store (before ++ [e]) := hstore ▸ keeps now w before e hw hfail hretry
      obtain ⟨time', world', failures, hrun', hP, hall, hlen, hlast⟩ := ih time (before ++ [e]) hkept
      refine ⟨time', world', e :: failures, hrun.trans hrun', by simpa using hP, ?_, ?_, ?_⟩
      · intro e' he'
        rcases List.mem_cons.1 he' with rfl | he'
        · exact hretry
        · exact hall e' he'
      · simpa using hlen
      · intro hlt
        exact hlast (by simpa using hlt)
    · exact ⟨now, w, [], run_attempts_stop name hstop, by simpa using hw, by simp, Nat.zero_le _, fun _ => hstop⟩

end RetryPolicy

theorem Client.run_finish (name : String) (outcome : Except StorageError α) (now : Nat) (w : World σ) :
    ∃ world : World σ, (Client.finish name outcome).run now w = (outcome, now, world) ∧ world.store = w.store :=
  ⟨_, rfl, rfl⟩

theorem Client.run_listWithin {c : Client σ} {first delimiter : String} {fuel now time : Nat} {w v : World σ}
    {outcome : Except StorageError Listing}
    (h : (Collector.collect c.maxPages (fun token => c.request "list" .read (.page first delimiter token))
      fuel none {}).run now w = (some outcome, time, v)) :
    ∃ after : World σ, (c.listWithin fuel first delimiter).run now w = (some outcome, time, after) ∧
      after.store = v.store := by
  obtain ⟨after, hfinish, hstore⟩ := run_finish "list" outcome time v
  refine ⟨after, ?_, hstore⟩
  simp only [listWithin, Timed.bind_eq, Timed.run_bind, h, hfinish]
  rfl

/-- A listing comes out as its pages are collected, also if it does not end. -/
theorem Client.exists_run_listWithin (c : Client σ) (first delimiter : String) (fuel now : Nat) (w : World σ) :
    let collected := (Collector.collect c.maxPages (fun token => c.request "list" .read (.page first delimiter token))
      fuel none {}).run now w
    ∃ after : World σ, (c.listWithin fuel first delimiter).run now w = (collected.1, collected.2.1, after) ∧
      after.store = collected.2.2.store := by
  intro collected
  rcases hrun : collected with ⟨outcome, time, v⟩
  cases outcome with
  | some outcome => exact run_listWithin hrun
  | none =>
    refine ⟨v, ?_, rfl⟩
    simp only [listWithin, Timed.bind_eq, Timed.run_bind]
    rw [show (Collector.collect c.maxPages (fun token => c.request "list" .read (.page first delimiter token))
      fuel none {}).run now w = (none, time, v) from hrun]
    rfl

end ObjectStorage
