import Mathlib.Algebra.Order.BigOperators.Group.List
import Mathlib.Algebra.Order.Ring.Nat
import Mathlib.Order.Bounds.Basic
import ObjectStorage.Proofs.Retry.Backoff
import ObjectStorage.Proofs.Retry.Runs
import ObjectStorage.Proofs.Work.Courses

/-! # Trials of an operation

The attempts that a policy makes, one by one. How many there are depends on their outcomes alone: they end with
the first one that is not retried, or when all retries are used up. Between two of them there is one pause.
-/
namespace ObjectStorage

variable {σ α : Type}

def World.bare {ν : Type} (w : World (Recorded ν σ)) : World σ :=
  { store := w.store.store, metrics := w.metrics, draws := w.draws }

inductive Trial (α : Type) where
  | begun
  | ended (outcome : Except StorageError α)

namespace Timed

def storeAfter (t : Timed σ α) : Nat → σ → σ
  | 0, s => s
  | n + 1, s => t.storeAfter n (t.run 0 s).2.2

/-- The result of an attempt, by its number, when attempts are made one after another. -/
def resultAt (t : Timed σ α) (s : σ) (n : Nat) : α := (t.run 0 (t.storeAfter n s)).1

theorem resultAt_succ (t : Timed σ α) (now : Nat) (s : σ) :
    t.resultAt (t.run now s).2.2 = fun i => t.resultAt s (i + 1) := by
  funext i
  rw [(t.run_at 0 now s).2]
  rfl

def scripted (results : Nat → α) : Timed Nat α := .modifyGet fun i => (results i, i + 1)

theorem resultAt_scripted (results : Nat → α) (first : Nat) :
    (scripted results).resultAt first = fun i => results (first + i) := by
  have hstore (i first : Nat) : (scripted results).storeAfter i first = first + i := by
    induction i generalizing first with
    | zero => rfl
    | succ i ih =>
      calc (scripted results).storeAfter (i + 1) first
        _ = (scripted results).storeAfter i (first + 1) := rfl
        _ = first + 1 + i := ih (first + 1)
        _ = first + (i + 1) := by omega
  funext i
  rw [resultAt, hstore]
  rfl

variable (t : Timed σ (Except StorageError α))

def tried : Timed (Recorded (Trial α) σ) (Except StorageError α) := do
  Timed.modify fun m => { m with notes := m.notes ++ [.begun] }
  let outcome ← t.within Recorded.store fun s m => { m with store := s }
  Timed.modify fun m => { m with notes := m.notes ++ [.ended outcome] }
  return outcome

/-- What happens while an attempt is made: it begins, waits for what it waits for, and ends. -/
def trial (s : σ) : List (Happening (Trial α)) :=
  .noted .begun :: (t.waits s).map .waited ++ [.noted (.ended (t.run 0 s).1)]

theorem run_tried (now : Nat) (m : Recorded (Trial α) σ) :
    t.tried.run now m = ((t.run now m.store).1, (t.run now m.store).2.1,
      ⟨(t.run now m.store).2.2, m.notes ++ [.begun, .ended (t.run now m.store).1]⟩) := by
  simp only [tried, bind_eq, run_bind, modify, run, Recorded.run_within]
  simp [run]

theorem course_tried (m : Recorded (Trial α) σ) : t.tried.course Recorded.notes m = t.trial m.store := by
  simp only [tried, bind_eq, course_bind _ _ _ 0, course_note, Recorded.course_within, Recorded.run_within]
  simp [trial, course, modify, run]

end Timed

namespace RetryPolicy

/-- With so many retries left this one is the last: the least after which the outcome is a success or not retried,
or no retry is left. -/
def Makes (p : RetryPolicy) (kind : OperationKind) (outcome : Nat → Except StorageError α) (left n : Nat) : Prop :=
  IsLeast {i | (∀ e, outcome i = .error e → p.retries kind e = false) ∨ i = left} n

section Makes
variable {p : RetryPolicy} {kind : OperationKind} {outcome : Nat → Except StorageError α} {left : Nat}

theorem makes_none (h : (∀ e, outcome 0 = .error e → p.retries kind e = false) ∨ left = 0) :
    p.Makes kind outcome left 0 :=
  ⟨h.imp_right Eq.symm, fun _ _ => Nat.zero_le _⟩

theorem Makes.succ {n : Nat} {e : StorageError} (hfail : outcome 0 = .error e) (hretry : p.retries kind e = true)
    (h : p.Makes kind (fun i => outcome (i + 1)) left n) : p.Makes kind outcome (left + 1) (n + 1) := by
  refine ⟨h.1.imp_right (congrArg (· + 1)), ?_⟩
  intro i hi
  cases i with
  | zero =>
    -- the first outcome is retried, and there is a retry for it
    rcases hi with hstop | hleft
    · rw [hstop e hfail] at hretry
      cases hretry
    · cases hleft
  | succ i =>
    have hi' := hi.imp_right (Nat.succ.inj : i + 1 = left + 1 → i = left)
    exact Nat.succ_le_succ (h.2 hi')

end Makes

def pauseAt (p : RetryPolicy) (made : Nat) (draws : List Nat) (i : Nat) : Duration :=
  p.backoff (made + i) (draws.getD i 0)

/-- What comes of an attempt and so many retries of it: the result with the world behind it, and the course. -/
structure Amounts (p : RetryPolicy) (name : String) (attempt : Timed σ (Except StorageError α)) (made n : Nat)
    (w : World (Recorded (Trial α) σ)) (result : Except StorageError α) (v : World (Recorded (Trial α) σ))
    (course : List (Happening (Trial α))) : Prop where
  result : result = attempt.resultAt w.store.store n
  store : v.store.store = attempt.storeAfter (n + 1) w.store.store
  notes : v.store.notes =
    w.store.notes ++ (List.range (n + 1)).flatMap fun i => [.begun, .ended (attempt.resultAt w.store.store i)]
  course : course = attempt.trial w.store.store ++
    (List.range n).flatMap fun i =>
      .waited (p.pauseAt made w.draws i) :: attempt.trial (attempt.storeAfter (i + 1) w.store.store)
  counts : ∀ series, v.metrics.count series = w.metrics.count series + if series = .retries name then n else 0

section Attempts
variable {p : RetryPolicy} {kind : OperationKind}

theorem run_onStore_tried (attempt : Timed σ (Except StorageError α)) (now : Nat) (w : World (Recorded (Trial α) σ)) :
    (World.onStore attempt.tried).run now w = ((attempt.run now w.store.store).1, (attempt.run now w.store.store).2.1,
      { w with store := ⟨(attempt.run now w.store.store).2.2,
        w.store.notes ++ [.begun, .ended (attempt.run now w.store.store).1]⟩ }) := by
  rw [World.run_onStore, Timed.run_tried]

theorem course_onStore_tried (attempt : Timed σ (Except StorageError α)) (w : World (Recorded (Trial α) σ)) :
    (World.onStore attempt.tried).course (fun w => w.store.notes) w = attempt.trial w.store.store :=
  (Timed.course_within (fun _ _ => rfl) Recorded.notes attempt.tried w).trans (attempt.course_tried w.store)

variable {ν : Type} {attempt : Timed (World (Recorded ν σ)) (Except StorageError α)}

theorem course_attempts_again (name : String) (left : Nat) {now time : Nat} {w v : World (Recorded ν σ)}
    {e : StorageError}
    (hrun : attempt.run now w = (.error e, time, v)) (hretry : p.retries kind e = true) :
    (p.attempts name kind attempt (left + 1)).course (fun w => w.store.notes) w =
      attempt.course (fun w => w.store.notes) w ++
        .waited (p.backoff (p.maxRetries - (left + 1)) (v.draws.headD 0)) ::
          (p.attempts name kind attempt left).course (fun w => w.store.notes) (v.afterRetry name) := by
  rw [attempts, Timed.bind_eq, Timed.course_bind _ _ _ now, hrun]
  simp only [hretry, ↓reduceIte]
  simp [World.count, World.draw, Timed.modify, Timed.modifyGet, Timed.pause, Timed.bind, Timed.course,
    World.afterRetry]

theorem course_attempts_stop (name : String) (left : Nat) {now : Nat} {w : World (Recorded ν σ)}
    (hstop : ∀ e, (attempt.run now w).1 = .error e → p.retries kind e = false) :
    (p.attempts name kind attempt left).course (fun w => w.store.notes) w =
      attempt.course (fun w => w.store.notes) w := by
  cases left with
  | zero => rfl
  | succ left =>
    rw [attempts, Timed.bind_eq, Timed.course_bind _ _ _ now]
    cases hres : (attempt.run now w).1 with
    | ok a => simp [Timed.course]
    | error e => simp [hstop e hres, Timed.course]

end Attempts

section Runs
variable {p : RetryPolicy} {name : String} {kind : OperationKind} {attempt : Timed σ (Except StorageError α)}
variable {now : Nat} {w : World (Recorded (Trial α) σ)}

theorem amounts_stop {left : Nat} (made : Nat)
    (hstop : (∀ e, attempt.resultAt w.store.store 0 = .error e → p.retries kind e = false) ∨ left = 0) :
    let work := p.attempts name kind (World.onStore attempt.tried) left
    p.Amounts name attempt made 0 w (work.run now w).1 (work.run now w).2.2
      (work.course (fun w => w.store.notes) w) := by
  have hresult : (attempt.run now w.store.store).1 = attempt.resultAt w.store.store 0 :=
    (attempt.run_at 0 now w.store.store).1
  have hrun := run_onStore_tried attempt now w
  have hlast : (p.attempts name kind (World.onStore attempt.tried) left).run now w =
        (World.onStore attempt.tried).run now w ∧
      (p.attempts name kind (World.onStore attempt.tried) left).course (fun w => w.store.notes) w =
        attempt.trial w.store.store := by
    rw [← course_onStore_tried]
    rcases hstop with hstop | rfl
    · have hstop' : ∀ e, ((World.onStore attempt.tried).run now w).1 = .error e → p.retries kind e = false := by
        rw [hrun, hresult]
        exact hstop
      exact ⟨run_attempts_stop name hstop', course_attempts_stop name left hstop'⟩
    · exact ⟨rfl, rfl⟩
  intro work
  rw [hlast.1, hlast.2, hrun]
  refine ⟨hresult, (attempt.run_at 0 now w.store.store).2, ?_, ?_, ?_⟩
  · simp [hresult]
  · simp
  · simp

/-- A failure that is retried, before all others. It moves the others on by one. -/
theorem Amounts.succ {made n time : Nat} {v after : World (Recorded (Trial α) σ)}
    {outcome result : Except StorageError α} {course : List (Happening (Trial α))}
    (hrun : (World.onStore attempt.tried).run now w = (outcome, time, v))
    (h : p.Amounts name attempt (made + 1) n (v.afterRetry name) result after course) :
    p.Amounts name attempt made (n + 1) w result after
      (attempt.trial w.store.store ++ .waited (p.backoff made (w.draws.headD 0)) :: course) := by
  rw [run_onStore_tried] at hrun
  cases hrun
  obtain ⟨hresult, hstore, hnotes, hcourse, hcounts⟩ := h
  simp only [World.afterRetry, attempt.resultAt_succ] at hresult hstore hnotes hcourse hcounts
  have hnext : (attempt.run now w.store.store).2.2 = attempt.storeAfter 1 w.store.store :=
    (attempt.run_at 0 now w.store.store).2
  have hfirst : (attempt.run now w.store.store).1 = attempt.resultAt w.store.store 0 :=
    (attempt.run_at 0 now w.store.store).1
  have hpause (i : Nat) : p.pauseAt (made + 1) w.draws.tail i = p.pauseAt made w.draws (i + 1) := by
    cases hdraws : w.draws with
    | nil => simp [pauseAt, Nat.add_assoc, Nat.add_comm 1 i]
    | cons draw rest => simp [pauseAt, Nat.add_assoc, Nat.add_comm 1 i]
  have hhead : p.backoff made (w.draws.headD 0) = p.pauseAt made w.draws 0 := by
    cases hdraws : w.draws with
    | nil => rfl
    | cons draw rest => rfl
  refine ⟨hresult, ?_, ?_, ?_, ?_⟩
  · rw [hstore, hnext]
    rfl
  · rw [hnotes, hfirst, List.range_succ_eq_map (n := n + 1)]
    simp [List.flatMap_map]
  · rw [hcourse, hnext, hhead, List.range_succ_eq_map]
    simp only [hpause]
    simp [List.flatMap_map, Timed.storeAfter]
  · intro series
    rw [hcounts, Metrics.count_record]
    split <;> omega

theorem exists_amounts_attempts {made left : Nat} (hmade : made + left = p.maxRetries) (name : String)
    (kind : OperationKind) (attempt : Timed σ (Except StorageError α)) (now : Nat) (w : World (Recorded (Trial α) σ)) :
    let work := p.attempts name kind (World.onStore attempt.tried) left
    ∃ n, p.Makes kind (attempt.resultAt w.store.store) left n ∧
      p.Amounts name attempt made n w (work.run now w).1 (work.run now w).2.2
        (work.course (fun w => w.store.notes) w) := by
  induction left generalizing made now w with
  | zero => exact ⟨0, makes_none (.inr rfl), amounts_stop made (.inr rfl)⟩
  | succ left ih =>
    rcases p.retried_or_final kind (attempt.resultAt w.store.store 0) with ⟨e, hfail, hretry⟩ | hstop
    · have hpause : p.maxRetries - (left + 1) = made := by omega
      rcases hrun : (World.onStore attempt.tried).run now w with ⟨outcome, time, v⟩
      have htried := hrun.symm.trans (run_onStore_tried attempt now w)
      obtain rfl : outcome = .error e :=
        (congrArg Prod.fst htried).trans ((attempt.run_at 0 now w.store.store).1.trans hfail)
      have hstore : v.store.store = (attempt.run now w.store.store).2.2 :=
        congrArg (fun x => x.2.2.store.store) htried
      have hdraws : v.draws = w.draws := congrArg (fun x => x.2.2.draws) htried
      have hleft : made + 1 + left = p.maxRetries := by omega
      obtain ⟨n, hmakes, hamounts⟩ := ih hleft
        (time + (p.backoff (p.maxRetries - (left + 1)) (v.draws.headD 0)).ticks) (v.afterRetry name)
      intro work
      refine ⟨n + 1, Makes.succ hfail hretry ?_, ?_⟩
      · rw [← attempt.resultAt_succ now, ← hstore]
        exact hmakes
      · have hwork := run_attempts_again name left hrun hretry
        have hcourse := course_attempts_again name left hrun hretry
        rw [hpause, hdraws, course_onStore_tried] at hcourse
        rw [hwork, hcourse]
        exact Amounts.succ hrun hamounts
    · exact ⟨0, makes_none (.inl hstop), amounts_stop made (.inl hstop)⟩

theorem exists_amounts_run (p : RetryPolicy) (name : String) (kind : OperationKind)
    (attempt : Timed σ (Except StorageError α)) (now : Nat) (w : World (Recorded (Trial α) σ)) :
    let work := p.run name kind (World.onStore attempt.tried)
    ∃ n, p.Makes kind (attempt.resultAt w.store.store) p.maxRetries n ∧
      p.Amounts name attempt 0 n w (work.run now w).1 (work.run now w).2.2
        (work.course (fun w => w.store.notes) w) :=
  exists_amounts_attempts (Nat.zero_add p.maxRetries) name kind attempt now w

theorem sum_pauseAt_le (p : RetryPolicy) (draws : List Nat) {n : Nat} (hn : n ≤ p.maxRetries) :
    ((List.range n).map fun i => (p.pauseAt 0 draws i).nanos).sum ≤ p.maxRetries * p.maxPeriod.nanos := by
  have hpauses : ∀ d ∈ (List.range n).map fun i => (p.pauseAt 0 draws i).nanos, d ≤ p.maxPeriod.nanos := by
    intro d hd
    obtain ⟨i, -, rfl⟩ := List.mem_map.1 hd
    exact backoff_le_maxPeriod p (0 + i) _
  calc ((List.range n).map fun i => (p.pauseAt 0 draws i).nanos).sum
      ≤ n * p.maxPeriod.nanos := by simpa using List.sum_le_card_nsmul _ _ hpauses
    _ ≤ p.maxRetries * p.maxPeriod.nanos := Nat.mul_le_mul_right _ hn

theorem run_attempts_bare (name : String) (kind : OperationKind) (attempt : Timed σ (Except StorageError α))
    (left now : Nat) (w : World (Recorded (Trial α) σ)) :
    let noted := (p.attempts name kind (World.onStore attempt.tried) left).run now w
    (p.attempts name kind (World.onStore attempt) left).run now w.bare = (noted.1, noted.2.1, noted.2.2.bare) := by
  have hattempt (now : Nat) (w : World (Recorded (Trial α) σ)) : (World.onStore attempt).run now w.bare =
      (((World.onStore attempt.tried).run now w).1, ((World.onStore attempt.tried).run now w).2.1,
        ((World.onStore attempt.tried).run now w).2.2.bare) := by
    rw [run_onStore_tried, World.run_onStore]
    rfl
  induction left generalizing now w with
  | zero => exact hattempt now w
  | succ left ih =>
    have hbare := hattempt now w
    rcases hrun : (World.onStore attempt.tried).run now w with ⟨outcome, time, v⟩
    rw [hrun] at hbare
    rcases p.retried_or_final kind outcome with ⟨e, rfl, hretry⟩ | hstop
    · rw [run_attempts_again name left hrun hretry, run_attempts_again name left hbare hretry]
      exact ih _ (v.afterRetry name)
    · rw [run_attempts_stop name (by rwa [hrun]), run_attempts_stop name (by rwa [hbare]), hrun, hbare]

/-- A run under any policy, whatever its attempts do. They are made until one of them succeeds or fails in a way
that is not retried, or no retry is left, and the run ends with the outcome of the last one. -/
theorem run_law (p : RetryPolicy) (name : String) (kind : OperationKind) (attempt : Timed σ (Except StorageError α))
    (now : Nat) (w : World (Recorded (Trial α) σ)) :
    let work := p.run name kind (World.onStore attempt.tried)
    ∃ n result time after, work.run now w = (result, time, after) ∧
      (p.run name kind (World.onStore attempt)).run now w.bare = (result, time, after.bare) ∧
      p.Makes kind (attempt.resultAt w.store.store) p.maxRetries n ∧
      p.Amounts name attempt 0 n w result after (work.course (fun w => w.store.notes) w) ∧
      (∀ i, (p.pauseAt 0 w.draws i).nanos ≤ p.maxPeriod.nanos) ∧
      ((List.range n).map fun i => (p.pauseAt 0 w.draws i).nanos).sum ≤ p.maxRetries * p.maxPeriod.nanos := by
  intro work
  obtain ⟨n, hmakes, hamounts⟩ := exists_amounts_run p name kind attempt now w
  have hn : n ≤ p.maxRetries := hmakes.2 (.inr rfl)
  exact ⟨n, _, _, _, rfl, run_attempts_bare name kind attempt p.maxRetries now w, hmakes, hamounts,
    fun i => backoff_le_maxPeriod p (0 + i) _, sum_pauseAt_le p w.draws hn⟩

end Runs
end RetryPolicy
end ObjectStorage
