import Mathlib.Data.List.Infix
import ObjectStorage.Proofs.Retry.Trials

/-! # More permissive policies

A policy that allows more retries, and repeats whatever another one repeats, goes on where the other one stops.
What both attempt is the same up to there.
-/
namespace ObjectStorage

variable {σ α : Type}

/-- How much of the failed writes a policy repeats. -/
def WritePolicy.rank : WritePolicy → Nat
  | never => 0
  | unambiguous => 1
  | always => 2

theorem WritePolicy.repeats_mono {p q : WritePolicy} (hrank : p.rank ≤ q.rank) {e : StorageError}
    (h : p.repeats e = true) : q.repeats e = true := by
  cases p with
  | never => cases h
  | unambiguous =>
    cases q with
    | never => exact absurd hrank (by decide)
    | unambiguous => exact h
    | always => rfl
  | always =>
    cases q with
    | never => exact absurd hrank (by decide)
    | unambiguous => exact absurd hrank (by decide)
    | always => rfl

/-- Failed reads are repeated as failed writes are that always are. -/
def OperationKind.rank (kind : OperationKind) (policy : WritePolicy) : Nat :=
  match kind with
  | read => WritePolicy.always.rank
  | write => policy.rank

namespace RetryPolicy

variable {p q : RetryPolicy} {kind kind' : OperationKind}

theorem retries_iff (p : RetryPolicy) (kind : OperationKind) (e : StorageError) :
    p.retries kind e = true ↔
      e.errorClass = .transient ∧ (kind = .read ∨ p.writePolicy.repeats e = true) := by
  cases kind <;> simp [retries]

theorem retries_mono (hrank : kind.rank p.writePolicy ≤ kind'.rank q.writePolicy) {e : StorageError}
    (h : p.retries kind e = true) : q.retries kind' e = true := by
  rw [retries_iff] at h ⊢
  obtain ⟨hclass, hrepeats⟩ := h
  refine ⟨hclass, ?_⟩
  cases kind' with
  | read => exact .inl rfl
  | write =>
    cases kind with
    | read => exact .inr (WritePolicy.repeats_mono (p := .always) hrank rfl)
    | write => exact .inr (WritePolicy.repeats_mono hrank (hrepeats.resolve_left (by simp)))

theorem Makes.mono {outcome : Nat → Except StorageError α} {left left' n n' : Nat}
    (hrank : kind.rank p.writePolicy ≤ kind'.rank q.writePolicy) (hleft : left ≤ left')
    (h : p.Makes kind outcome left n) (h' : q.Makes kind' outcome left' n') : n ≤ n' := by
  rcases h'.1 with hstop | rfl
  · apply h.2
    left
    intro e he
    exact Bool.eq_false_iff.2 fun hretry => Bool.eq_false_iff.1 (hstop e he) (retries_mono hrank hretry)
  · exact (h.2 (.inr rfl)).trans hleft

theorem Makes.le_of_settled {outcome : Nat → Except StorageError α} {left n i : Nat}
    (hsettled : ∀ e, outcome i = .error e → e.errorClass ≠ .transient) (h : p.Makes kind outcome left n) : n ≤ i := by
  apply h.2
  left
  intro e he
  refine Bool.eq_false_iff.2 fun hretry => hsettled e he ?_
  exact ((p.retries_iff kind e).1 hretry).1

theorem attempts_read (p : RetryPolicy) (policy : WritePolicy) (name : String)
    (attempt : Timed (World σ) (Except StorageError α)) (left : Nat) :
    { p with writePolicy := policy }.attempts name .read attempt left = p.attempts name .read attempt left := by
  have hretries (e : StorageError) : { p with writePolicy := policy }.retries .read e = p.retries .read e := rfl
  have hceiling (retry : Nat) : { p with writePolicy := policy }.backoffCeiling retry = p.backoffCeiling retry := rfl
  have hpause (retry draw : Nat) : { p with writePolicy := policy }.backoff retry draw = p.backoff retry draw := by
    simp only [backoff, backoffRange, hceiling]
  induction left with
  | zero => rfl
  | succ left ih => simp only [attempts, ih, hretries, hpause]

theorem run_read (p : RetryPolicy) (policy : WritePolicy) (name : String)
    (attempt : Timed (World σ) (Except StorageError α)) :
    { p with writePolicy := policy }.run name .read attempt = p.run name .read attempt := by
  simp only [run, attempts_read]

/-- Runs of one operation under two policies, of which the second is at least as permissive. The second run begins
with the attempts of the first one, and ends with them unless the first ends in a transient failure. -/
theorem run_extends (hmost : p.maxRetries ≤ q.maxRetries)
    (hrank : kind.rank p.writePolicy ≤ kind'.rank q.writePolicy) (name name' : String)
    (attempt : Timed σ (Except StorageError α)) (now now' : Nat) {w v : World (Recorded (Trial α) σ)}
    (hstore : w.store = v.store) :
    let first := (p.run name kind (World.onStore attempt.tried)).run now w
    let second := (q.run name' kind' (World.onStore attempt.tried)).run now' v
    first.2.2.store.notes <+: second.2.2.store.notes ∧
      ((∀ e, first.1 = .error e → e.errorClass ≠ .transient) →
        second.1 = first.1 ∧ second.2.2.store.notes = first.2.2.store.notes) ∧
      ∀ policy, { p with writePolicy := policy }.run name .read (World.onStore attempt) =
        p.run name .read (World.onStore attempt) := by
  intro first second
  obtain ⟨n, hmakes, hfirst⟩ := exists_amounts_run p name kind attempt now w
  obtain ⟨n', hmakes', hsecond⟩ := exists_amounts_run q name' kind' attempt now' v
  rw [← hstore] at hmakes'
  have hle : n ≤ n' := hmakes.mono hrank hmost hmakes'
  have hnotes : first.2.2.store.notes = _ := hfirst.notes
  have hnotes' : second.2.2.store.notes = _ := hsecond.notes
  rw [← hstore] at hnotes'
  refine ⟨?_, ?_, fun policy => run_read p policy name _⟩
  · have hrange : List.range (n + 1) <+: List.range (n' + 1) := by
      obtain ⟨more, rfl⟩ := Nat.exists_eq_add_of_le hle
      rw [Nat.add_right_comm, List.range_add (n := n + 1)]
      exact List.prefix_append _ _
    rw [hnotes, hnotes']
    exact (List.prefix_append_right_inj _).2 (hrange.flatMap _)
  · intro hsettled
    have hresult : first.1 = attempt.resultAt w.store.store n := hfirst.result
    have hresult' : second.1 = attempt.resultAt v.store.store n' := hsecond.result
    obtain rfl : n = n' := Nat.le_antisymm hle (hmakes'.le_of_settled (by rwa [← hresult]))
    exact ⟨by rw [hresult, hresult', hstore], hnotes'.trans hnotes.symm⟩

/-- A store is busy, then an answer is lost, then the store is busy again. -/
def busy (i : Nat) : Except StorageError Unit :=
  match i with
  | 0 | 2 => .error (.service "SlowDown" none (some 503))
  | 1 => .error (.timeout "lost")
  | _ => .ok ()

def cautious : RetryPolicy := { maxRetries := 2 }

def insistent : RetryPolicy := { maxRetries := 3, writePolicy := .always }

def fromStart : World (Recorded (Trial Unit) Nat) := { store := { store := 0 } }

def runBusy (p : RetryPolicy) : Except StorageError Unit × Nat × World (Recorded (Trial Unit) Nat) :=
  (p.run "put" .write (World.onStore (Timed.scripted busy).tried)).run 0 fromStart

theorem busy_extends :
    cautious.maxRetries ≤ insistent.maxRetries ∧
      OperationKind.rank .write cautious.writePolicy ≤ OperationKind.rank .write insistent.writePolicy ∧
      (runBusy cautious).1 = .error (.timeout "lost") ∧ (runBusy insistent).1 = .ok () ∧
      (runBusy cautious).2.2.store.notes.length = 4 ∧ (runBusy insistent).2.2.store.notes.length = 8 ∧
      (runBusy cautious).2.2.store.notes <+: (runBusy insistent).2.2.store.notes := by
  have hmost : cautious.maxRetries ≤ insistent.maxRetries := by decide
  have hrank : OperationKind.rank .write cautious.writePolicy ≤ OperationKind.rank .write insistent.writePolicy := by
    decide
  obtain ⟨hbegins, -, -⟩ := run_extends hmost hrank "put" "put" (Timed.scripted busy) 0 0
    (w := fromStart) (v := fromStart) rfl
  exact ⟨hmost, hrank, rfl, rfl, rfl, rfl, hbegins⟩

end RetryPolicy
end ObjectStorage
