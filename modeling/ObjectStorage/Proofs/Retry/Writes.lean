import ObjectStorage.Proofs.Retry.Runs
import ObjectStorage.Proofs.Work.Recorded

/-! # Writes are applied at most once

Unless writes are always repeated, a write is repeated only after the store refused it. So of all the
calls of a write only the last one can have been carried out.
-/
namespace ObjectStorage

variable {σ : Type}

namespace StorageError

/-- The store answered that it did not carry a request out, and that it may do so later. -/
def IsRefusal (e : StorageError) : Prop :=
  e.errorClass = .transient ∧ ∃ code message status, e = .service code message status

theorem isRefusal_of_unambiguous {e : StorageError} (hclass : e.errorClass = .transient)
    (hclear : e.isAmbiguous = false) : e.IsRefusal := by
  refine ⟨hclass, ?_⟩
  cases e with
  | service code message status => exact ⟨code, message, status, rfl⟩
  | timeout reason => cases hclear
  | network reason => cases hclear
  | invalidResponse reason => cases hclear
  | construction reason => cases hclass
  | config reason => cases hclass
  | tooManyPages pages => cases hclass
  | aborted reason => cases hclass

end StorageError

namespace RetryPolicy

theorem isRefusal_of_retries {p : RetryPolicy} (hp : p.writePolicy ≠ .always) {e : StorageError}
    (h : p.retries .write e = true) : p.writePolicy ≠ .never ∧ e.IsRefusal := by
  simp only [retries, Bool.and_eq_true, decide_eq_true_eq] at h
  obtain ⟨hclass, hrepeats⟩ := h
  cases hpolicy : p.writePolicy with
  | never => simp [hpolicy, WritePolicy.repeats] at hrepeats
  | unambiguous =>
    refine ⟨by simp, StorageError.isRefusal_of_unambiguous hclass ?_⟩
    simpa [hpolicy, WritePolicy.repeats] using hrepeats
  | always => exact absurd hpolicy hp

end RetryPolicy

/-- A count of how often a store applied what a request asks for: once by a call that succeeds, and not by one that
is answered with a service error. -/
structure Backend.Counts (b : Backend σ) (r : Request) (applied : σ → Nat) : Prop where
  once : ∀ now s, applied ((b.call r).run now s).2.2 ≤ applied s + 1
  confirmed : ∀ now s reply, ((b.call r).run now s).1 = .ok reply →
    applied ((b.call r).run now s).2.2 = applied s + 1
  refused : ∀ now s code message status,
    ((b.call r).run now s).1 = .error (.service code message status) →
      applied ((b.call r).run now s).2.2 = applied s

/-- So far the calls for a request were refused, and no count of its applications has changed. -/
structure Backend.Refused (b : Backend σ) (r : Request) (start m : Watched σ)
    (failures : List StorageError) : Prop where
  notes : m.notes = start.notes ++ failures.map fun e => (r, .error e)
  unapplied : ∀ applied, b.Counts r applied → applied m.store = applied start.store

theorem Backend.Refused.refuse {b : Backend σ} {r : Request} {start : Watched σ} {failures : List StorageError}
    {now : Nat} {w : World (Watched σ)} (h : b.Refused r start w.store failures) {e : StorageError}
    (he : e.IsRefusal) (hfail : ((World.onStore ((b.recorded outcomeNote).call r)).run now w).1 = .error e) :
    b.Refused r start ((World.onStore ((b.recorded outcomeNote).call r)).run now w).2.2.store
      (failures ++ [e]) := by
  rcases hcall : (b.call r).run now w.store.store with ⟨outcome, time, store⟩
  rw [run_onStore_recorded outcomeNote b r hcall] at hfail ⊢
  obtain rfl : outcome = .error e := hfail
  refine ⟨?_, ?_⟩
  · simp [h.notes, outcomeNote, Except.map]
  · intro applied hcounts
    obtain ⟨-, code, message, status, rfl⟩ := he
    have hrefused := hcounts.refused now w.store.store code message status (by rw [hcall])
    rw [hcall, h.unapplied applied hcounts] at hrefused
    exact hrefused

/-- The calls of a write under a cautious policy: refusals, and one call more with the outcome of the whole write. -/
theorem Client.run_write (c : Client σ) (hp : c.retry.writePolicy ≠ .always) (name : String)
    (r : Request) (now : Nat) (w : World (Watched σ)) :
    ∃ (failures : List StorageError) (outcome : Answer r) (time : Nat) (after : World (Watched σ)),
      (((c.recorded Backend.outcomeNote).request name .write r).bind (finish name)).run now w =
        (outcome, time, after) ∧
      after.store.notes = w.store.notes ++ failures.map (fun e => (r, .error e)) ++
        [(r, outcome.map fun _ => ())] ∧
      (∀ e ∈ failures, e.IsRefusal) ∧ failures.length ≤ c.retry.maxRetries ∧
      (c.retry.writePolicy = .never → failures = []) ∧
      ∀ applied, c.backend.Counts r applied →
        applied after.store.store ≤ applied w.store.store + 1 ∧
        (outcome.map (fun _ => ()) = .ok () → applied after.store.store = applied w.store.store + 1) := by
  have hstart : c.backend.Refused r w.store w.store [] := ⟨by simp, fun _ _ => rfl⟩
  obtain ⟨time, world, failures, hrun, hrefused, hretried, hlen, -⟩ :=
    RetryPolicy.run_attempts name (fun t v before e hv hfail hretry =>
      hv.refuse (RetryPolicy.isRefusal_of_retries hp hretry).2 hfail) c.retry.maxRetries now [] hstart
  -- All calls but the last one were refused; how that one ends is how the write ends.
  rcases hlast : (c.backend.call r).run time world.store.store with ⟨outcome, later, store⟩
  have hend := hrun.trans (Backend.run_onStore_recorded Backend.outcomeNote c.backend r hlast)
  obtain ⟨after, hfinish, hstore⟩ := run_finish name outcome later
    ({ world with store := ⟨store, world.store.notes ++ [Backend.outcomeNote r outcome]⟩ } : World (Watched σ))
  refine ⟨failures, outcome, later, after, ?_, ?_, ?_, hlen, ?_, ?_⟩
  · rw [Timed.run_bind]
    exact (congrArg (fun x => (finish name x.1).run x.2.1 x.2.2) hend).trans hfinish
  · rw [hstore, hrefused.notes]
    simp [Backend.outcomeNote]
  · intro e he
    exact (RetryPolicy.isRefusal_of_retries hp (hretried e he)).2
  · intro hnever
    refine List.eq_nil_iff_forall_not_mem.2 ?_
    intro e he
    exact (RetryPolicy.isRefusal_of_retries hp (hretried e he)).1 hnever
  · intro applied hcounts
    have honce := hcounts.once time world.store.store
    have hconfirmed := hcounts.confirmed time world.store.store
    simp only [hlast, hrefused.unapplied applied hcounts] at honce hconfirmed
    rw [hstore]
    refine ⟨honce, ?_⟩
    intro hok
    cases outcome with
    | ok reply => exact hconfirmed reply rfl
    | error e => cases hok

inductive Write where
  | put (key : String) (data : List UInt8)
  | delete (key : String)

namespace Write

def request : Write → Request
  | put key data => .put key data
  | delete key => .delete key

def perform (c : Client σ) : Write → Timed (World σ) (Except StorageError Unit)
  | put key data => c.put key data
  | delete key => c.delete key

/-- A write of a client that does not always repeat writes. Each call but the last one failed with a transient
service error, and the last one ended as the write did. So the write is applied at most once, and once if it
succeeds. -/
theorem applied_at_most_once (c : Client σ) (hp : c.retry.writePolicy ≠ .always) (wr : Write) (now : Nat)
    (w : World (Watched σ)) :
    ∃ (failures : List StorageError) (outcome : Except StorageError Unit) (time : Nat)
      (after : World (Watched σ)),
      (wr.perform (c.recorded Backend.outcomeNote)).run now w = (outcome, time, after) ∧
      after.store.notes = w.store.notes ++ failures.map (fun e => (wr.request, .error e)) ++
        [(wr.request, outcome)] ∧
      (∀ e ∈ failures, e.IsRefusal) ∧ failures.length ≤ c.retry.maxRetries ∧
      (c.retry.writePolicy = .never → failures = []) ∧
      ∀ applied, c.backend.Counts wr.request applied →
        applied after.store.store ≤ applied w.store.store + 1 ∧
        (outcome = .ok () → applied after.store.store = applied w.store.store + 1) := by
  have hunit (outcome : Except StorageError Unit) : outcome.map (fun _ => ()) = outcome :=
    congrFun Except.map_id outcome
  cases wr with
  | put key data =>
    have hrun := c.run_write hp "put" (.put key data) now w
    simp only [hunit] at hrun
    exact hrun
  | delete key =>
    have hrun := c.run_write hp "delete" (.delete key) now w
    simp only [hunit] at hrun
    exact hrun

end Write

/-- A store that refuses or fails as it is told and then succeeds. A write whose failure is ambiguous was
applied all the same. -/
structure Journal where
  failures : List StorageError
  applied : Nat := 0

namespace Journal

def write (j : Journal) : Except StorageError Unit × Journal :=
  match j.failures with
  | [] => (.ok (), { j with applied := j.applied + 1 })
  | e :: rest => (.error e, ⟨rest, if e.isAmbiguous then j.applied + 1 else j.applied⟩)

def backend : Backend Journal where
  call
    | .put _ _ | .delete _ => .modifyGet write
    | .get key => return .error (.noSuchKey key)
    | .page _ _ _ => return .ok {}

theorem counts_put (key : String) (data : List UInt8) : backend.Counts (.put key data) applied where
  once now j := by
    simp only [backend, Timed.modifyGet, Timed.run, write]
    split
    · exact Nat.le_refl _
    · dsimp only
      split <;> omega
  confirmed now j reply hok := by
    rcases j with ⟨failures, applied⟩
    cases failures with
    | nil => rfl
    | cons e rest => cases hok
  refused now j code message status herr := by
    rcases j with ⟨failures, applied⟩
    cases failures with
    | nil => cases herr
    | cons e rest =>
      cases herr
      rfl

def client : Client Journal := { backend := backend }

def losing : World (Watched Journal) where
  store := { store := { failures := [.service "SlowDown" none (some 503), .timeout "lost", .network "reset"] } }

theorem losing_applied : client.retry.writePolicy ≠ .always ∧ backend.Counts (.put "k" [1]) applied ∧
    ∃ time after, ((Write.put "k" [1]).perform (client.recorded Backend.outcomeNote)).run 0 losing =
        (.error (.timeout "lost"), time, after) ∧
      after.store.notes.length = 2 ∧ after.store.store.applied ≤ 1 := by
  have hp : client.retry.writePolicy ≠ .always := by decide
  have hcounts : backend.Counts (.put "k" [1]) applied := counts_put "k" [1]
  obtain ⟨failures, outcome, time, after, hrun, hnotes, -, -, -, happlied⟩ :=
    Write.applied_at_most_once client hp (.put "k" [1]) 0 losing
  obtain rfl : .error (.timeout "lost") = outcome := congrArg Prod.fst hrun
  have hlength : after.store.notes.length = 2 :=
    (congrArg (fun x => x.2.2.store.notes.length) hrun).symm
  exact ⟨hp, hcounts, time, after, hrun, hlength, (happlied applied hcounts).1⟩

end Journal
end ObjectStorage
