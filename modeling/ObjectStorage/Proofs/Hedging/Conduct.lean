import ObjectStorage.Proofs.Hedging.Endings
import ObjectStorage.Proofs.Work.Protocols

/-! # What hedged calls do to a store

Whatever holds of the work of a call, of what its attempts are still to do, goes on to hold while the call
is handled. If the attempts follow a protocol, then each event that happens to the call is a step of at most one
of them, and every end that an attempt comes to fits the protocol.
-/
namespace ObjectStorage.Hedging
open Race (Step History)

variable {σ τ γ α : Type}

/-- The same limiter, counters and draws beside another store. -/
def Shared.mapStore (f : σ → τ) (s : Shared σ) : Shared τ where
  world := { store := f s.world.store, metrics := s.world.metrics, draws := s.world.draws }
  limiter := s.limiter
  asks := s.asks
  horizon := s.horizon

namespace Call

/-- What holds of the work of a call, attempt by attempt: of those to come and of what is left of those
that run. -/
structure Holds (Q : Nat → Timed (World σ) (Except StorageError α) → Prop) (c : Call σ α) : Prop where
  upcoming : ∀ n, c.attempts.length ≤ n → Q n (c.attempt n)
  running : ∀ (i started due : Nat) (rest : Timed (World σ) (Except StorageError α)),
    c.attempts[i]? = some ⟨started, .running due rest⟩ → Q i rest

section Holds
variable {Q R : Nat → Timed (World σ) (Except StorageError α) → Prop} {c : Call σ α}

theorem Fresh.holds (h : c.Fresh) (hQ : ∀ n, Q n (c.attempt n)) : c.Holds Q :=
  ⟨fun n _ => hQ n, fun i started due rest hi => by simp [h.attempts] at hi⟩

theorem Holds.launch (h : c.Holds Q) (now : Nat) : (c.launch now).Holds Q := by
  refine ⟨fun n hn => h.upcoming n (by rw [length_launch] at hn; omega), ?_⟩
  intro i started due rest hi
  rcases Nat.lt_or_ge i c.attempts.length with hlt | hge
  · rw [Call.launch, List.getElem?_append_left hlt] at hi
    exact h.running i started due rest hi
  · have hlt := IsRunning.lt ⟨started, due, rest, hi⟩
    rw [length_launch] at hlt
    obtain rfl : i = c.attempts.length := by omega
    rw [Call.launch, List.getElem?_append_right hge] at hi
    simp only [Nat.sub_self, List.getElem?_cons_zero, Option.some.injEq, Attempt.mk.injEq,
      Standing.running.injEq] at hi
    obtain ⟨-, -, rfl⟩ := hi
    exact h.upcoming _ (Nat.le_refl _)

theorem Holds.stand (h : c.Holds Q) {i : Nat} {standing : Standing σ α} (hi : i < c.attempts.length)
    (hothers : ∀ j, j ≠ i → ∀ t, Q j t → R j t) (hnew : ∀ due rest, standing = .running due rest → R i rest) :
    (c.stand i standing).Holds R := by
  refine ⟨?_, ?_⟩
  · intro n hn
    rw [length_stand] at hn
    exact hothers n (by omega) _ (h.upcoming n hn)
  · intro j started due rest hj
    by_cases hij : i = j
    · subst hij
      simp only [Call.stand, List.getElem?_modify_eq, Option.map_eq_map, Option.map_eq_some_iff,
        Attempt.mk.injEq] at hj
      obtain ⟨a, -, -, hstanding⟩ := hj
      exact hnew due rest hstanding
    · rw [Call.stand, List.getElem?_modify_ne _ _ hij] at hj
      exact hothers j (Ne.symm hij) rest (h.running j started due rest hj)

theorem Holds.finish (h : c.Holds Q) (now : Nat) (closing : Closing α) : (c.finish now closing).Holds Q :=
  ⟨fun n hn => h.upcoming n (by rwa [length_finish] at hn),
    fun _ started due rest hi => absurd (IsRunning.isPending ⟨started, due, rest, hi⟩) not_isPending_finish⟩

theorem Holds.phase (h : c.Holds Q) (phase : Phase α) : Holds Q { c with phase := phase } :=
  ⟨h.upcoming, h.running⟩

theorem Holds.follow (h : c.Holds Q) (p : HedgePolicy) (now timer : Nat) (step : Step α) (s : Shared σ) :
    (c.follow p now timer step s).1.Holds Q :=
  follow_keeps (P := fun d => d.Holds Q) h (h.launch now) (fun _ closing h => h.finish now closing)
    (fun _ phase h => h.phase phase) p timer step s

theorem Holds.rest (h : c.Holds Q) {i : Nat} {standing : Standing σ α} (hi : i < c.attempts.length)
    (hidle : ∀ due rest, standing ≠ .running due rest) : (c.stand i standing).Holds Q :=
  h.stand hi (fun _ _ _ ht => ht) fun due rest heq => absurd heq (hidle due rest)

theorem Holds.handle (h : c.Holds Q)
    (hQ : ∀ i t w d next, Q i t → (t.advance w).1 = .waiting d next → Q i next) (p : HedgePolicy) (now : Nat)
    (e : Event) (s : Shared σ) : (c.handle p now e s).1.Holds Q := by
  refine handle_keeps (P := fun d => d.Holds Q) h (fun _ h => h.launch now) (fun _ closing h => h.finish now closing)
    (fun _ phase h => h.phase phase) ?_ ?_ ?_ p e
  · intro i started due later rest next d hat hwaits
    refine h.stand (IsRunning.lt ⟨_, _, _, hat⟩) (fun _ _ _ ht => ht) ?_
    rintro due' next' ⟨⟩
    exact hQ i rest s.world d next (h.running i started due rest hat) hwaits
  · intro i started due rest outcome hat
    exact h.rest (IsRunning.lt ⟨_, _, _, hat⟩) (by simp)
  · intro i started time outcome hat
    exact h.rest (isPending_of_unseen hat).lt fun due rest => Standing.ofOutcome_ne_running time due outcome rest

end Holds

theorem handle_eq (p : HedgePolicy) (now : Nat) (e : Event) (c : Call σ α) (s : Shared σ) :
    ∃ attempts phase, (c.handle p now e s).1 = { c with attempts := attempts, phase := phase } := by
  refine handle_keeps (P := fun d => ∃ attempts phase, d = { c with attempts := attempts, phase := phase })
    ⟨_, _, rfl⟩ ?_ ?_ ?_ (fun _ _ _ _ _ _ _ _ _ => ⟨_, _, rfl⟩) (fun _ _ _ _ _ _ => ⟨_, _, rfl⟩)
    (fun _ _ _ _ _ => ⟨_, _, rfl⟩) p e
  · rintro _ ⟨attempts, phase, rfl⟩
    exact ⟨_, _, rfl⟩
  · rintro _ closing ⟨attempts, phase, rfl⟩
    exact ⟨_, _, rfl⟩
  · rintro _ later ⟨attempts, phase, rfl⟩
    exact ⟨_, _, rfl⟩

theorem handle_attempt (p : HedgePolicy) (now : Nat) (e : Event) (c : Call σ α) (s : Shared σ) :
    (c.handle p now e s).1.attempt = c.attempt := by
  obtain ⟨attempts, phase, heq⟩ := handle_eq p now e c s
  rw [heq]

theorem handle_patience (p : HedgePolicy) (now : Nat) (e : Event) (c : Call σ α) (s : Shared σ) :
    (c.handle p now e s).1.patience = c.patience := by
  obtain ⟨attempts, phase, heq⟩ := handle_eq p now e c s
  rw [heq]

theorem follow_store (p : HedgePolicy) (now timer : Nat) (step : Step α) (c : Call σ α) (s : Shared σ) :
    (c.follow p now timer step s).2.world.store = s.world.store := by
  rw [follow_shared]
  cases step <;> rfl

theorem length_le_handle (p : HedgePolicy) (now : Nat) (e : Event) (c : Call σ α) (s : Shared σ) :
    c.attempts.length ≤ (c.handle p now e s).1.attempts.length := by
  refine handle_keeps (P := fun d => c.attempts.length ≤ d.attempts.length) (Nat.le_refl _) ?_ ?_ (fun _ _ h => h)
    (fun _ _ _ _ _ _ _ _ _ => by simp) (fun _ _ _ _ _ _ => by simp) (fun _ _ _ _ _ => by simp) p e
  · intro d h
    rw [length_launch]
    exact Nat.le_succ_of_le h
  · intro d closing h
    rwa [length_finish]

variable (P : Protocol σ γ) (post : γ → Except StorageError α → Prop)

def Obeys (stages : Nat → γ) (c : Call σ α) : Prop :=
  c.Holds fun n t => t.Follows P.onStore n post (stages n)

variable {P post} {stages : Nat → γ} {c : Call σ α}

theorem Obeys.of_fresh {start : γ} (h : c.Fresh)
    (hfollows : ∀ n, (c.attempt n).Follows P.onStore n post start) : c.Obeys P post fun _ => start :=
  h.holds hfollows

theorem Obeys.stand (h : c.Obeys P post stages) {i : Nat} (hi : c.IsRunning i) (g : γ) {standing : Standing σ α}
    (hnew : ∀ due rest, standing = .running due rest → rest.Follows P.onStore i post g) :
    (c.stand i standing).Obeys P post (Function.update stages i g) := by
  refine Holds.stand h hi.lt ?_ ?_
  · intro j hji t ht
    rwa [Function.update_of_ne hji]
  · intro due rest hrest
    rw [Function.update_self]
    exact hnew due rest hrest

theorem Obeys.advance (h : c.Obeys P post stages) {s : Shared σ} (hs : P.valid s.world.store) {i started due : Nat}
    {rest : Timed (World σ) (Except StorageError α)}
    {progress : Timed.Progress (World σ) (Except StorageError α)} {world : World σ}
    (hat : c.attempts[i]? = some ⟨started, .running due rest⟩)
    (hadv : rest.advance s.world = (progress, world)) : ∃ g,
      P.valid world.store ∧ P.step i (stages i) s.world.store g world.store ∧
      (∀ o, progress = .finished o → post g o) ∧
      ∀ d next, progress = .waiting d next → next.Follows P.onStore i post g := by
  have hstep := (h.running i started due rest hat).advance hs
  rwa [hadv] at hstep

def IsRacing (c : Call σ α) : Prop := ∃ race timer, c.phase = .racing race timer

/-- What an event does to a store, and the stages of the attempts after it: nothing, or one running attempt
makes a step, and if an attempt comes to its end it is that one. -/
inductive Stepped (P : Protocol σ γ) (post : γ → Except StorageError α → Prop) (c : Call σ α) (stages : Nat → γ)
    (store : σ) : (Nat → γ) → σ → History α → Prop
  | quiet {x : History α} (finishes : x.finishes = []) : Stepped P post c stages store stages store x
  | moved {i : Nat} {g : γ} {after : σ} {x : History α} (racing : c.IsRacing) (running : c.IsRunning i)
      (valid : P.valid after) (step : P.step i (stages i) store g after)
      (finishes : ∀ y ∈ x.finishes, y.attempt = i ∧ post g y.outcome) :
      Stepped P post c stages store (Function.update stages i g) after x

theorem Obeys.handle (h : c.Obeys P post stages) (p : HedgePolicy) (now : Nat) (e : Event) {s : Shared σ}
    (hs : P.valid s.world.store) : ∃ later, (c.handle p now e s).1.Obeys P post later ∧
      Stepped P post c stages s.world.store later (c.handle p now e s).2.world.store (c.record p now e s) := by
  have hmove := move_handle p now e c s
  generalize c.record p now e s = y at hmove ⊢
  generalize c.handle p now e s = r at hmove ⊢
  cases hmove with
  | idle => exact ⟨stages, h, .quiet rfl⟩
  | started hph => exact ⟨stages, (Holds.launch h now).phase _, .quiet rfl⟩
  | @continued race timer i due started rest next d world hph hat hwaits =>
    obtain ⟨g, hvalid, hstep, -, hnext⟩ := h.advance hs hat hwaits
    refine ⟨_, h.stand ⟨_, _, _, hat⟩ g ?_, .moved ⟨_, _, hph⟩ ⟨_, _, _, hat⟩ hvalid hstep (by simp)⟩
    rintro due next ⟨⟩
    exact hnext d _ rfl
  | @finished race timer i due started rest outcome world _ hph hat hends =>
    obtain ⟨g, hvalid, hstep, hpost, -⟩ := h.advance hs hat hends
    exact ⟨_, h.stand ⟨_, _, _, hat⟩ g (by simp),
      .moved ⟨_, _, hph⟩ ⟨_, _, _, hat⟩ hvalid hstep (by simpa using hpost outcome rfl)⟩
  | @observed race timer i time started outcome _ _ hat =>
    have hover := Holds.rest h (isPending_of_unseen hat).lt
      fun due rest => Standing.ofOutcome_ne_running time due outcome rest
    refine ⟨stages, Holds.follow hover p now timer _ s, ?_⟩
    rw [follow_store]
    exact .quiet (by simp)
  | @returned race timer i due started rest outcome world _ hph hat hends =>
    obtain ⟨g, hvalid, hstep, hpost, -⟩ := h.advance hs hat hends
    exact ⟨_, Holds.finish (h.stand ⟨_, _, _, hat⟩ g (by simp)) now _,
      .moved ⟨_, _, hph⟩ ⟨_, _, _, hat⟩ hvalid hstep (by simpa using hpost outcome rfl)⟩
  | @fired race timer hp hph =>
    refine ⟨stages, Holds.follow h p now timer _ s, ?_⟩
    rw [follow_store]
    exact .quiet (by simp)
  | dropped hph => exact ⟨stages, Holds.finish h now .dropped, .quiet rfl⟩

end Call
end ObjectStorage.Hedging
