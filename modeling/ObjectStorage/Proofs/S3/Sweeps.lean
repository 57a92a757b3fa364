import ObjectStorage.Proofs.Hedging.Unhedged
import ObjectStorage.Proofs.Retry.Runs
import ObjectStorage.Proofs.S3.Progress

/-! # Sweeps of reads

A read asks the buckets in their order until one says anything but that it does not have the key. That is a
sweep. A sweep that ends with a transient failure is made again from the first bucket, as often as there are
retries.
-/
namespace ObjectStorage.S3

variable {σ : Type}

/-- What a sweep of so many buckets hears: some of them do not have the key, and the answer of the next one
settles it, or there is no other to ask. -/
structure Sweep (count : Nat) where
  missing : List StorageError
  answer : Except StorageError Fetched
  missed : ∀ e ∈ missing, e.errorClass = .notFound
  asked : missing.length < count
  settled : ∀ e, answer = .error e → e.errorClass = .notFound → missing.length + 1 = count

namespace Sweep

def answers {count : Nat} (s : Sweep count) : List (Except StorageError Fetched) :=
  s.missing.map .error ++ [s.answer]

def calls {names : List String} (key : String) (s : Sweep names.length) : List BucketCall :=
  names.zipWith (fun name answer => ⟨name, .get key, answer⟩) s.answers

def IsTransient {count : Nat} (s : Sweep count) : Prop :=
  ∃ e, s.answer = .error e ∧ e.errorClass = .transient

def single {count : Nat} (answer : Except StorageError Fetched) (hcount : 0 < count)
    (hsettled : ∀ e, answer = .error e → e.errorClass = .notFound → count = 1) : Sweep count where
  missing := []
  answer := answer
  missed := by simp
  asked := hcount
  settled e he hclass := by simp [hsettled e he hclass]

def after {count : Nat} (e : StorageError) (he : e.errorClass = .notFound) (s : Sweep count) : Sweep (count + 1) where
  missing := e :: s.missing
  answer := s.answer
  missed := by simpa [he] using s.missed
  asked := Nat.succ_lt_succ s.asked
  settled e' he' hclass := by simp [s.settled e' he' hclass]

end Sweep

theorem Sweep.exists_calls {names : List String} (key : String) (s : Sweep names.length) :
    ∃ before name rest, names = before ++ name :: rest ∧ before.length = s.missing.length ∧
      s.calls key = before.zipWith (fun name e => ⟨name, .get key, .error e⟩) s.missing ++
        [⟨name, .get key, s.answer⟩] := by
  have hasked := s.asked
  have hsplit :
      names.take s.missing.length ++ names[s.missing.length] :: names.drop (s.missing.length + 1) = names := by
    rw [← List.drop_eq_getElem_cons hasked, List.take_append_drop]
  have hlength : (names.take s.missing.length).length = s.missing.length :=
    List.length_take_of_le (Nat.le_of_lt hasked)
  refine ⟨_, _, _, hsplit.symm, hlength, ?_⟩
  calc s.calls key
    _ = (names.take s.missing.length ++ names[s.missing.length] :: names.drop (s.missing.length + 1)).zipWith
        (fun name answer => (⟨name, .get key, answer⟩ : BucketCall)) (s.missing.map .error ++ [s.answer]) := by
      rw [hsplit]
      rfl
    _ = _ := by
      rw [List.zipWith_append (by simpa using hlength), List.zipWith_map_right, List.zipWith_cons_cons,
        List.zipWith_nil_right]

theorem Sweep.exists_missing {names : List String} (key : String) (s : Sweep names.length) {e : StorageError}
    (hanswer : s.answer = .error e) (he : e.errorClass = .notFound) :
    ∃ failures : List StorageError, failures.length = names.length ∧ failures.getLast? = some e ∧
      (∀ f ∈ failures, f.errorClass = .notFound) ∧
      s.calls key = names.zipWith (fun name f => ⟨name, .get key, .error f⟩) failures := by
  refine ⟨s.missing ++ [e], by simpa using s.settled e hanswer he, by simp, ?_, ?_⟩
  · intro f hf
    rcases List.mem_append.1 hf with hf | hf
    · exact s.missed f hf
    · rw [List.mem_singleton.1 hf, he]
  · have hanswers : s.answers = (s.missing ++ [e]).map .error := by simp [answers, hanswer]
    rw [calls, hanswers, List.zipWith_map_right]

theorem Sweep.goes_on_iff {count most : Nat} {retried : List (Sweep count)} {last : Sweep count}
    (htransient : ∀ s ∈ retried, s.IsTransient) (hlength : retried.length ≤ most)
    (hlast : retried.length < most → ¬last.IsTransient) (i : Nat) {s : Sweep count}
    (hs : (retried ++ [last])[i]? = some s) : i < retried.length ↔ s.IsTransient ∧ i < most := by
  rw [List.getElem?_append] at hs
  split at hs
  · rename_i hlt
    exact ⟨fun _ => ⟨htransient s (List.mem_of_getElem? hs), by omega⟩, fun _ => hlt⟩
  · rename_i hge
    obtain ⟨hzero, rfl⟩ : i - retried.length = 0 ∧ last = s := by simpa [List.getElem?_singleton] using hs
    obtain rfl : i = retried.length := by omega
    exact ⟨fun hlt => absurd hlt hge, fun ⟨hlater, hlt⟩ => absurd hlater (hlast hlt)⟩

def attemptGet (names : List String) (bucket : String → Backend σ) (steps : Nat) (key : String) :
    Timed (World (Recorded BucketCall σ)) (Except StorageError Fetched) :=
  World.onStore ((Buckets.watched names bucket steps).call (.get key))

/-- So far certain sweeps were made, and failed in certain ways. -/
def Swept (names : List String) (key : String) (before : List BucketCall) (m : Recorded BucketCall σ)
    (failures : List StorageError) : Prop :=
  ∃ sweeps : List (Sweep names.length), sweeps.map Sweep.answer = failures.map .error ∧
    m.notes = before ++ sweeps.flatMap (Sweep.calls key)

section Reads
variable {names : List String} (bucket : String → Backend σ) (steps : Nat) (key : String)

theorem run_get_recorded (name : String) (now : Nat) (m : Recorded BucketCall σ) :
    ∃ answer time store,
      (((bucket name).recorded fun r answer => (⟨name, r, answer⟩ : BucketCall)).call (.get key)).run now m =
        (answer, time, ⟨store, m.notes ++ [⟨name, .get key, answer⟩]⟩) :=
  ⟨_, _, _, Backend.run_recorded _ (bucket name) (.get key) now m⟩

theorem run_sweep (hnames : names ≠ []) (last : StorageError) (now : Nat) (m : Recorded BucketCall σ) :
    ∃ (s : Sweep names.length) (time : Nat) (store : σ),
      (Buckets.sweep (fun name => ((bucket name).recorded fun r answer => (⟨name, r, answer⟩ : BucketCall)).call
        (.get key)) names last).run now m = (s.answer, time, ⟨store, m.notes ++ s.calls key⟩) := by
  -- On the buckets that are left, whatever the ones before them answered.
  induction names generalizing last now m with
  | nil => exact absurd rfl hnames
  | cons name rest ih =>
    obtain ⟨answer, time, store, hread⟩ := run_get_recorded bucket key name now m
    simp only [Buckets.sweep, Timed.bind_eq, Timed.run_bind, hread]
    by_cases hmissing : rest ≠ [] ∧ ∃ e, answer = .error e ∧ e.errorClass = .notFound
    · obtain ⟨hrest, e, rfl, he⟩ := hmissing
      obtain ⟨s, later, store', hsweep⟩ := ih hrest e time ⟨store, m.notes ++ [⟨name, .get key, .error e⟩]⟩
      refine ⟨s.after e he, later, store', ?_⟩
      simp only [he, ↓reduceIte, hsweep, List.append_assoc]
      rfl
    · have hsettled : ∀ e, answer = .error e → e.errorClass = .notFound → (name :: rest).length = 1 := by
        intro e he hclass
        by_contra hlength
        exact hmissing ⟨fun hrest => hlength (by simp [hrest]), e, he, hclass⟩
      refine ⟨.single answer (Nat.succ_pos _) hsettled, time, store, ?_⟩
      cases answer with
      | ok found => simp [Sweep.single, Sweep.calls, Sweep.answers, Timed.run]
      | error e =>
        by_cases he : e.errorClass = .notFound
        · obtain rfl : rest = [] := List.length_eq_zero_iff.1 (by simpa using hsettled e rfl he)
          simp [he, Buckets.sweep, Sweep.single, Sweep.calls, Sweep.answers, Timed.run]
        · simp [he, Sweep.single, Sweep.calls, Sweep.answers, Timed.run]

theorem run_attemptGet (hnames : names ≠ []) (now : Nat) (w : World (Recorded BucketCall σ)) :
    ∃ (s : Sweep names.length) (time : Nat) (store : σ), (attemptGet names bucket steps key).run now w =
      (s.answer, time, { w with store := ⟨store, w.store.notes ++ s.calls key⟩ }) := by
  obtain ⟨s, time, store, hsweep⟩ := run_sweep bucket key hnames (.noSuchKey key) now w.store
  refine ⟨s, time, store, ?_⟩
  rw [attemptGet, World.run_onStore]
  simp only [Buckets.watched, Buckets.backend, hsweep]

theorem Swept.step (hnames : names ≠ []) {before : List BucketCall} {failures : List StorageError} {now : Nat}
    {w : World (Recorded BucketCall σ)} (h : Swept names key before w.store failures) {e : StorageError}
    (hfail : ((attemptGet names bucket steps key).run now w).1 = .error e) :
    Swept names key before ((attemptGet names bucket steps key).run now w).2.2.store (failures ++ [e]) := by
  obtain ⟨retried, hanswers, hnotes⟩ := h
  obtain ⟨s, time, store, hrun⟩ := run_attemptGet bucket steps key hnames now w
  rw [hrun] at hfail ⊢
  have hanswer : s.answer = .error e := hfail
  exact ⟨retried ++ [s], by simp [hanswers, hanswer], by simp [hnotes]⟩

theorem run_get_sweeps (hnames : names ≠ []) (retry : RetryPolicy) (now : Nat) (w : World (Recorded BucketCall σ)) :
    ∃ (retried : List (Sweep names.length)) (last : Sweep names.length) (time : Nat)
      (after : World (Recorded BucketCall σ)),
      (retry.run "get" .read (attemptGet names bucket steps key)).run now w = (last.answer, time, after) ∧
      after.store.notes = w.store.notes ++ (retried ++ [last]).flatMap (Sweep.calls key) ∧
      (∀ s ∈ retried, s.IsTransient) ∧ retried.length ≤ retry.maxRetries ∧
      (retried.length < retry.maxRetries → ¬last.IsTransient) := by
  obtain ⟨time, world, failures, hrun, ⟨retried, hanswers, hnotes⟩, hall, hlength, hlast⟩ :=
    RetryPolicy.run_attempts (w := w) (P := Swept names key w.store.notes) "get"
      (fun now v failures e h hfail _ => h.step bucket steps key hnames hfail) retry.maxRetries now []
      ⟨[], rfl, by simp⟩
  obtain ⟨last, later, store, hsweep⟩ := run_attemptGet bucket steps key hnames time world
  rw [List.nil_append] at hanswers
  have hcount : retried.length = failures.length := by simpa using congrArg List.length hanswers
  refine ⟨retried, last, later, _, hrun.trans hsweep, by simp [hnotes], ?_, hcount.trans_le hlength, ?_⟩
  · intro s hs
    obtain ⟨e, he, hanswer⟩ := List.mem_map.1 (hanswers ▸ List.mem_map_of_mem hs)
    exact ⟨e, hanswer.symm, by simpa [RetryPolicy.retries] using hall e he⟩
  · rintro hlt ⟨e, hanswer, hclass⟩
    have hstop := hlast (hcount ▸ hlt) e (by rw [hsweep, hanswer])
    simp [RetryPolicy.retries, hclass] at hstop

end Reads

/-- A read of several buckets that is not hedged, whatever these answer and however they change, is one sweep after
the other. Another one follows exactly if a sweep ends with a transient failure and there are retries left, and the
read ends as the last one does. -/
theorem get_sweeps (names : List String) (hnames : names ≠ []) (bucket : String → Backend σ) (retry : RetryPolicy)
    (hedging : HedgePolicy) (hoff : hedging.enabled = false) (maxPages : Nat) (key : String)
    (s : Session (Recorded BucketCall σ)) : ∃ most, ∀ steps ≥ most,
      let c : Client (Recorded BucketCall σ) :=
        { retry := retry, hedging := hedging, maxPages := maxPages, backend := Buckets.watched names bucket steps }
      ∃ (retried : List (Sweep names.length)) (last : Sweep names.length) (after : Session (Recorded BucketCall σ)),
        s.get c key = (some last.answer, after) ∧
        after.shared.world.store.notes =
          s.shared.world.store.notes ++ (retried ++ [last]).flatMap (Sweep.calls key) ∧
        (∀ i sweep, (retried ++ [last])[i]? = some sweep →
          (i < retried.length ↔ sweep.IsTransient ∧ i < retry.maxRetries)) ∧
        (∀ e, last.answer = .error e → e.errorClass = .notFound →
          ∃ failures : List StorageError, failures.length = names.length ∧ failures.getLast? = some e ∧
            (∀ f ∈ failures, f.errorClass = .notFound) ∧
            last.calls key = names.zipWith (fun name f => ⟨name, .get key, .error f⟩) failures) ∧
        ∀ found, last.answer = .ok found →
          ∃ (before : List String) (name : String) (rest : List String) (failures : List StorageError),
            names = before ++ name :: rest ∧ failures.length = before.length ∧
            (∀ f ∈ failures, f.errorClass = .notFound) ∧
            last.calls key = before.zipWith (fun name f => ⟨name, .get key, .error f⟩) failures ++
              [⟨name, .get key, .ok found⟩] := by
  let c : Client (Recorded BucketCall σ) :=
    { retry := retry, hedging := hedging, maxPages := maxPages, backend := Buckets.watched names bucket 0 }
  obtain ⟨most, hget⟩ := Session.get_unhedged c hoff key s
  refine ⟨most, fun steps hwaits => ?_⟩
  have hwaits : names.length * steps ≥ most :=
    hwaits.trans (Nat.le_mul_of_pos_left _ (List.length_pos_iff.2 hnames))
  obtain ⟨retried, last, time, after, hrun, hnotes, htransient, hlength, hlast⟩ :=
    run_get_sweeps bucket 0 key hnames retry s.now s.shared.world
  have hperformed : Session.perform (c.readAttempt key >>= Client.finish "get") s =
      (last.answer, ⟨{ s.shared with world := ((Client.finish "get" last.answer).run time after).2.2 }, time⟩) := by
    rw [Session.perform, Timed.bind_eq, Timed.run_bind]
    have hread : (c.readAttempt key).run s.now s.shared.world = (last.answer, time, after) := hrun
    rw [hread]
    rfl
  refine ⟨retried, last, _, (hget _ hwaits).trans (by rw [hperformed]), hnotes,
    fun i sweep => Sweep.goes_on_iff htransient hlength hlast i, fun e => last.exists_missing key, ?_⟩
  intro found hfound
  obtain ⟨before, name, rest, hnames, hbefore, hcalls⟩ := last.exists_calls key
  exact ⟨before, name, rest, last.missing, hnames, hbefore.symm, last.missed, hfound ▸ hcalls⟩

def answering : Backend (List (Except StorageError Fetched)) where
  call
    | .get key => .modifyGet fun answers => (answers.headD (.error (.noSuchKey key)), answers.tail)
    | .page _ _ _ => return .ok {}
    | .put _ _ | .delete _ => return .ok ()

def askedTwice : Session (Recorded BucketCall (List (Except StorageError Fetched))) where
  shared := {
    world := { store := { store :=
      [.error (.noSuchKey "k"), .error (.timeout "slow"), .error (.noSuchKey "k"), .ok ⟨[7], 1⟩] } }
    limiter := .unlimited }

def twoBucketReader (steps : Nat) : Client (Recorded BucketCall (List (Except StorageError Fetched))) :=
  { backend := Buckets.watched ["west", "east"] (fun _ => answering) steps }

/-- The second of two buckets fails for the time being, and is asked again after the first one. -/
theorem get_sweeps_twice :
    let names := ["west", "east"]
    names ≠ [] ∧ (twoBucketReader 0).hedging.enabled = false ∧
    (askedTwice.get (twoBucketReader 0) "k").1 = some (.ok ⟨[7], 1⟩) ∧
    (askedTwice.get (twoBucketReader 0) "k").2.shared.world.store.notes.map BucketCall.name =
      ["west", "east", "west", "east"] ∧
    ∃ most, ∀ steps ≥ most, ∃ (retried : List (Sweep names.length)) (last : Sweep names.length),
      (askedTwice.get (twoBucketReader steps) "k").1 = some last.answer ∧
      (askedTwice.get (twoBucketReader steps) "k").2.shared.world.store.notes =
        (retried ++ [last]).flatMap (Sweep.calls "k") := by
  intro names
  have hnames : names ≠ [] := by decide
  have hoff : (twoBucketReader 0).hedging.enabled = false := rfl
  refine ⟨hnames, hoff, rfl, rfl, ?_⟩
  obtain ⟨most, hsweeps⟩ := get_sweeps names hnames (fun _ => answering) {} {} hoff 10000 "k" askedTwice
  refine ⟨most, fun steps hwaits => ?_⟩
  obtain ⟨retried, last, after, hget, hnotes, -⟩ := hsweeps steps hwaits
  have hget : askedTwice.get (twoBucketReader steps) "k" = (some last.answer, after) := hget
  refine ⟨retried, last, ?_, ?_⟩
  · rw [hget]
  · rw [hget]
    exact hnotes

end ObjectStorage.S3
