import ObjectStorage.Proofs.Listing.Trails
import ObjectStorage.Proofs.Retry.Runs
import ObjectStorage.Proofs.Work.Recorded

/-! # Retries of listings

Requests for pages fail by a script. A listing that has retries enough for each of its pages comes out as it
does without failures, and else it fails with the last failure of the first page that has not.
-/
namespace ObjectStorage

variable {σ α : Type}

/-! ## Scripts of failures -/

abbrev Script : Type := Nat → Option StorageError

namespace Script
variable (faults : Script)

/-- The failures from a request on up to the next one that does not fail, but so many at most. -/
def failures : Nat → Nat → List StorageError
  | 0, _ => []
  | most + 1, n =>
    match faults n with
    | some e => e :: failures most (n + 1)
    | none => []

/-- The first request for the page after the one that a request asks for first. -/
def next (retries n : Nat) : Nat := n + (faults.failures (retries + 1) n).length + 1

def position (retries : Nat) : Nat → Nat → Nat
  | n, 0 => n
  | n, i + 1 => position retries (faults.next retries n) i

/-- The page is asked for until there is an answer, and that takes no more retries than there are. -/
def Spares (retries n : Nat) : Prop := (faults.failures (retries + 1) n).length ≤ retries

instance (retries n : Nat) : Decidable (faults.Spares retries n) := inferInstanceAs (Decidable (_ ≤ _))

/-- Requests as they are made: each of them as often as it fails, and once more. -/
def repeated (retries : Nat) : Nat → List Request → List Request
  | _, [] => []
  | n, r :: rest =>
    List.replicate ((faults.failures (retries + 1) n).length + 1) r ++ repeated retries (faults.next retries n) rest

theorem failures_none {n : Nat} (h : faults n = none) (most : Nat) : faults.failures most n = [] := by
  cases most with
  | zero => rfl
  | succ most => simp [failures, h]

theorem failures_some {n : Nat} {e : StorageError} (h : faults n = some e) (most : Nat) :
    faults.failures (most + 1) n = e :: faults.failures most (n + 1) := by
  simp [failures, h]

end Script

def Backend.faulted (faults : Script) (b : Backend σ) : Backend (Recorded Request σ) where
  call r := do
    let number ← Timed.modifyGet fun m => (m.notes.length, { m with notes := m.notes ++ [r] })
    match faults number with
    | some e => return .error e
    | none => (b.call r).within Recorded.store fun s m => { m with store := s }
  steps := b.steps + 1

def Client.faulted (faults : Script) (c : Client σ) : Client (Recorded Request σ) :=
  { retry := c.retry, hedging := c.hedging, maxPages := c.maxPages, backend := c.backend.faulted faults }

section Requests
variable {faults : Script} {b : Backend σ} {r : Request} {s : σ} {notes : List Request}

theorem Backend.run_faulted_some {e : StorageError} (he : faults notes.length = some e) (now : Nat)
    {w : World (Recorded Request σ)} (hw : w.store = ⟨s, notes⟩) :
    (World.onStore ((b.faulted faults).call r)).run now w = (.error e, now, { w with store := ⟨s, notes ++ [r]⟩ }) := by
  rw [World.run_onStore, hw]
  simp only [faulted, Timed.bind_eq, Timed.run_bind, Timed.modifyGet, Timed.run, he]
  rfl

theorem Backend.run_faulted_none (hnone : faults notes.length = none) (now : Nat) {w : World (Recorded Request σ)}
    (hw : w.store = ⟨s, notes⟩) : (World.onStore ((b.faulted faults).call r)).run now w =
      (((b.call r).run now s).1, ((b.call r).run now s).2.1,
        { w with store := ⟨((b.call r).run now s).2.2, notes ++ [r]⟩ }) := by
  rw [World.run_onStore, hw]
  simp only [faulted, Timed.bind_eq, Timed.run_bind, Timed.modifyGet, Timed.run, hnone, Recorded.run_within]

variable {p : RetryPolicy}

theorem RetryPolicy.retries_read {e : StorageError} : p.retries .read e = true ↔ e.errorClass = .transient := by
  simp [retries]

theorem RetryPolicy.run_attempts_answered (faults : Script) (hnone : faults notes.length = none)
    (hanswer : ∀ e, ((b.call r).run 0 s).1 = .error e → e.errorClass ≠ .transient) (name : String) (left now : Nat)
    {w : World (Recorded Request σ)} (hw : w.store = ⟨s, notes⟩) :
    ∃ time world, (p.attempts name .read (World.onStore ((b.faulted faults).call r)) left).run now w =
        (((b.call r).run 0 s).1, time, world) ∧
      world.store = ⟨((b.call r).run 0 s).2.2, notes ++ [r]⟩ := by
  have hrun := Backend.run_faulted_none (b := b) (r := r) hnone now hw
  obtain ⟨hsame, hstore⟩ := (b.call r).run_at 0 now s
  rw [hsame, hstore] at hrun
  have hstop : ∀ e, ((World.onStore ((b.faulted faults).call r)).run now w).1 = .error e →
      p.retries .read e = false := by
    intro e he
    rw [hrun] at he
    exact Bool.eq_false_iff.2 fun hretry => hanswer e he (retries_read.1 hretry)
  exact ⟨_, _, (run_attempts_stop name hstop).trans hrun, rfl⟩

theorem RetryPolicy.run_attempts_faulted (htransient : ∀ n e, faults n = some e → e.errorClass = .transient)
    (hanswer : ∀ e, ((b.call r).run 0 s).1 = .error e → e.errorClass ≠ .transient) (name : String) (left now : Nat)
    {w : World (Recorded Request σ)} (hw : w.store = ⟨s, notes⟩) :
    ∃ answer time world, (p.attempts name .read (World.onStore ((b.faulted faults).call r)) left).run now w =
        (answer, time, world) ∧
      (((faults.failures (left + 1) notes.length).length ≤ left ∧ answer = ((b.call r).run 0 s).1 ∧
          world.store = ⟨((b.call r).run 0 s).2.2,
            notes ++ List.replicate ((faults.failures (left + 1) notes.length).length + 1) r⟩) ∨
        ∃ e, (faults.failures (left + 1) notes.length).length = left + 1 ∧ faults (notes.length + left) = some e ∧
          answer = .error e ∧ world.store = ⟨s, notes ++ List.replicate (left + 1) r⟩) := by
  induction left generalizing now w notes with
  | zero =>
    cases hfault : faults notes.length with
    | none =>
      obtain ⟨time, world, hrun, hstore⟩ := run_attempts_answered (p := p) faults hfault hanswer name 0 now hw
      exact ⟨_, time, world, hrun, .inl (by simp [faults.failures_none hfault, hstore])⟩
    | some e =>
      refine ⟨_, _, _, Backend.run_faulted_some hfault now hw, .inr ⟨e, ?_, rfl, rfl, rfl⟩⟩
      rw [faults.failures_some hfault]
      rfl
  | succ left ih =>
    cases hfault : faults notes.length with
    | none =>
      obtain ⟨time, world, hrun, hstore⟩ := run_attempts_answered (p := p) faults hfault hanswer name (left + 1) now hw
      exact ⟨_, time, world, hrun, .inl (by simp [faults.failures_none hfault, hstore])⟩
    | some e =>
      have hrun := Backend.run_faulted_some (b := b) (r := r) hfault now hw
      have hretry : p.retries .read e = true := retries_read.2 (htransient _ e hfault)
      have hfail : ((World.onStore ((b.faulted faults).call r)).run now w).1 = .error e := by rw [hrun]
      obtain ⟨time, world, hstore, hagain⟩ := run_attempts_retry name left hfail hretry
      rw [hrun] at hstore
      obtain ⟨answer, later, after, hlater, hends⟩ := ih time hstore
      rw [List.length_append, List.length_singleton] at hends
      refine ⟨answer, later, after, hagain.trans hlater, ?_⟩
      simp only [faults.failures_some hfault, List.length_cons, List.append_assoc, List.singleton_append,
        ← List.replicate_succ] at hends ⊢
      rcases hends with ⟨hle, hends⟩ | ⟨e', hlength, hlast, hends⟩
      · exact .inl ⟨Nat.succ_le_succ hle, hends⟩
      · refine .inr ⟨e', by rw [hlength], ?_, hends⟩
        rw [← hlast]
        congr 1
        omega

end Requests

/-- How a listing comes out whose requests fail by a script, beside the same listing without failures. It comes out
the same if retries spare each page asked for; the first page that they do not spare makes it fail as it did last.
-/
structure Shadows (faults : Script) (retries : Nat) (notes asked : List Request)
    (clean faulty : Option (Except StorageError Listing) × Recorded Request σ) : Prop where
  spared : (∀ i < asked.length, faults.Spares retries (faults.position retries notes.length i)) →
    faulty.1 = clean.1 ∧ faulty.2.store = clean.2.store ∧
      faulty.2.notes = notes ++ faults.repeated retries notes.length asked
  failed : ∀ i r, asked[i]? = some r → (∀ j < i, faults.Spares retries (faults.position retries notes.length j)) →
    ¬faults.Spares retries (faults.position retries notes.length i) →
    ∃ e, faults (faults.position retries notes.length i + retries) = some e ∧ faulty.1 = some (.error e) ∧
      faulty.2.notes =
        notes ++ faults.repeated retries notes.length (asked.take i) ++ List.replicate (retries + 1) r

section Listings
variable {faults : Script} {retries : Nat} {notes asked : List Request} {r : Request}
variable {clean faulty : Option (Except StorageError Listing) × Recorded Request σ}

theorem Shadows.nil (houtcome : faulty.1 = clean.1) (hstore : faulty.2.store = clean.2.store)
    (hnotes : faulty.2.notes = notes) : Shadows faults retries notes [] clean faulty where
  spared _ := ⟨houtcome, hstore, by simp [hnotes, Script.repeated]⟩
  failed i r hi := by simp at hi

theorem Shadows.cons (hspares : faults.Spares retries notes.length)
    (h : Shadows faults retries
      (notes ++ List.replicate ((faults.failures (retries + 1) notes.length).length + 1) r) asked clean faulty) :
    Shadows faults retries notes (r :: asked) clean faulty := by
  have hnext : (notes ++ List.replicate ((faults.failures (retries + 1) notes.length).length + 1) r).length =
      faults.next retries notes.length := by
    simp [Script.next, Nat.add_assoc]
  obtain ⟨hspared, hfailed⟩ := h
  rw [hnext] at hspared hfailed
  refine ⟨?_, ?_⟩
  · intro hall
    obtain ⟨houtcome, hstore, hnotes⟩ := hspared fun i hi => hall (i + 1) (Nat.succ_lt_succ hi)
    exact ⟨houtcome, hstore, by rw [hnotes, List.append_assoc, Script.repeated]⟩
  · intro i r' hi hbefore hnot
    cases i with
    | zero => exact absurd hspares hnot
    | succ i =>
      obtain ⟨e, he, houtcome, hnotes⟩ := hfailed i r' hi (fun j hj => hbefore (j + 1) (Nat.succ_lt_succ hj)) hnot
      refine ⟨e, he, houtcome, ?_⟩
      rw [hnotes, List.take_succ_cons, Script.repeated]
      simp only [List.append_assoc]

theorem Shadows.cut {e : StorageError} (hnot : ¬faults.Spares retries notes.length)
    (he : faults (notes.length + retries) = some e) (houtcome : faulty.1 = some (.error e))
    (hnotes : faulty.2.notes = notes ++ List.replicate (retries + 1) r) :
    Shadows faults retries notes (r :: asked) clean faulty where
  spared hall := absurd (hall 0 (Nat.succ_pos _)) hnot
  failed i r' hi hbefore hi' := by
    cases i with
    | zero =>
      obtain rfl : r = r' := by simpa using hi
      exact ⟨e, he, houtcome, by simpa [Script.repeated] using hnotes⟩
    | succ i => exact absurd (hbefore 0 (Nat.succ_pos i)) hnot

variable {c : Client σ} {first delimiter : String}

theorem Client.run_request_faulted (htransient : ∀ n e, faults n = some e → e.errorClass = .transient) {s : σ}
    {r : Request} (hanswer : ∀ e, ((c.backend.call r).run 0 s).1 = .error e → e.errorClass ≠ .transient) (now : Nat)
    {w : World (Recorded Request σ)} (hw : w.store = ⟨s, notes⟩) :
    ∃ answer time world, ((c.faulted faults).request "list" .read r).run now w = (answer, time, world) ∧
      ((faults.Spares c.retry.maxRetries notes.length ∧ answer = ((c.backend.call r).run 0 s).1 ∧
          world.store = ⟨((c.backend.call r).run 0 s).2.2,
            notes ++ List.replicate ((faults.failures (c.retry.maxRetries + 1) notes.length).length + 1) r⟩) ∨
        ∃ e, ¬faults.Spares c.retry.maxRetries notes.length ∧ faults (notes.length + c.retry.maxRetries) = some e ∧
          answer = .error e ∧ world.store = ⟨s, notes ++ List.replicate (c.retry.maxRetries + 1) r⟩) := by
  obtain ⟨answer, time, world, hrun, hends⟩ :=
    RetryPolicy.run_attempts_faulted (p := c.retry) htransient hanswer "list" c.retry.maxRetries now hw
  refine ⟨answer, time, world, hrun, hends.imp_right ?_⟩
  rintro ⟨e, hlength, hends⟩
  exact ⟨e, by simp [Script.Spares, hlength], hends⟩

theorem Client.run_request_clean {s : σ} {r : Request}
    (hanswer : ∀ e, ((c.backend.call r).run 0 s).1 = .error e → e.errorClass ≠ .transient) (now : Nat)
    {w : World (Recorded Request σ)} (hw : w.store = ⟨s, notes⟩) :
    ∃ time world, ((c.faulted fun _ => none).request "list" .read r).run now w =
        (((c.backend.call r).run 0 s).1, time, world) ∧
      world.store = ⟨((c.backend.call r).run 0 s).2.2, notes ++ [r]⟩ :=
  RetryPolicy.run_attempts_answered (fun _ => none) rfl hanswer "list" c.retry.maxRetries now hw

/-- Work without failures and work whose requests fail by a script go on from the same source, and the second comes
out as it should beside the first. -/
def Mirrors (faults : Script) (retries : Nat)
    (clean faulty : Timed (World (Recorded Request σ)) (Option (Except StorageError Listing))) : Prop :=
  ∀ (s : σ) (now' : Nat) (w' : World (Recorded Request σ)) (notes' : List Request), w'.store = ⟨s, notes'⟩ →
    ∃ asked, (clean.run now' w').2.2.store.notes = notes' ++ asked ∧
      ∀ (now : Nat) (w : World (Recorded Request σ)) (notes : List Request), w.store = ⟨s, notes⟩ →
        Shadows faults retries notes asked ((clean.run now' w').1, (clean.run now' w').2.2.store)
          ((faulty.run now w).1, (faulty.run now w).2.2.store)

theorem Mirrors.done (outcome : Option (Except StorageError Listing)) :
    Mirrors (σ := σ) faults retries (.done outcome) (.done outcome) := by
  intro s now' w' notes' hw'
  refine ⟨[], by simp [Timed.run, hw'], fun now w notes hw => ?_⟩
  exact .nil rfl (by simp [Timed.run, hw, hw']) (by simp [Timed.run, hw])

theorem Mirrors.page (htransient : ∀ n e, faults n = some e → e.errorClass = .transient) {token : Option String}
    (hanswer : ∀ s e, ((c.backend.call (.page first delimiter token)).run 0 s).1 = .error e →
      e.errorClass ≠ .transient)
    {k k' : Except StorageError Page → Timed (World (Recorded Request σ)) (Option (Except StorageError Listing))}
    (hfailed : ∀ e, k' (.error e) = .done (some (.error e)))
    (hk : ∀ answer, Mirrors faults c.retry.maxRetries (k answer) (k' answer)) :
    Mirrors faults c.retry.maxRetries
      (((c.faulted fun _ => none).request "list" .read (.page first delimiter token)).bind k)
      (((c.faulted faults).request "list" .read (.page first delimiter token)).bind k') := by
  intro s now' w' notes' hw'
  obtain ⟨time', world', hclean, hworld'⟩ := Client.run_request_clean (hanswer s) now' hw'
  obtain ⟨asked, hasked, hrest⟩ := hk _ _ time' world' _ hworld'
  simp only [Timed.run_bind, hclean]
  refine ⟨.page first delimiter token :: asked, ?_, fun now w notes hw => ?_⟩
  · rw [hasked, List.append_assoc, List.singleton_append]
  obtain ⟨answer, time, world, hrun, ⟨hspares, rfl, hworld⟩ | ⟨e, hnot, he, rfl, hworld⟩⟩ :=
    Client.run_request_faulted htransient (hanswer s) now hw
  · rw [hrun]
    exact (hrest time world _ hworld).cons hspares
  · rw [hrun]
    simp only [hfailed, Timed.run]
    exact .cut hnot he rfl (by simp [hworld])

theorem Client.collect_mirrors (htransient : ∀ n e, faults n = some e → e.errorClass = .transient)
    (hanswer : ∀ token s e, ((c.backend.call (.page first delimiter token)).run 0 s).1 = .error e →
      e.errorClass ≠ .transient)
    (fuel : Nat) (token : Option String) (d : Collector) :
    let fetch (faults : Script) (token : Option String) :=
      (c.faulted faults).request "list" .read (.page first delimiter token)
    Mirrors faults c.retry.maxRetries (Collector.collect c.maxPages (fetch fun _ => none) fuel token d)
      (Collector.collect c.maxPages (fetch faults) fuel token d) := by
  intro fetch
  induction fuel generalizing token d with
  | zero => exact .done _
  | succ fuel ih =>
    unfold Collector.collect
    by_cases hfull : d.isFull c.maxPages = true
    · simp only [hfull, ↓reduceIte]
      exact .done _
    · simp only [hfull]
      refine Mirrors.page htransient (hanswer token) (fun _ => rfl) fun answer => ?_
      cases answer with
      | error e => exact .done _
      | ok page =>
        simp only
        cases d.step page with
        | finished result => exact .done _
        | more d token => exact ih (some token) d

/-- Retries are transparent to listings, for every script of transient failures. Retries that suffice for each page
give the outcome of the listing without failures, by the same requests. If they do not suffice for one, the first
such page makes the listing fail as it did last. -/
theorem Client.list_transparent (c : Client σ) (htransient : ∀ n e, faults n = some e → e.errorClass = .transient)
    (hanswer : ∀ token now s e, ((c.backend.call (.page first delimiter token)).run now s).1 = .error e →
      e.errorClass ≠ .transient)
    (fuel now : Nat) {w : World (Recorded Request σ)} (hw : w.store.notes = []) :
    let clean := ((c.faulted fun _ => none).listWithin fuel first delimiter).run now w
    let faulty := ((c.faulted faults).listWithin fuel first delimiter).run now w
    Shadows faults c.retry.maxRetries [] clean.2.2.store.notes (clean.1, clean.2.2.store)
      (faulty.1, faulty.2.2.store) := by
  intro clean faulty
  have hstore : w.store = ⟨w.store.store, []⟩ := by rw [← hw]
  obtain ⟨asked, hasked, hshadows⟩ :=
    c.collect_mirrors htransient (fun token s e => hanswer token 0 s e) fuel none {} _ now w [] hstore
  have hshadows := hshadows now w [] hstore
  obtain ⟨after, hclean, hafter⟩ := (c.faulted fun _ => none).exists_run_listWithin first delimiter fuel now w
  obtain ⟨after', hfaulty, hafter'⟩ := (c.faulted faults).exists_run_listWithin first delimiter fuel now w
  simp only [clean, faulty, hclean, hfaulty, hafter, hafter']
  rw [List.nil_append] at hasked
  rw [show (c.faulted fun _ => none).maxPages = c.maxPages from rfl, hasked]
  exact hshadows

end Listings

def threePages : Backend Unit where
  call
    | .get key => return .error (.noSuchKey key)
    | .put _ _ | .delete _ => return .ok ()
    | .page _ _ token =>
      return .ok { next := some (if token.isNone then "b" else "c"), truncated := token ≠ some "c" }

def unsteady : Script
  | 0 | 2 => some (.timeout "slow")
  | 3 => some (.network "reset")
  | _ => none

def pagesClient (retries : Nat) : Client Unit := { retry := { maxRetries := retries }, backend := threePages }

def listPages (retries : Nat) (faults : Script) :=
  (((pagesClient retries).faulted faults).listWithin 9 "" "/").run 0 { store := { store := () } }

theorem listPages_transparent :
    (listPages 2 unsteady).1 = some (.ok {}) ∧ (listPages 2 unsteady).2.2.store.notes =
      [.page "" "/" none, .page "" "/" none, .page "" "/" (some "b"), .page "" "/" (some "b"), .page "" "/" (some "b"),
        .page "" "/" (some "c")] ∧
    (listPages 1 unsteady).1 = some (.error (.network "reset")) := by
  have htransient : ∀ n e, unsteady n = some e → e.errorClass = .transient := by
    intro n e he
    unfold unsteady at he
    split at he <;> cases he <;> rfl
  have hanswer : ∀ token now s e, ((threePages.call (.page "" "/" token)).run now s).1 = .error e →
      e.errorClass ≠ .transient := by
    intro token now s e he
    cases he
  have hclean : (listPages 2 fun _ => none).1 = some (.ok {}) := rfl
  have hshadows (retries : Nat) := (pagesClient retries).list_transparent htransient hanswer 9 0
    (w := { store := { store := () } }) rfl
  obtain ⟨houtcome, -, hnotes⟩ := (hshadows 2).spared (by decide)
  obtain ⟨e, he, hfailed, -⟩ := (hshadows 1).failed 1 (.page "" "/" (some "b")) rfl (by decide) (by decide)
  cases he
  exact ⟨houtcome.trans hclean, hnotes, hfailed⟩

end ObjectStorage
