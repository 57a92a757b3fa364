import ObjectStorage.Proofs.Clients.Registers
import ObjectStorage.Proofs.Hedging.Outcomes
import ObjectStorage.Proofs.Store.FaultyCalls

/-! # Effects of client steps

What a client does step by step over a faulty store changes only what it says: reads and listings change
nothing, and a write changes its key as it should or not at all.
-/
namespace ObjectStorage

variable {σ γ : Type}

theorem Collector.follows_collect {P : Protocol σ γ} {n : Nat} {g : γ}
    {fetch : Option String → Timed σ (Except StorageError Page)}
    (hfetch : ∀ token, (fetch token).Follows P n (fun h _ => h = g) g) (maxPages fuel : Nat) (token : Option String)
    (c : Collector) : (collect maxPages fetch fuel token c).Follows P n (fun h _ => h = g) g := by
  induction fuel generalizing token c with
  | zero => rfl
  | succ fuel ih =>
    simp only [collect]
    split
    · rfl
    · refine (hfetch token).bind ?_
      rintro h outcome rfl
      cases outcome with
      | error e => rfl
      | ok page =>
        simp only
        cases c.step page with
        | finished result => rfl
        | more c token => exact ih (some token) c

/-! ## Reads and listings -/

namespace FaultyMemory

/-- Work that leaves the memory of a store as it is. -/
def still (M : Memory) : Protocol FaultyMemory Unit where
  valid m := m.memory = M
  step _ _ _ _ _ := True
  refl _ _ _ := trivial
  trans _ _ := trivial

theorem follows_still {M : Memory} {r : Request} (hput : ∀ key data, r ≠ .put key data) (hr : (M.answer r).2 = M)
    (n : Nat) : (backend.call r).Follows (still M) n (fun _ outcome =>
      (∀ first delimiter token, r ≠ .page first delimiter token) →
        ∀ a, outcome = .ok a → (M.answer r).1 = .ok a) () := by
  refine follows_call_of (fun _ _ => True) ?_ ?_
  · rintro m rfl
    rcases receive_memory r m with hmemory | ⟨⟨key, data, heq⟩, -⟩
    · exact ⟨hmemory, (), trivial, trivial⟩
    · exact absurd heq (hput key data)
  · rintro _ f - m rfl
    refine ⟨(respond_memory f r m).elim id fun h => h.trans hr, (), trivial, fun hpage a ha => ?_⟩
    cases hf : f.error with
    | some e =>
      rw [respond_fault hf] at ha
      cases ha
    | none =>
      rw [respond_answer hf hpage] at ha
      exact ha

end FaultyMemory

theorem Client.follows_still {c : Client FaultyMemory} (hb : c.backend = FaultyMemory.backend) (name : String)
    (kind : OperationKind) {M : Memory} {r : Request} (hput : ∀ key data, r ≠ .put key data)
    (hr : (M.answer r).2 = M) (n : Nat) :
    (c.request name kind r).Follows (FaultyMemory.still M).onStore n (fun _ outcome =>
      (∀ first delimiter token, r ≠ .page first delimiter token) → ∀ a, outcome = .ok a → (M.answer r).1 = .ok a)
      () := by
  refine RetryPolicy.follows_attempts name (fun _ _ => True) (fun _ _ outcome =>
    (∀ first delimiter token, r ≠ .page first delimiter token) → ∀ a, outcome = .ok a → (M.answer r).1 = .ok a)
    ?_ (fun _ _ _ h => h) (fun _ _ _ _ _ => trivial) c.retry.maxRetries trivial
  intro left h _
  rw [hb]
  exact (FaultyMemory.follows_still hput hr n).onStore

theorem Memory.answer_get_store (m : Memory) (key : String) : (m.answer (.get key)).2 = m := by
  cases hget : m.store.get? key <;> simp [answer, hget]

/-! ## Writes -/

namespace Write

theorem answer_ok (wr : Write) (m : Memory) : ∃ reply, (m.answer wr.request).1 = .ok reply := by
  cases wr <;> exact ⟨(), rfl⟩

theorem ne_page (wr : Write) (first delimiter : String) (token : Option String) :
    wr.request ≠ .page first delimiter token := by
  cases wr <;> simp [request]

theorem answer_twice (wr : Write) (m : Memory) :
    ((m.answer wr.request).2.answer wr.request).2 = (m.answer wr.request).2 := by
  cases wr with
  | put key data => simp [request, Memory.answer, Store.put_put]
  | delete key => simp [request, Memory.answer, Store.erase_erase]

end Write

/-- A write is carried out and then fails. Only puts can. -/
def Fault.Loses (f : Fault) : Write → Prop
  | .put _ _ => f.applied = true ∧ f.error ≠ none
  | .delete _ => False

/-- The calls of a write failed so far. It was carried out only if one of them met a fault that lost it. -/
structure Write.Failing (wr : Write) (before m : FaultyMemory) (met : List Fault) : Prop where
  faults : before.faults = met ++ m.faults
  memory : m.memory = before.memory ∨
    m.memory = (before.memory.answer wr.request).2 ∧ ∃ f ∈ met, f.Loses wr

namespace Write
variable {wr : Write} {before m : FaultyMemory} {met : List Fault}

theorem Failing.start (wr : Write) (m : FaultyMemory) : wr.Failing m m [] := ⟨rfl, .inl rfl⟩

theorem Failing.call (h : wr.Failing before m met) (now : Nat) :
    ∃ outcome time after, (FaultyMemory.backend.call wr.request).run now m = (outcome, time, after) ∧
      ((∃ e met, outcome = .error e ∧ wr.Failing before after met) ∨
        (∃ reply, outcome = .ok reply) ∧ after.memory = (before.memory.answer wr.request).2) := by
  obtain ⟨time, hrun⟩ := FaultyMemory.run_call wr.request now m
  obtain ⟨hfaults, hfault⟩ := FaultyMemory.receive_faults wr.request m
  have hreceive := FaultyMemory.receive_memory wr.request m
  have hanswer : (m.memory.answer wr.request).2 = (before.memory.answer wr.request).2 := by
    rcases h.memory with hmemory | ⟨hmemory, -⟩
    · rw [hmemory]
    · rw [hmemory, wr.answer_twice]
  generalize FaultyMemory.receive wr.request m = received at hrun hfaults hfault hreceive
  obtain ⟨f, m₁⟩ := received
  refine ⟨_, time, _, hrun, ?_⟩
  simp only at hfaults hfault hreceive ⊢
  cases hf : f.error with
  | some e =>
    left
    rw [FaultyMemory.respond_fault hf]
    refine ⟨e, met ++ m.faults.take 1, rfl, by rw [h.faults, List.append_assoc, ← hfaults], ?_⟩
    rcases hreceive with hsame | ⟨hput, happlied, hwritten⟩
    · rw [hsame]
      rcases h.memory with hmemory | ⟨hmemory, g, hg, hloses⟩
      · exact .inl hmemory
      · exact .inr ⟨hmemory, g, List.mem_append_left _ hg, hloses⟩
    · -- the store took the write in, so the fault that fails the call is one that lost it
      have hmet : f ∈ m.faults.take 1 := by
        rcases hfault with hmet | rfl
        · exact hmet
        · cases hf
      refine .inr ⟨hwritten.trans hanswer, f, List.mem_append_right _ hmet, ?_⟩
      cases wr with
      | put key data => exact ⟨happlied, by simp [hf]⟩
      | delete key =>
        obtain ⟨other, data, heq⟩ := hput
        cases heq
  | none =>
    right
    rw [FaultyMemory.respond_answer hf wr.ne_page]
    refine ⟨wr.answer_ok m₁.memory, ?_⟩
    rcases hreceive with hsame | ⟨-, -, hwritten⟩
    · simp only [hsame, hanswer]
    · simp only [hwritten, wr.answer_twice, hanswer]

end Write

theorem Client.run_failing {c : Client FaultyMemory} (hb : c.backend = FaultyMemory.backend) (name : String)
    (wr : Write) (now : Nat) (w : World FaultyMemory) : ∃ outcome time after,
      ((c.request name .write wr.request).bind (finish name)).run now w = (outcome, time, after) ∧
      ((∃ e met, outcome = .error e ∧ wr.Failing w.store after.store met) ∨
        (∃ reply, outcome = .ok reply) ∧ after.store.memory = (w.store.memory.answer wr.request).2) := by
  have hcall (time : Nat) (v : World FaultyMemory) (hv : ∃ met, wr.Failing w.store v.store met) :
      ∃ outcome later after, (World.onStore (c.backend.call wr.request)).run time v = (outcome, later, after) ∧
        ((∃ e met, outcome = .error e ∧ wr.Failing w.store after.store met) ∨
          (∃ reply, outcome = .ok reply) ∧ after.store.memory = (w.store.memory.answer wr.request).2) := by
    obtain ⟨met, hfailing⟩ := hv
    obtain ⟨outcome, later, after, hrun, hends⟩ := hfailing.call time
    rw [hb, World.run_onStore, hrun]
    exact ⟨outcome, later, _, rfl, hends⟩
  have hkeeps (time : Nat) (v : World FaultyMemory) (_ : List StorageError) (e : StorageError)
      (hv : ∃ met, wr.Failing w.store v.store met)
      (hfail : ((World.onStore (c.backend.call wr.request)).run time v).1 = .error e)
      (_ : c.retry.retries .write e = true) :
      ∃ met, wr.Failing w.store ((World.onStore (c.backend.call wr.request)).run time v).2.2.store met := by
    obtain ⟨outcome, later, after, hrun, ⟨e', met, rfl, hafter⟩ | ⟨⟨reply, rfl⟩, -⟩⟩ := hcall time v hv
    · rw [hrun]
      exact ⟨met, hafter⟩
    · rw [hrun] at hfail
      cases hfail
  obtain ⟨time, world, failures, hrun, hfailing, -⟩ :=
    RetryPolicy.run_attempts name (p := c.retry) (P := fun store _ => ∃ met, wr.Failing w.store store met) hkeeps
      c.retry.maxRetries now [] ⟨[], .start wr w.store⟩
  obtain ⟨outcome, later, after, hlast, hends⟩ := hcall time world hfailing
  obtain ⟨v, hfinish, hstore⟩ := run_finish name outcome later after
  refine ⟨outcome, later, v, ?_, by rwa [hstore]⟩
  rw [Timed.run_bind]
  exact (congrArg (fun x => (finish name x.1).run x.2.1 x.2.2) (hrun.trans hlast)).trans hfinish

/-! ## Steps -/

inductive Task where
  | get (key : String)
  | write (wr : Write)
  | list (first delimiter : String)

structure Errand where
  retry : RetryPolicy := {}
  hedging : HedgePolicy := {}
  maxPages : Nat := 10000
  task : Task

def Errand.client (errand : Errand) : Client FaultyMemory :=
  { retry := errand.retry, hedging := errand.hedging, maxPages := errand.maxPages, backend := FaultyMemory.backend }

namespace Task

/-- A read or a listing may have no result if it goes on for too long. -/
abbrev Outcome : Task → Type
  | get _ => Option (Except StorageError Fetched)
  | write _ => Except StorageError Unit
  | list _ _ => Option (Except StorageError Listing)

def carry {σ : Type} (c : Client σ) : (task : Task) → Session σ → task.Outcome × Session σ
  | get key, s => s.get c key
  | write wr, s => s.perform (wr.perform c)
  | list first delimiter, s => s.perform (c.list first delimiter)

/-- What a step may change, and what its outcome says of the store before it and after it. -/
def Law : (task : Task) → (before after : FaultyMemory) → task.Outcome → Prop
  | get key, before, after, outcome => after.memory = before.memory ∧
      ∀ fetched, outcome = some (.ok fetched) →
        before.memory.contents key = some fetched.data ∧ fetched.size = fetched.data.length
  | list _ _, before, after, _ => after.memory = before.memory
  | write wr, before, after, outcome =>
      (∀ other, other ≠ wr.key → after.memory.store.get? other = before.memory.store.get? other) ∧
      (after.memory.store.get? wr.key = before.memory.store.get? wr.key ∨
        after.memory.contents wr.key = wr.content) ∧
      (outcome = .ok () → after.memory.contents wr.key = wr.content) ∧
      ∀ e met, outcome = .error e → before.faults = met ++ after.faults → (∀ f ∈ met, ¬f.Loses wr) →
        after.memory = before.memory

end Task

theorem Session.get_still {c : Client FaultyMemory} (hb : c.backend = FaultyMemory.backend) (key : String)
    (s : Session FaultyMemory) : (s.get c key).2.shared.world.store.memory = s.shared.world.store.memory ∧
      ∀ fetched, (s.get c key).1 = some (.ok fetched) →
        (s.shared.world.store.memory.answer (.get key)).1 = .ok fetched := by
  have hattempt (n : Nat) := Client.follows_still hb "get" .read (r := .get key) (by simp)
    (s.shared.world.store.memory.answer_get_store key) n
  obtain ⟨hstill, hends⟩ := Hedging.dispatch_follows c.hedging c.readSteps s.now hattempt rfl
  unfold get Client.readAttempt
  generalize Hedging.dispatch c.hedging c.readSteps s.now (c.request "get" .read (.get key)) s.shared = r
    at hstill hends ⊢
  obtain ⟨result, shared⟩ := r
  cases result with
  | none => exact ⟨hstill, fun fetched h => by cases h⟩
  | some result =>
    obtain ⟨time, outcome⟩ := result
    refine ⟨hstill, fun fetched h => ?_⟩
    obtain ⟨-, hpost⟩ := hends time outcome rfl
    exact hpost (by simp) fetched (Option.some.inj h)

theorem Client.follows_list {c : Client FaultyMemory} (hb : c.backend = FaultyMemory.backend) (M : Memory)
    (first delimiter : String) (n : Nat) :
    (c.list first delimiter).Follows (FaultyMemory.still M).onStore n (fun _ _ => True) () := by
  have hfetch (token : Option String) : (c.request "list" .read (.page first delimiter token)).Follows
      (FaultyMemory.still M).onStore n (fun h _ => h = ()) () :=
    (Client.follows_still hb "list" .read (by simp) rfl n).mono fun _ _ _ => rfl
  refine (Collector.follows_collect hfetch c.maxPages c.pageFuel none {}).bind ?_
  rintro _ outcome -
  cases outcome with
  | none => trivial
  | some outcome =>
    have hfinish : (finish "list" outcome).Follows (FaultyMemory.still M).onStore n (fun _ _ => True) () :=
      follows_finish "list" trivial
    exact hfinish.bind fun _ _ _ => trivial

namespace Write

theorem get?_answer (wr : Write) (m : Memory) {other : String} (hother : other ≠ wr.key) :
    (m.answer wr.request).2.store.get? other = m.store.get? other := by
  cases wr with
  | put key data => exact (m.store.get?_put key _ other).trans (if_neg hother)
  | delete key => exact (m.store.get?_erase key other).trans (if_neg hother)

theorem contents_answer (wr : Write) (m : Memory) : (m.answer wr.request).2.contents wr.key = wr.content := by
  cases wr with
  | put key data =>
    rw [Memory.contents, request, Memory.answer, Store.contents_put]
    exact Function.update_self _ _ _
  | delete key =>
    rw [Memory.contents, request, Memory.answer, Store.contents_erase]
    exact Function.update_self _ _ _

theorem perform_law {c : Client FaultyMemory} (hb : c.backend = FaultyMemory.backend) (wr : Write)
    (s : Session FaultyMemory) :
    (Task.write wr).Law s.shared.world.store (s.perform (wr.perform c)).2.shared.world.store
      (s.perform (wr.perform c)).1 := by
  have hrun : ∃ outcome time after, (wr.perform c).run s.now s.shared.world = (outcome, time, after) ∧
      ((∃ e met, outcome = .error e ∧ wr.Failing s.shared.world.store after.store met) ∨
        (∃ reply, outcome = .ok reply) ∧ after.store.memory = (s.shared.world.store.memory.answer wr.request).2) := by
    cases wr with
    | put key data => exact Client.run_failing hb "put" (.put key data) s.now s.shared.world
    | delete key => exact Client.run_failing hb "delete" (.delete key) s.now s.shared.world
  obtain ⟨outcome, time, after, hrun, hends⟩ := hrun
  simp only [Session.perform, hrun, Task.Law]
  rcases hends with ⟨e, met, rfl, hfailing⟩ | ⟨⟨reply, rfl⟩, hmemory⟩
  · refine ⟨?_, ?_, (fun h => by cases h), ?_⟩
    · intro other hother
      rcases hfailing.memory with hmemory | ⟨hmemory, -⟩
      · rw [hmemory]
      · rw [hmemory, wr.get?_answer _ hother]
    · rcases hfailing.memory with hmemory | ⟨hmemory, -⟩
      · exact .inl (by rw [hmemory])
      · exact .inr (by rw [hmemory, wr.contents_answer])
    · intro e' met' _ hfaults hclean
      have hmet : met' = met := List.append_cancel_right (hfaults.symm.trans hfailing.faults)
      rcases hfailing.memory with hmemory | ⟨-, f, hf, hloses⟩
      · exact hmemory
      · exact absurd hloses (hclean f (hmet ▸ hf))
  · rw [hmemory]
    exact ⟨fun other hother => wr.get?_answer _ hother, .inr (wr.contents_answer _), fun _ => wr.contents_answer _,
      fun e met h => by cases h⟩

end Write

theorem Task.carry_law {c : Client FaultyMemory} (hb : c.backend = FaultyMemory.backend) (task : Task)
    (s : Session FaultyMemory) :
    task.Law s.shared.world.store (task.carry c s).2.shared.world.store (task.carry c s).1 := by
  cases task with
  | get key =>
    obtain ⟨hstill, hfetched⟩ := Session.get_still hb key s
    refine ⟨hstill, fun fetched h => ?_⟩
    have hanswer := hfetched fetched h
    rw [((Request.get_concerns key).2 s.shared.world.store.memory).1] at hanswer
    cases hcontent : s.shared.world.store.memory.contents key with
    | none => simp [Contents.reply, hcontent] at hanswer
    | some data =>
      obtain rfl : ⟨data, data.length⟩ = fetched := by simpa [Contents.reply, hcontent] using hanswer
      exact ⟨rfl, rfl⟩
  | write wr => exact wr.perform_law hb s
  | list first delimiter =>
    obtain ⟨-, hstill, -⟩ := (Client.follows_list hb s.shared.world.store.memory first delimiter 0).run s.now rfl
    exact hstill

theorem Task.Law.get?_eq {task : Task} {before after : FaultyMemory} {outcome : task.Outcome}
    (h : task.Law before after outcome) {key : String} (hkey : ∀ wr, task = .write wr → wr.key ≠ key) :
    after.memory.store.get? key = before.memory.store.get? key := by
  cases task with
  | get other => exact congrArg (fun m => m.store.get? key) h.1
  | write wr => exact h.1 key (Ne.symm (hkey wr rfl))
  | list first delimiter => exact congrArg (fun m : Memory => m.store.get? key) h

namespace Session

def runAll (s : Session FaultyMemory) (errands : List Errand) : Session FaultyMemory :=
  errands.foldl (fun s errand => (errand.task.carry errand.client s).2) s

/-- Whatever clients do one after the other, over any script of faults, each of their steps keeps to its law, and a
key that none of them writes holds what it held. -/
theorem runAll_law (s : Session FaultyMemory) (errands : List Errand) :
    (∀ done errand rest, errands = done ++ errand :: rest →
      let before := s.runAll done
      let step := errand.task.carry errand.client before
      step.2 = s.runAll (done ++ [errand]) ∧
        errand.task.Law before.shared.world.store step.2.shared.world.store step.1) ∧
    ∀ key, (∀ errand ∈ errands, ∀ wr, errand.task = .write wr → wr.key ≠ key) →
      (s.runAll errands).shared.world.store.memory.store.get? key = s.shared.world.store.memory.store.get? key := by
  refine ⟨?_, ?_⟩
  · intro done errand rest _
    exact ⟨by simp [runAll], errand.task.carry_law rfl (s.runAll done)⟩
  · intro key
    induction errands generalizing s with
    | nil => exact fun _ => rfl
    | cons errand errands ih =>
      intro hother
      have hlater := ih (errand.task.carry errand.client s).2 fun later h => hother later (List.mem_cons_of_mem _ h)
      exact hlater.trans ((errand.task.carry_law rfl s).get?_eq (hother errand List.mem_cons_self))

/-- The answer to a put is lost after it was carried out, and the put is not repeated. -/
def losing : Session FaultyMemory where
  shared :=
    { world := { store := { faults := [{ error := some (.timeout "lost"), applied := true }] } }
      limiter := .unlimited }

def lostPut : Errand := { retry := { writePolicy := .never }, task := .write (.put "k" [1]) }

def hedgedGet : Errand := { hedging := { after := .ofMillis 1 }, task := .get "k" }

theorem losing_law : (hedgedGet.task.carry hedgedGet.client (losing.runAll [lostPut])).1 = some (.ok ⟨[1], 1⟩) ∧
    (losing.runAll [lostPut]).shared.world.store.memory.contents "k" = some [1] ∧
    (losing.runAll [lostPut, hedgedGet]).shared.world.store.memory.store.get? "j" = none := by
  have hget : (hedgedGet.task.carry hedgedGet.client (losing.runAll [lostPut])).1 = some (.ok ⟨[1], 1⟩) := rfl
  obtain ⟨hsteps, hothers⟩ := losing.runAll_law [lostPut, hedgedGet]
  obtain ⟨-, -, hstored⟩ := hsteps [lostPut] hedgedGet [] rfl
  refine ⟨hget, (hstored _ hget).1, (hothers "j" ?_).trans rfl⟩
  intro errand herrand wr hwrite
  rcases List.mem_cons.1 herrand with rfl | herrand
  · cases hwrite
    decide
  · obtain rfl := List.mem_singleton.1 herrand
    cases hwrite

end Session
end ObjectStorage
