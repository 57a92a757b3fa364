import ObjectStorage.Proofs.Clients.Positions
import ObjectStorage.Proofs.Hedging.Ledgers

/-! # The metrics of a client and the work it did

A client finishes one operation after the other, and each of them leaves a receipt. What the metrics grew by is
told by the receipts, and with them the calls of the store are accounted for.
-/
namespace ObjectStorage
open Hedging (Event Hall Attempt)

variable {σ α : Type}

namespace Task

abbrev Reply : Task → Type
  | get _ => Fetched
  | write _ => Unit
  | list _ _ => Listing

def operation : Task → String
  | get _ => "get"
  | write (.put _ _) => "put"
  | write (.delete _) => "delete"
  | list _ _ => "list"

def returned? : (task : Task) → task.Outcome → Option (Except StorageError task.Reply)
  | get _, outcome => outcome
  | write _, outcome => some outcome
  | list _ _, outcome => outcome

def positions (c : Client σ) (s : Session σ) : Task → Nat
  | list first delimiter => (c.positions first delimiter s.now s.shared.world).length
  | _ => 0

end Task

structure Receipt where
  task : Task
  returned : Except StorageError task.Reply
  positions : Nat

namespace Receipt

def operation (r : Receipt) : String := r.task.operation

def label (r : Receipt) : String :=
  match r.returned with
  | .ok _ => "ok"
  | .error e =>
    match e.errorClass with
    | .notFound => "not_found"
    | .transient => "transient"
    | .permanent => "permanent"

def labels : List String := ["ok", "not_found", "transient", "permanent"]

theorem label_mem (r : Receipt) : r.label ∈ labels := by
  unfold label
  split
  · decide
  · split <;> decide

def series (r : Receipt) : List Series := [.operations r.operation r.label, .durations r.operation]

/-- The calls that a task was for, without retries and hedges. -/
def due (r : Receipt) : Nat := if r.operation = "list" then r.positions else 1

theorem label_eq (task : Task) (returned : Except StorageError task.Reply) (positions : Nat) :
    label ⟨task, returned, positions⟩ = Client.outcomeLabel returned := by
  cases returned with
  | ok a => rfl
  | error e =>
    simp only [label, Client.outcomeLabel]
    cases e.errorClass <;> rfl

end Receipt

theorem Client.finish_booked (operation : String) (outcome : Except StorageError α) (due : Dues) (now : Nat)
    (w : World (Recorded Request σ)) :
    World.Booked [.operations operation (outcomeLabel outcome), .durations operation] due w due
      ((finish operation outcome).run now w).2.2 :=
  (World.booked_record (by simp) due w).trans (World.booked_record (by simp) due _)

theorem Client.request_booked (c : Client σ) (r : Request) (kind : OperationKind) (now : Nat)
    (w : World (Recorded Request σ)) :
    let ended := ((c.counted.request r.operation kind r).bind (finish r.operation)).run now w
    World.Booked [.operations r.operation (outcomeLabel ended.1), .durations r.operation] (Pi.single r.operation 1) w
      0 ended.2.2 := by
  intro ended
  obtain ⟨left, -, hbooked, rfl⟩ := (c.follows_counted (n := 0) r kind).run now (s := w) trivial
  have hcalls : World.Booked [] (Pi.single r.operation 1) w 0
      ((c.counted.request r.operation kind r).run now w).2.2 := by
    simpa [account] using hbooked
  rw [show ended = _ from Timed.run_bind _ _ now w]
  exact hcalls.trans (finish_booked r.operation _ 0 _ _)

theorem Client.list_booked (c : Client σ) (first delimiter : String) (now : Nat) (w : World (Recorded Request σ))
    {outcome : Except StorageError Listing}
    (h : ((c.counted.list first delimiter).run now w).1 = some outcome) :
    World.Booked [.operations "list" (outcomeLabel outcome), .durations "list"]
      (Pi.single "list" (c.counted.positions first delimiter now w).length) w 0
      ((c.counted.list first delimiter).run now w).2.2 := by
  have hpositions := c.follows_positions first delimiter now w
  simp only [list, listWithin, Timed.bind_eq, Timed.run_bind] at h ⊢
  rcases hrun : (Collector.collect c.counted.maxPages
    (fun token => c.counted.request "list" .read (.page first delimiter token)) c.counted.pageFuel none {}).run now w
    with ⟨result, time, v⟩
  rw [hrun] at hpositions h
  cases result with
  | none => cases h
  | some result =>
    obtain rfl : result = outcome := Option.some.inj h
    exact hpositions.trans (finish_booked "list" result 0 time v)

/-- A task, and for a read the events of it in the order in which they are observed. -/
structure Job where
  task : Task
  events : List (Nat × Nat × Event) := []

/-- A receipt, and how many attempts of a read were aborted. -/
structure Stub extends Receipt where
  aborted : Nat := 0

def Job.run (c : Client σ) (job : Job) (s : Session σ) : Option (Stub × Session σ) :=
  match job.task with
  | .get key =>
    let h := Hall.play ⟨c.hedging, [{ start := s.now, attempt := fun _ => c.readAttempt key }], s.shared⟩ job.events
    do
      let call ← h.calls[0]?
      let (time, outcome) ← call.result?
      let outcome ← outcome
      let (returned, s) := Session.perform (Client.finish "get" outcome) ⟨h.shared, time⟩
      return ({ task := .get key, returned, positions := 0, aborted := call.attempts.countP Attempt.isAborted }, s)
  | task => do
    let returned ← task.returned? (task.carry c s).1
    return ({ task, returned, positions := task.positions c s }, (task.carry c s).2)

namespace Session

def runJobs (c : Client σ) : List Job → Session σ → Option (List Stub × Session σ)
  | [], s => some ([], s)
  | job :: jobs, s => do
    let (stub, s) ← job.run c s
    let (stubs, s) ← runJobs c jobs s
    return (stub :: stubs, s)

def runTasks (c : Client σ) : List Task → Session σ → Option (List Receipt × Session σ)
  | [], s => some ([], s)
  | task :: tasks, s => do
    let returned ← task.returned? (task.carry c s).1
    let (receipts, last) ← runTasks c tasks (task.carry c s).2
    return (⟨task, returned, task.positions c s⟩ :: receipts, last)

theorem exists_job_get {c : Client σ} {key : String} {s : Session σ} {outcome : Except StorageError Fetched}
    (h : (s.get c key).1 = some outcome) : ∃ events aborted,
      Job.run c ⟨.get key, events⟩ s = some (⟨⟨.get key, outcome, 0⟩, aborted⟩, (s.get c key).2) := by
  obtain ⟨events, hdispatch⟩ := Hedging.dispatch_eq_play c.hedging c.readSteps s.now (c.readAttempt key) s.shared
  refine ⟨events, ?_⟩
  unfold Session.get at h ⊢
  rw [hdispatch] at h ⊢
  simp only [Job.run]
  generalize Hall.play ⟨c.hedging, [{ start := s.now, attempt := fun _ => c.readAttempt key }], s.shared⟩ events = hall
    at h ⊢
  rw [List.head?_eq_getElem?] at h ⊢
  cases hcall : hall.calls[0]? with
  | none => simp [hcall] at h
  | some call =>
    rcases hresult : call.result? with _ | ⟨time, _ | o⟩
    · simp [hcall, hresult] at h
    · simp [hcall, hresult] at h
    · simp only [hcall, hresult, Option.bind_some] at h ⊢
      obtain rfl : o = outcome := Option.some.inj h
      refine ⟨call.attempts.countP Attempt.isAborted, ?_⟩
      simp only [hresult, Option.bind_eq_bind, Option.bind_some]
      rfl

/-- What a session does by the clock is a job. -/
theorem exists_job {c : Client σ} {task : Task} {s : Session σ} {returned : Except StorageError task.Reply}
    (h : task.returned? (task.carry c s).1 = some returned) : ∃ events aborted,
      Job.run c ⟨task, events⟩ s = some (⟨⟨task, returned, task.positions c s⟩, aborted⟩, (task.carry c s).2) := by
  cases task with
  | get key => exact exists_job_get h
  | write wr => exact ⟨[], 0, by simp only [Job.run, h]; rfl⟩
  | list first delimiter => exact ⟨[], 0, by simp only [Job.run, h]; rfl⟩

theorem exists_jobs {c : Client σ} {tasks : List Task} {s s' : Session σ} {receipts : List Receipt}
    (h : s.runTasks c tasks = some (receipts, s')) : ∃ jobs stubs,
      jobs.map Job.task = tasks ∧ s.runJobs c jobs = some (stubs, s') ∧ stubs.map Stub.toReceipt = receipts := by
  induction tasks generalizing s receipts with
  | nil =>
    obtain ⟨rfl, rfl⟩ := Prod.mk.inj (Option.some.inj h)
    exact ⟨[], [], rfl, rfl, rfl⟩
  | cons task tasks ih =>
    obtain ⟨returned, hreturned, h⟩ := Option.bind_eq_some_iff.1 h
    obtain ⟨⟨rest, last⟩, hrest, h⟩ := Option.bind_eq_some_iff.1 h
    obtain ⟨rfl, rfl⟩ := Prod.mk.inj (Option.some.inj h)
    obtain ⟨events, aborted, hjob⟩ := exists_job hreturned
    obtain ⟨jobs, stubs, rfl, hjobs, rfl⟩ := ih hrest
    refine ⟨⟨task, events⟩ :: jobs, ⟨⟨task, returned, task.positions c s⟩, aborted⟩ :: stubs, rfl, ?_, rfl⟩
    simp only [runJobs, hjob, hjobs, Option.bind_eq_bind, Option.bind_some]
    rfl

end Session

/-- The calls that tasks were for, without retries and hedges. -/
def Receipt.dues (receipts : List Receipt) : Dues :=
  (receipts.map fun r => Pi.single r.operation r.due).sum

/-- Beside what the tasks were for, a call was due to each hedge that was issued, and what is left are calls of
reads with aborted attempts. -/
def Tallied (c : Client σ) (stubs : List Stub) (before after : World (Recorded Request σ)) : Prop :=
  ∃ (answers : List Bool) (left : Nat),
    World.Booked ((stubs.map Stub.toReceipt).flatMap Receipt.series ++ answers.map Series.ofAnswer)
      (Receipt.dues (stubs.map Stub.toReceipt) + Pi.single "get" (answers.count true)) before (Pi.single "get" left)
      after ∧
    (c.hedging.enabled = false → answers = [] ∧ left = 0) ∧ ((∀ stub ∈ stubs, stub.aborted = 0) → left = 0)

variable {c : Client σ} {u v w : World (Recorded Request σ)} {stubs more : List Stub}

theorem Tallied.append (h : Tallied c stubs w v) (hmore : Tallied c more v u) : Tallied c (stubs ++ more) w u := by
  obtain ⟨answers, left, hbooked, hoff, haborted⟩ := h
  obtain ⟨answers', left', hbooked', hoff', haborted'⟩ := hmore
  refine ⟨answers ++ answers', left + left', ?_, ?_, ?_⟩
  · rw [List.map_append, List.flatMap_append, List.map_append]
    refine ((hbooked.append hbooked').of_perm ?_).balance ?_
    · rw [List.append_assoc, List.append_assoc]
      exact (List.perm_append_comm_assoc _ _ _).append_left _
    · simp only [Receipt.dues, List.map_append, List.sum_append, List.count_append, Pi.single_add]
      exact congrArg (· + (Pi.single "get" left + Pi.single "get" left' : Dues)) (add_add_add_comm _ _ _ _)
  · intro hp
    simp [hoff hp, hoff' hp]
  · intro hall
    rw [haborted fun stub h => hall stub (List.mem_append_left _ h),
      haborted' fun stub h => hall stub (List.mem_append_right _ h)]

theorem Tallied.of_booked {stub : Stub}
    (h : World.Booked stub.series (Pi.single stub.operation stub.due) w 0 v) : Tallied c [stub] w v :=
  ⟨[], 0, by simpa [Receipt.dues] using h, fun _ => ⟨rfl, rfl⟩, fun _ => rfl⟩

theorem Job.task_of_run {c : Client σ} {job : Job} {s s' : Session σ} {stub : Stub}
    (h : job.run c s = some (stub, s')) : stub.task = job.task := by
  obtain ⟨task, events⟩ := job
  cases task with
  | get key =>
    obtain ⟨call, -, h⟩ := Option.bind_eq_some_iff.1 h
    obtain ⟨⟨time, ended⟩, -, h⟩ := Option.bind_eq_some_iff.1 h
    obtain ⟨outcome, -, h⟩ := Option.bind_eq_some_iff.1 h
    obtain ⟨rfl, -⟩ := Prod.mk.inj (Option.some.inj h)
    rfl
  | write wr =>
    obtain ⟨rfl, -⟩ := Prod.mk.inj (Option.some.inj h)
    rfl
  | list first delimiter =>
    obtain ⟨returned, -, h⟩ := Option.bind_eq_some_iff.1 h
    obtain ⟨rfl, -⟩ := Prod.mk.inj (Option.some.inj h)
    rfl

theorem Receipt.series_eq (task : Task) (returned : Except StorageError task.Reply) (positions : Nat) :
    series ⟨task, returned, positions⟩ =
      [.operations task.operation (Client.outcomeLabel returned), .durations task.operation] := by
  rw [series, label_eq]
  rfl

theorem Job.run_tallied {job : Job} {s s' : Session (Recorded Request σ)} {stub : Stub}
    (h : job.run c.counted s = some (stub, s')) : Tallied c [stub] s.shared.world s'.shared.world := by
  obtain ⟨task, events⟩ := job
  cases task with
  | get key =>
    obtain ⟨call, hcall, h⟩ := Option.bind_eq_some_iff.1 h
    obtain ⟨⟨time, ended⟩, hresult, h⟩ := Option.bind_eq_some_iff.1 h
    obtain ⟨outcome, rfl, h⟩ := Option.bind_eq_some_iff.1 h
    obtain ⟨rfl, rfl⟩ := Prod.mk.inj (Option.some.inj h)
    have hwork (n : Nat) : (c.counted.readAttempt key).Follows (account "get") n Cleared 1 :=
      c.follows_counted (.get key) .read
    obtain ⟨answers, left, hbooked, hoff, haborted⟩ := Hall.play_books
      (c := { start := s.now, attempt := fun _ => c.counted.readAttempt key }) ⟨rfl, rfl⟩ hwork c.hedging s.shared
      events hcall hresult
    refine ⟨answers, left, ?_, hoff, fun hall => haborted ?_⟩
    · have hboth := hbooked.trans (Client.finish_booked "get" outcome _ time _)
      rw [List.map_singleton, List.flatMap_singleton, Receipt.series_eq]
      refine (hboth.of_perm List.perm_append_comm).balance ?_
      simp [Receipt.dues, Receipt.due, Receipt.operation, Task.operation, Pi.single_add, add_comm]
    · have hnone := List.countP_eq_zero.1 (hall _ List.mem_cons_self)
      simpa using hnone
  | write wr =>
    cases wr with
    | put key data =>
      obtain ⟨rfl, rfl⟩ := Prod.mk.inj (Option.some.inj h)
      refine .of_booked ?_
      rw [Receipt.series_eq]
      exact c.request_booked (.put key data) .write s.now s.shared.world
    | delete key =>
      obtain ⟨rfl, rfl⟩ := Prod.mk.inj (Option.some.inj h)
      refine .of_booked ?_
      rw [Receipt.series_eq]
      exact c.request_booked (.delete key) .write s.now s.shared.world
  | list first delimiter =>
    obtain ⟨outcome, hlist, h⟩ := Option.bind_eq_some_iff.1 h
    obtain ⟨rfl, rfl⟩ := Prod.mk.inj (Option.some.inj h)
    refine .of_booked ?_
    rw [Receipt.series_eq]
    exact c.list_booked first delimiter s.now s.shared.world hlist

theorem Session.tasks_of_runJobs {c : Client σ} {jobs : List Job} {s s' : Session σ}
    (h : s.runJobs c jobs = some (stubs, s')) : (stubs.map Stub.toReceipt).map Receipt.task = jobs.map Job.task := by
  induction jobs generalizing s stubs with
  | nil =>
    obtain ⟨rfl, -⟩ := Prod.mk.inj (Option.some.inj h)
    rfl
  | cons job jobs ih =>
    obtain ⟨⟨stub, t⟩, hjob, h⟩ := Option.bind_eq_some_iff.1 h
    obtain ⟨⟨rest, u⟩, hjobs, h⟩ := Option.bind_eq_some_iff.1 h
    obtain ⟨rfl, rfl⟩ := Prod.mk.inj (Option.some.inj h)
    rw [List.map_cons, List.map_cons, List.map_cons, Job.task_of_run hjob, ih hjobs]

theorem Session.runJobs_tallied {jobs : List Job} {s s' : Session (Recorded Request σ)}
    (h : s.runJobs c.counted jobs = some (stubs, s')) : Tallied c stubs s.shared.world s'.shared.world := by
  induction jobs generalizing s stubs with
  | nil =>
    obtain ⟨rfl, rfl⟩ := Prod.mk.inj (Option.some.inj h)
    exact ⟨[], 0, by simpa [Receipt.dues] using World.booked_of_eq (w := s.shared.world) rfl rfl 0,
      fun _ => ⟨rfl, rfl⟩, fun _ => rfl⟩
  | cons job jobs ih =>
    obtain ⟨⟨stub, t⟩, hjob, h⟩ := Option.bind_eq_some_iff.1 h
    obtain ⟨⟨rest, u⟩, hjobs, h⟩ := Option.bind_eq_some_iff.1 h
    obtain ⟨rfl, rfl⟩ := Prod.mk.inj (Option.some.inj h)
    exact (Job.run_tallied hjob).append (ih hjobs)

/-! ## What the receipts tell -/

namespace Receipt
variable (rs : List Receipt) (answers : List Bool)

theorem count_eq_countP {s : Series} {p : Receipt → Bool} (hanswer : ∀ granted, s ≠ .ofAnswer granted)
    (hseries : ∀ r, r.series.count s = if p r then 1 else 0) :
    (rs.flatMap series ++ answers.map Series.ofAnswer).count s = rs.countP p := by
  have hanswers : (answers.map Series.ofAnswer).count s = 0 := by
    refine List.count_eq_zero.2 fun hmem => ?_
    obtain ⟨granted, -, heq⟩ := List.mem_map.1 hmem
    exact hanswer granted heq.symm
  rw [List.count_append, hanswers, Nat.add_zero]
  induction rs with
  | nil => rfl
  | cons r rs ih => rw [List.flatMap_cons, List.count_append, List.countP_cons, ih, hseries, Nat.add_comm]

theorem count_operations (operation outcome : String) :
    (rs.flatMap series ++ answers.map Series.ofAnswer).count (.operations operation outcome) =
      rs.countP fun r => r.operation = operation ∧ r.label = outcome :=
  count_eq_countP rs answers (by simp [Series.ofAnswer, Bool.forall_bool]) fun r => by simp [series, List.count_cons]

theorem count_durations (operation : String) :
    (rs.flatMap series ++ answers.map Series.ofAnswer).count (.durations operation) =
      rs.countP (·.operation = operation) :=
  count_eq_countP rs answers (by simp [Series.ofAnswer, Bool.forall_bool]) fun r => by simp [series, List.count_cons]

theorem count_hedges :
    (rs.flatMap series ++ answers.map Series.ofAnswer).count .hedgesIssued = answers.count true := by
  have hseries : (rs.flatMap series).count .hedgesIssued = 0 := List.count_eq_zero.2 (by simp [series])
  rw [List.count_append, hseries, Nat.zero_add]
  exact List.count_map_of_injective answers Series.ofAnswer (by decide) true

theorem dues_cons (r : Receipt) : dues (r :: rs) = Pi.single r.operation r.due + dues rs := by
  simp [dues]

theorem dues_of_ne {operation : String} (h : operation ≠ "list") :
    dues rs operation = rs.countP (·.operation = operation) := by
  induction rs with
  | nil => rfl
  | cons r rs ih =>
    rw [dues_cons, Pi.add_apply, ih, List.countP_cons, Nat.add_comm]
    by_cases hr : r.operation = operation
    · subst hr
      simp [due, h]
    · simp [hr]

theorem dues_list : dues rs "list" = ((rs.filter (·.operation = "list")).map positions).sum := by
  induction rs with
  | nil => rfl
  | cons r rs ih =>
    rw [dues_cons, Pi.add_apply, ih]
    by_cases hr : r.operation = "list"
    · simp [hr, due]
    · simp [hr]

theorem countP_operation (operation : String) :
    rs.countP (·.operation = operation) =
      (labels.map fun label => rs.countP fun r => r.operation = operation ∧ r.label = label).sum := by
  induction rs with
  | nil => rfl
  | cons r rs ih =>
    have hlabel := r.label_mem
    simp only [labels, List.map_cons, List.map_nil, List.sum_cons, List.sum_nil, List.countP_cons,
      List.mem_cons, List.not_mem_nil, or_false, Bool.decide_and] at hlabel ih ⊢
    by_cases hoperation : r.operation = operation
    · rcases hlabel with hlabel | hlabel | hlabel | hlabel <;> simp [hlabel, hoperation] <;> omega
    · simpa [hoperation] using ih

end Receipt

namespace Tallied

theorem operations (h : Tallied c stubs w v) (operation label : String) :
    v.metrics.count (.operations operation label) = w.metrics.count (.operations operation label) +
      (stubs.map Stub.toReceipt).countP fun r => r.operation = operation ∧ r.label = label := by
  obtain ⟨answers, left, hbooked, -⟩ := h
  rw [hbooked.series _ (by simp), Receipt.count_operations]

theorem durations (h : Tallied c stubs w v) (operation : String) :
    v.metrics.count (.durations operation) =
      w.metrics.count (.durations operation) + (stubs.map Stub.toReceipt).countP (·.operation = operation) := by
  obtain ⟨answers, left, hbooked, -⟩ := h
  rw [hbooked.series _ (by simp), Receipt.count_durations]

theorem calls_of_ne (h : Tallied c stubs w v) {operation : String} (hne : operation ≠ "get") :
    v.calls operation + w.retried operation =
      w.calls operation + v.retried operation + Receipt.dues (stubs.map Stub.toReceipt) operation := by
  obtain ⟨answers, left, hbooked, -⟩ := h
  have hcalls := congrFun hbooked.calls operation
  simpa only [Pi.add_apply, Pi.single_eq_of_ne hne, Nat.add_zero] using hcalls

/-- Of the calls that were due to reads some are left, but none without hedging or if no attempt was aborted. -/
theorem calls_get (h : Tallied c stubs w v) : ∃ left,
    v.calls "get" + w.retried "get" + w.metrics.count .hedgesIssued + left =
      w.calls "get" + v.retried "get" + v.metrics.count .hedgesIssued +
        (stubs.map Stub.toReceipt).countP (·.operation = "get") ∧
    (c.hedging.enabled = false → left = 0 ∧ v.metrics.count .hedgesIssued = w.metrics.count .hedgesIssued) ∧
    ((∀ stub ∈ stubs, stub.aborted = 0) → left = 0) := by
  obtain ⟨answers, left, hbooked, hoff, haborted⟩ := h
  have hcalls := congrFun hbooked.calls "get"
  have hhedges := hbooked.series .hedgesIssued (by simp)
  rw [Receipt.count_hedges] at hhedges
  simp only [Pi.add_apply, Pi.single_eq_same, Receipt.dues_of_ne _ (show "get" ≠ "list" by decide)] at hcalls
  refine ⟨left, by omega, fun hp => ?_, haborted⟩
  obtain ⟨rfl, rfl⟩ := hoff hp
  exact ⟨rfl, hhedges⟩

end Tallied

/-- The metrics of a client account for its work, in whatever order the events of reads are observed. Operations are
counted by what they returned. Writes made one call each, listings one for each position, and reads one each and one
for each hedge, beside one for each retry; only calls of aborted attempts may be missing. -/
theorem Session.runJobs_metrics {jobs : List Job} {s s' : Session (Recorded Request σ)}
    (h : s.runJobs c.counted jobs = some (stubs, s')) :
    let w := s.shared.world
    let v := s'.shared.world
    let receipts := stubs.map Stub.toReceipt
    let counted (series : Series) : ℤ := v.metrics.count series - w.metrics.count series
    let calls (operation : String) : ℤ := v.calls operation - w.calls operation
    let finished (operation : String) : ℤ := receipts.countP (·.operation = operation)
    receipts.map Receipt.task = jobs.map Job.task ∧
    (∀ operation label, counted (.operations operation label) =
      receipts.countP fun r => r.operation = operation ∧ r.label = label) ∧
    (∀ operation, counted (.durations operation) = finished operation ∧ counted (.durations operation) =
      (Receipt.labels.map fun label => counted (.operations operation label)).sum) ∧
    (∀ operation ∈ ["put", "delete"], calls operation = finished operation + counted (.retries operation)) ∧
    calls "list" =
      ((receipts.filter (·.operation = "list")).map Receipt.positions).sum + counted (.retries "list") ∧
    (c.hedging.enabled = false → calls "get" = finished "get" + counted (.retries "get")) ∧
    calls "get" ≤ finished "get" + counted .hedgesIssued + counted (.retries "get") ∧
    ((∀ stub ∈ stubs, stub.aborted = 0) →
      calls "get" = finished "get" + counted .hedgesIssued + counted (.retries "get")) := by
  intro w v receipts counted calls finished
  have htallied := runJobs_tallied h
  have hoperation (operation label : String) : counted (.operations operation label) =
      receipts.countP fun r => r.operation = operation ∧ r.label = label := by
    have hcount := htallied.operations operation label
    simp only [counted, receipts, v, w]
    omega
  have hduration (operation : String) : counted (.durations operation) = finished operation := by
    have hcount := htallied.durations operation
    simp only [counted, finished, receipts, v, w]
    omega
  have hdue {operation : String} (hne : operation ≠ "get") :
      calls operation = Receipt.dues receipts operation + counted (.retries operation) := by
    have hcalls := htallied.calls_of_ne hne
    simp only [World.retried] at hcalls
    simp only [calls, counted, receipts, v, w]
    omega
  obtain ⟨left, hget, hoff, haborted⟩ := htallied.calls_get
  have hreads : calls "get" + left = finished "get" + counted .hedgesIssued + counted (.retries "get") := by
    simp only [World.retried] at hget
    simp only [calls, finished, counted, receipts, v, w]
    omega
  refine ⟨tasks_of_runJobs h, hoperation, fun operation => ⟨hduration operation, ?_⟩, ?_, ?_, ?_, by omega, ?_⟩
  · simp only [hduration, hoperation, finished]
    rw [Receipt.countP_operation receipts operation]
    simp [Receipt.labels]
  · intro operation hwrite
    obtain ⟨hget, hlist⟩ : operation ≠ "get" ∧ operation ≠ "list" := by
      simp only [List.mem_cons, List.not_mem_nil, or_false] at hwrite
      rcases hwrite with rfl | rfl <;> decide
    rw [hdue hget, Receipt.dues_of_ne receipts hlist]
  · rw [hdue (by decide), Receipt.dues_list]
  · intro hp
    obtain ⟨rfl, hhedges⟩ := hoff hp
    have hnone : counted .hedgesIssued = 0 := by
      simp only [counted, v, w]
      omega
    omega
  · intro hall
    obtain rfl := haborted hall
    omega

namespace Session

/-- A put that is refused once, a read whose first attempt waits too long, a read of a key that is not there, and a
listing of two pages. -/
def errands : List Task := [.write (.put "k" [1]), .get "k", .get "missing", .list "" ""]

def shop : Client FaultyMemory := { hedging := { after := .ofMillis 1 }, backend := FaultyMemory.backend }

def opened : Session (Recorded Request FaultyMemory) where
  shared :=
    { world :=
        { store :=
            { store :=
                { faults :=
                    [{ error := some (.service "SlowDown" none none) }, {}, { delay := .ofSecs 1 }, {}, {},
                      { page := some { next := some "a", truncated := true } }, {}] } } }
      limiter := .unlimited }

def errandReceipts : List Receipt :=
  [⟨.write (.put "k" [1]), .ok (), 0⟩, ⟨.get "k", .ok ⟨[1], 1⟩, 0⟩,
    ⟨.get "missing", .error (.noSuchKey "missing"), 0⟩,
    ⟨.list "" "", .ok { objects := [⟨"k", 1, some ⟨0, 0⟩⟩] }, 2⟩]

/-- What the errands return by the clock, and what the metrics say of them. -/
theorem errands_metrics : ∃ s', opened.runTasks shop.counted errands = some (errandReceipts, s') ∧
    s'.shared.world.metrics.count (.operations "get" "ok") = 1 ∧
    s'.shared.world.metrics.count (.operations "get" "not_found") = 1 ∧
    s'.shared.world.calls "put" = 1 + s'.shared.world.retried "put" ∧
    s'.shared.world.calls "list" = 2 + s'.shared.world.retried "list" ∧
    s'.shared.world.calls "get" ≤
      2 + s'.shared.world.metrics.count .hedgesIssued + s'.shared.world.retried "get" := by
  obtain ⟨s', hrun⟩ : ∃ s', opened.runTasks shop.counted errands = some (errandReceipts, s') := ⟨_, rfl⟩
  obtain ⟨jobs, stubs, -, hjobs, hreceipts⟩ := exists_jobs hrun
  obtain ⟨-, hoperations, -, hwrites, hlist, -, hget, -⟩ := runJobs_metrics hjobs
  rw [hreceipts] at hoperations hwrites hlist hget
  have hcalls (operation : String) : opened.shared.world.calls operation = 0 := rfl
  have hcounts (series : Series) : opened.shared.world.metrics.count series = 0 := rfl
  have hputs : errandReceipts.countP (·.operation = "put") = 1 := rfl
  have hgets : errandReceipts.countP (·.operation = "get") = 2 := rfl
  have hpositions : ((errandReceipts.filter (·.operation = "list")).map Receipt.positions).sum = 2 := rfl
  have hok : errandReceipts.countP (fun r => r.operation = "get" ∧ r.label = "ok") = 1 := rfl
  have hnone : errandReceipts.countP (fun r => r.operation = "get" ∧ r.label = "not_found") = 1 := rfl
  have hfound := hoperations "get" "ok"
  have hmissing := hoperations "get" "not_found"
  have hput := hwrites "put" (by simp)
  simp only [hcalls, hcounts, hok, hnone, hputs, hgets, hpositions, Nat.cast_zero, sub_zero]
    at hfound hmissing hput hlist hget
  exact ⟨s', hrun, by omega, by omega, by simp only [World.retried]; omega, by simp only [World.retried]; omega,
    by simp only [World.retried]; omega⟩

end Session
end ObjectStorage
