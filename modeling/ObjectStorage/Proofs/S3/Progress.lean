import ObjectStorage.Client
import ObjectStorage.Proofs.Retry.Runs
import ObjectStorage.Proofs.S3.Routes
import ObjectStorage.Proofs.Work.Recorded

/-! # Progress of listings

Whatever the buckets answer, a listing of all of them asks for no place twice, but for one: a page of the
first bucket that says that there is more and names an empty token leads back to the start.
-/
namespace ObjectStorage.S3

variable {σ : Type}

/-- Several buckets as one store; all calls to them are noted with their answers. -/
def Buckets.watched (names : List String) (bucket : String → Backend σ) (steps : Nat) :
    Backend (Recorded BucketCall σ) :=
  backend names (fun name => (bucket name).recorded fun r answer => ⟨name, r, answer⟩) steps

def attemptPage (names : List String) (bucket : String → Backend σ) (steps : Nat) (first delimiter : String)
    (token : Option String) : Timed (World (Recorded BucketCall σ)) (Except StorageError Page) :=
  World.onStore ((Buckets.watched names bucket steps).call (.page first delimiter token))

section Attempts
variable {names : List String} (bucket : String → Backend σ) (steps : Nat) {first delimiter : String}
variable {token : Option String}

theorem run_watched_page {c : Cursor} (hcursor : Buckets.cursorOf token = .ok c) {name : String}
    (hname : names[c.bucket]? = some name) {now : Nat} {m : Recorded BucketCall σ}
    {answer : Except StorageError Page} {time : Nat} {store : σ}
    (hcall : ((bucket name).call (.page first delimiter c.token)).run now m.store = (answer, time, store)) :
    ((Buckets.watched names bucket steps).call (.page first delimiter token)).run now m =
      (answer.map (Buckets.place names.length c.bucket), time,
        ⟨store, m.notes ++ [⟨name, .page first delimiter c.token, answer⟩]⟩) := by
  have hread := Backend.run_recorded (fun r answer => (⟨name, r, answer⟩ : BucketCall)) (bucket name)
    (.page first delimiter c.token) now m
  rw [hcall] at hread
  simp only [Buckets.watched, Buckets.backend, Buckets.page, hcursor, hname, Timed.bind_eq, Timed.run_bind, hread]
  cases answer <;> rfl

theorem run_attemptPage {c : Cursor} (hcursor : Buckets.cursorOf token = .ok c) {name : String}
    (hname : names[c.bucket]? = some name) (now : Nat) (w : World (Recorded BucketCall σ)) :
    ∃ answer time store, (attemptPage names bucket steps first delimiter token).run now w =
      (answer.map (Buckets.place names.length c.bucket), time,
        { w with store := ⟨store, w.store.notes ++ [⟨name, .page first delimiter c.token, answer⟩]⟩ }) := by
  rcases hcall : ((bucket name).call (.page first delimiter c.token)).run now w.store.store
    with ⟨answer, time, store⟩
  refine ⟨answer, time, store, ?_⟩
  rw [attemptPage, World.run_onStore, run_watched_page bucket steps hcursor hname hcall]

/-- Without a bucket to call nothing is called. -/
theorem run_attemptPage_nowhere (h : ∀ c, Buckets.cursorOf token = .ok c → names[c.bucket]? = none) (now : Nat)
    (w : World (Recorded BucketCall σ)) :
    ∃ e, (attemptPage names bucket steps first delimiter token).run now w = (.error e, now, w) := by
  rw [attemptPage, World.run_onStore]
  simp only [Buckets.watched, Buckets.backend, Buckets.page]
  cases hcursor : Buckets.cursorOf token with
  | error e => exact ⟨e, rfl⟩
  | ok c =>
    simp only [h c hcursor]
    exact ⟨_, rfl⟩

theorem run_visit (retry : RetryPolicy) {c : Cursor} (hcursor : Buckets.cursorOf token = .ok c) {name : String}
    (hname : names[c.bucket]? = some name) (now : Nat) (w : World (Recorded BucketCall σ)) :
    ∃ (failures : List StorageError) (answer : Except StorageError Page) (time : Nat)
      (after : World (Recorded BucketCall σ)),
      (retry.run "list" .read (attemptPage names bucket steps first delimiter token)).run now w =
        (answer.map (Buckets.place names.length c.bucket), time, after) ∧
      after.store.notes = w.store.notes ++ (Visit.mk name c failures answer).calls first delimiter := by
  let failed (e : StorageError) : BucketCall := ⟨name, .page first delimiter c.token, .error e⟩
  have hkeeps : ∀ time (v : World (Recorded BucketCall σ)) failures e,
      v.store.notes = w.store.notes ++ failures.map failed →
      ((attemptPage names bucket steps first delimiter token).run time v).1 = .error e →
      retry.retries .read e = true →
      ((attemptPage names bucket steps first delimiter token).run time v).2.2.store.notes =
        w.store.notes ++ (failures ++ [e]).map failed := by
    intro time v failures e hv hfail _
    obtain ⟨answer, later, store, hcall⟩ := run_attemptPage bucket steps hcursor hname time v
    rw [hcall] at hfail ⊢
    cases answer with
    | ok p => cases hfail
    | error other =>
      obtain rfl : other = e := Except.error.inj hfail
      simp [hv, failed]
  obtain ⟨time, world, failures, hrun, hnotes, -⟩ :=
    RetryPolicy.run_attempts (w := w)
      (P := fun (m : Recorded BucketCall σ) failures => m.notes = w.store.notes ++ failures.map failed)
      "list" hkeeps retry.maxRetries now [] (by simp)
  obtain ⟨answer, later, store, hcall⟩ := run_attemptPage bucket steps hcursor hname time world
  refine ⟨failures, answer, later, _, hrun.trans hcall, ?_⟩
  simp [hnotes, Visit.calls, failed]

theorem run_nowhere (retry : RetryPolicy) (h : ∀ c, Buckets.cursorOf token = .ok c → names[c.bucket]? = none)
    (now : Nat) (w : World (Recorded BucketCall σ)) :
    ∃ e time after, (retry.run "list" .read (attemptPage names bucket steps first delimiter token)).run now w =
      (.error e, time, after) ∧ after.store.notes = w.store.notes := by
  have hkeeps : ∀ time (v : World (Recorded BucketCall σ)) (_ : List StorageError) e,
      v.store.notes = w.store.notes →
      ((attemptPage names bucket steps first delimiter token).run time v).1 = .error e →
      retry.retries .read e = true →
      ((attemptPage names bucket steps first delimiter token).run time v).2.2.store.notes = w.store.notes := by
    intro time v _ e hv _ _
    obtain ⟨_, hcall⟩ := run_attemptPage_nowhere bucket steps h time v
    rw [hcall]
    exact hv
  obtain ⟨time, world, failures, hrun, hnotes, -⟩ :=
    RetryPolicy.run_attempts (w := w) (P := fun (m : Recorded BucketCall σ) _ => m.notes = w.store.notes)
      "list" hkeeps retry.maxRetries now [] rfl
  obtain ⟨e, hcall⟩ := run_attemptPage_nowhere bucket steps h time world
  exact ⟨e, time, world, hrun.trans hcall, hnotes⟩

end Attempts

/-- So far a listing visited certain places and obtained certain pages of all buckets from them. -/
def Travelled (names : List String) (first delimiter : String) (before : List BucketCall) (pages : List Page)
    (_ : Nat) (w : World (Recorded BucketCall σ)) : Prop :=
  ∃ visits, Route names visits ∧ (∀ v ∈ visits, ∃ p, v.answer = .ok p) ∧
    visits.filterMap (Visit.placed names.length) = pages ∧
    w.store.notes = before ++ visits.flatMap (Visit.calls first delimiter)

theorem ofPages_visited (count : Nat) (visits : List Visit) :
    Listing.ofPages (visits.filterMap (Visit.placed count)) =
      .ofPages (visits.filterMap fun v => v.answer.toOption) := by
  have hview {α : Type} (view : Page → List α) (h : ∀ bucket p, view (Buckets.place count bucket p) = view p) :
      (visits.filterMap (Visit.placed count)).flatMap view =
        (visits.filterMap fun v => v.answer.toOption).flatMap view := by
    induction visits with
    | nil => rfl
    | cons v visits ih =>
      cases hanswer : v.answer with
      | error e => simpa [Visit.placed, hanswer, Except.toOption] using ih
      | ok p => simpa [Visit.placed, hanswer, Except.toOption, h] using ih
  simp only [Listing.ofPages, hview Page.objects (by simp), hview Page.commonPrefixes (by simp)]

section Listings
variable {names : List String} (bucket : String → Backend σ) (steps : Nat) {first delimiter : String}
variable (retry : RetryPolicy)

theorem Travelled.run {before : List BucketCall} {pages : List Page} {now : Nat} {w : World (Recorded BucketCall σ)}
    (h : Travelled names first delimiter before pages now w) (htrail : Trail pages) {answer : Except StorageError Page}
    {time : Nat} {after : World (Recorded BucketCall σ)}
    (hfetch : (retry.run "list" .read
      (attemptPage names bucket steps first delimiter (Trail.tokenAfter pages))).run now w = (answer, time, after)) :
    ∃ visits, Route names visits ∧ after.store.notes = before ++ visits.flatMap (Visit.calls first delimiter) ∧
      ∀ q, answer = .ok q → (∀ v ∈ visits, ∃ p, v.answer = .ok p) ∧
        visits.filterMap (Visit.placed names.length) = pages ++ [q] := by
  obtain ⟨visits, hroute, hserved, rfl, hnotes⟩ := h
  by_cases hplace : ∃ c name, Buckets.cursorOf (Trail.tokenAfter (visits.filterMap (Visit.placed names.length))) =
      .ok c ∧ names[c.bucket]? = some name
  · obtain ⟨c, name, hcursor, hname⟩ := hplace
    obtain ⟨failures, reply, later, world, hrun, hcalls⟩ :=
      run_visit bucket steps retry hcursor hname now w
    obtain ⟨rfl, rfl, rfl⟩ : answer = _ ∧ time = _ ∧ after = _ := by
      simpa only [Prod.mk.injEq] using hfetch.symm.trans hrun
    refine ⟨visits ++ [⟨name, c, failures, reply⟩], hroute.step hserved htrail hcursor hname, ?_, ?_⟩
    · rw [hcalls, hnotes, List.flatMap_append, List.append_assoc, List.flatMap_singleton]
    · intro q hq
      cases reply with
      | error e => cases hq
      | ok p =>
        obtain rfl : Buckets.place names.length c.bucket p = q := Except.ok.inj hq
        refine ⟨?_, by simp [Visit.placed, Except.toOption]⟩
        intro v hv
        rcases List.mem_append.1 hv with hv | hv
        · exact hserved v hv
        · exact ⟨p, by rw [List.mem_singleton.1 hv]⟩
  · have hnowhere : ∀ c, Buckets.cursorOf (Trail.tokenAfter (visits.filterMap (Visit.placed names.length))) =
        .ok c → names[c.bucket]? = none :=
      fun c hcursor => Option.eq_none_iff_forall_ne_some.2 fun name hname => hplace ⟨c, name, hcursor, hname⟩
    obtain ⟨e, later, world, hrun, hsame⟩ := run_nowhere bucket steps retry hnowhere now w
    obtain ⟨rfl, rfl, rfl⟩ : answer = _ ∧ time = _ ∧ after = _ := by
      simpa only [Prod.mk.injEq] using hfetch.symm.trans hrun
    exact ⟨visits, hroute, hsame.trans hnotes, fun q hq => by cases hq⟩

theorem kept_travelled (before : List BucketCall) :
    Collector.KeptBy (fun token => retry.run "list" .read (attemptPage names bucket steps first delimiter token))
      (Travelled names first delimiter before) := by
  rintro pages q now time w t htrail h hfetch -
  obtain ⟨visits, hroute, hnotes, hpages⟩ := h.run bucket steps retry htrail hfetch
  obtain ⟨hserved, hpages⟩ := hpages q rfl
  exact ⟨visits, hroute, hserved, hpages, hnotes⟩

/-- If a listing succeeds, all of its visits are to pages of a trail, but the last one, which concludes it. -/
theorem exists_route_concluded {before : List BucketCall} {maxPages fuel : Nat}
    {outcome : Option (Except StorageError Listing)} {time : Nat} {w : World (Recorded BucketCall σ)}
    (h : Collector.Ended (fun token => retry.run "list" .read (attemptPage names bucket steps first delimiter token))
      maxPages (Travelled names first delimiter before) fuel (outcome, time, w)) :
    ∃ visits, Route names visits ∧ w.store.notes = before ++ visits.flatMap (Visit.calls first delimiter) ∧
      ∀ listing, outcome = some (.ok listing) → (∀ v ∈ visits, ∃ p, v.answer = .ok p) ∧
        ∃ pages q, Trail pages ∧ visits.filterMap (Visit.placed names.length) = pages ++ [q] ∧
          Collector.conclude pages q = .ok listing := by
  cases h with
  | going trail all room fetched =>
    obtain ⟨visits, hroute, -, -, hnotes⟩ := fetched
    exact ⟨visits, hroute, hnotes, fun listing hlisting => by simp at hlisting⟩
  | full trail le limit fetched =>
    obtain ⟨visits, hroute, -, -, hnotes⟩ := fetched
    exact ⟨visits, hroute, hnotes, fun listing hlisting => by simp at hlisting⟩
  | failed trail lt room fetched answer =>
    obtain ⟨visits, hroute, hnotes, -⟩ := fetched.run bucket steps retry trail answer
    exact ⟨visits, hroute, hnotes, fun listing hlisting => by simp at hlisting⟩
  | @concluded pages now time s t p trail lt room fetched answer last =>
    obtain ⟨visits, hroute, hnotes, hpages⟩ := fetched.run bucket steps retry trail answer
    obtain ⟨hserved, hplaced⟩ := hpages p rfl
    exact ⟨visits, hroute, hnotes, fun listing hlisting =>
      ⟨hserved, pages, p, trail, hplaced, Option.some.inj hlisting⟩⟩

theorem exists_route {before : List BucketCall} {maxPages fuel : Nat} {outcome : Option (Except StorageError Listing)}
    {time : Nat} {w : World (Recorded BucketCall σ)}
    (h : Collector.Ended (fun token => retry.run "list" .read (attemptPage names bucket steps first delimiter token))
      maxPages (Travelled names first delimiter before) fuel (outcome, time, w)) :
    ∃ visits, Route names visits ∧ w.store.notes = before ++ visits.flatMap (Visit.calls first delimiter) ∧
      ∀ listing, outcome = some (.ok listing) →
        listing = .ofPages (visits.filterMap fun v => v.answer.toOption) := by
  obtain ⟨visits, hroute, hnotes, hlisted⟩ := exists_route_concluded bucket steps retry h
  refine ⟨visits, hroute, hnotes, fun listing hlisting => ?_⟩
  obtain ⟨-, pages, q, -, hplaced, hconclude⟩ := hlisted listing hlisting
  rw [Collector.eq_of_conclude hconclude, ← hplaced, ofPages_visited]

end Listings

/-- The listing of several buckets, whatever these answer. Its calls are those of visits to places, and if it
succeeds it lists each page visited once. No place is visited twice, but for the first one if the first bucket
answers with a truncated page with an empty token. -/
theorem run_list_visits (names : List String) (bucket : String → Backend σ) (retry : RetryPolicy)
    (hedging : HedgePolicy) (maxPages steps : Nat) (first delimiter : String) (fuel now : Nat)
    (w : World (Recorded BucketCall σ)) :
    let c : Client (Recorded BucketCall σ) :=
      { retry := retry, hedging := hedging, maxPages := maxPages, backend := Buckets.watched names bucket steps }
    ∃ (visits : List Visit) (outcome : Option (Except StorageError Listing)) (time : Nat)
      (after : World (Recorded BucketCall σ)),
      (c.listWithin fuel first delimiter).run now w = (outcome, time, after) ∧
      after.store.notes = w.store.notes ++ visits.flatMap (Visit.calls first delimiter) ∧
      (∀ listing, outcome = some (.ok listing) →
        listing = .ofPages (visits.filterMap fun v => v.answer.toOption)) ∧
      (∀ v ∈ visits, names[v.cursor.bucket]? = some v.name) ∧
      (∀ v ∈ visits.head?, v.cursor = {}) ∧
      (visits.tail.map Visit.cursor).Nodup ∧
      (¬(visits.map Visit.cursor).Nodup ↔ ∃ v ∈ visits.dropLast, v.LeadsBack) := by
  intro c
  have hstart : Travelled names first delimiter w.store.notes [] now w :=
    ⟨[], .start, by simp, rfl, by simp⟩
  have hended := Collector.ended_collect (kept_travelled bucket steps retry w.store.notes) maxPages fuel hstart
  obtain ⟨visits, hroute, hnotes, hlisting⟩ := exists_route bucket steps retry hended
  obtain ⟨after, hlist, hstore⟩ := c.exists_run_listWithin first delimiter fuel now w
  exact ⟨visits, _, _, after, hlist, hstore ▸ hnotes, hlisting, hroute.name_eq, hroute.head_cursor,
    hroute.nodup_tail, hroute.not_nodup_iff⟩

def paged : Backend (List Page) where
  call
    | .page _ _ _ => .modifyGet fun pages => match pages with
      | [] => (.error (.invalidResponse "no more pages"), [])
      | p :: rest => (.ok p, rest)
    | .get key => return .error (.noSuchKey key)
    | .put _ _ | .delete _ => return .ok ()

/-- A single bucket whose first page names an empty token is asked for it again, and what is on it is listed twice. -/
theorem run_list_empty_token :
    let c : Client (Recorded BucketCall (List Page)) := { backend := Buckets.watched ["west"] (fun _ => paged) 0 }
    let page : Page := { objects := [⟨"a", 1, none⟩] }
    ∃ time after, (c.listWithin 2 "" "").run 0
        { store := { store := [{ page with next := some "", truncated := true }, page] } } =
        (some (.ok { objects := [⟨"a", 1, none⟩, ⟨"a", 1, none⟩] }), time, after) ∧
      after.store.notes.map (fun call => (call.name, call.request)) =
        [("west", .page "" "" none), ("west", .page "" "" none)] ∧
      after.store.notes.map BucketCall.failed = [false, false] := by
  exact ⟨_, _, rfl, rfl, rfl⟩

end ObjectStorage.S3
