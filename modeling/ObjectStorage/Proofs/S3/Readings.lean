import Mathlib.Data.Set.Function
import ObjectStorage.Proofs.S3.Progress
import ObjectStorage.S3.Exchange

/-! # Cursors that a listing follows

The text of a cursor says where it leads, and different places have different texts. A listing of several
buckets is only handed texts that it wrote itself: each of them can be read and names a bucket that there is,
none of them leads back to an earlier bucket, and the failures of a cursor that leads nowhere never arise.
-/
namespace ObjectStorage.S3

variable {σ : Type}

namespace Cursor

theorem decode_encode_settled {c : Cursor} (h : c.bucket < bucketLimit) : decode c.encode = .ok c.settled := by
  rw [← encode_settled]
  exact decode_encode (writable_settled h)

/-- Places with the same text are told apart by their tokens at most, and only if one is empty. -/
theorem settled_eq_of_encode_eq {c d : Cursor} (hc : c.bucket < bucketLimit) (hd : d.bucket < bucketLimit)
    (h : c.encode = d.encode) : c.settled = d.settled := by
  have hread := decode_encode_settled hc
  rw [h, decode_encode_settled hd] at hread
  exact (Except.ok.inj hread).symm

theorem Writable.settled_eq {c : Cursor} (h : c.Writable) : c.settled = c :=
  Except.ok.inj ((decode_encode_settled h.bucket_lt).symm.trans (decode_encode h))

theorem eq_of_encode_eq {c d : Cursor} (hc : c.Writable) (hd : d.Writable) (h : c.encode = d.encode) : c = d := by
  have hsettled := settled_eq_of_encode_eq hc.bucket_lt hd.bucket_lt h
  rwa [hc.settled_eq, hd.settled_eq] at hsettled

theorem encode_within_ne {i j : Nat} (hi : i < bucketLimit) (hj : j < bucketLimit) (h : i ≠ j) (token : String) :
    (within i token).encode ≠ (within j token).encode := fun htext =>
  h (congrArg bucket (settled_eq_of_encode_eq (c := within i token) (d := within j token) hi hj htext))

end Cursor

namespace Buckets

/-- The failures of a cursor that cannot be followed. -/
inductive Astray : StorageError → Prop
  | malformed (raw : String) : Astray (Cursor.malformed raw)
  | noSuchBucket (bucket count : Nat) : Astray (noSuchBucket bucket count)

/-- A bucket that never answers a request for a page as if a cursor could not be followed. -/
def Steady (b : Backend σ) : Prop :=
  ∀ (first delimiter : String) (token : Option String) (now : Nat) (s : σ) (e : StorageError),
    ((b.call (.page first delimiter token)).run now s).1 = .error e → ¬Astray e

theorem not_astray_of_begins {reason : String} (hmalformed : reason.toList.take 10 ≠ "malformed ".toList)
    (hlisting : reason.toList.take 10 ≠ "listing cu".toList) : ¬Astray (.invalidResponse reason) := by
  generalize he : StorageError.invalidResponse reason = e
  rintro (⟨raw⟩ | ⟨bucket, count⟩)
  · obtain rfl := StorageError.invalidResponse.inj he
    simp at hmalformed
  · obtain rfl := StorageError.invalidResponse.inj he
    simp at hlisting

theorem not_astray_repeated (token : String) : ¬Astray (Collector.repeated token) :=
  not_astray_of_begins (by simp) (by simp)

theorem not_astray_cutShort (r : Http.Response) : ¬Astray (Exchange.cutShort r) :=
  not_astray_of_begins (by simp) (by simp)

theorem exists_place_next {names : List String} (hcount : names.length ≤ Cursor.bucketLimit) {bucket : Nat}
    (hbucket : bucket < names.length) {p : Page} {token : String}
    (h : (place names.length bucket p).next = some token) :
    ∃ c name, cursorOf (some token) = .ok c ∧ names[c.bucket]? = some name ∧ bucket ≤ c.bucket := by
  rcases next_place_cases h with ⟨-, inner, -, rfl⟩ | ⟨-, hmore, rfl⟩
  · have hread := Cursor.decode_encode_settled (c := .within bucket inner) (Nat.lt_of_lt_of_le hbucket hcount)
    exact ⟨_, _, hread, List.getElem?_eq_getElem hbucket, Nat.le_refl _⟩
  · have hread := Cursor.decode_encode_settled (c := .startOf (bucket + 1)) (Nat.lt_of_lt_of_le hmore hcount)
    exact ⟨_, _, hread, List.getElem?_eq_getElem hmore, Nat.le_succ _⟩

end Buckets

/-! ## What buckets fail with -/

theorem Refusal.exists_read_eq (rules : Rules) (r : Http.Response) :
    ∃ code message status, read rules r = .service code message status := by
  unfold read
  repeat' split
  all_goals exact ⟨_, _, _, rfl⟩

theorem Exchange.not_astray_readWhole {α : Type} {rules : Refusal.Rules} {r : Http.Response} {refused : Bool}
    {reading : Http.Response → Option α} {e : StorageError} (h : readWhole rules r refused reading = .error e) :
    ¬Buckets.Astray e := by
  unfold readWhole at h
  split at h
  · obtain rfl := Except.error.inj h
    exact Buckets.not_astray_cutShort r
  · split at h
    · obtain ⟨code, message, status, hrefusal⟩ := Refusal.exists_read_eq rules r
      obtain rfl := Except.error.inj h
      rw [hrefusal]
      rintro ⟨⟩
    · split at h
      · cases h
      · obtain rfl := Except.error.inj h
        rintro ⟨⟩

theorem Exchange.not_astray_outgoing {config : StorageConfig} {day name : String} {r : Request} {e : StorageError}
    (h : outgoing config day name r = .error e) : ¬Buckets.Astray e := by
  unfold outgoing at h
  split at h
  · obtain rfl := Except.error.inj h
    rintro ⟨⟩
  · split at h
    · cases h
    all_goals
      obtain rfl := Except.error.inj h
      rintro ⟨⟩

theorem Exchange.not_astray_failureOf (e : Http.ConnectorError) : ¬Buckets.Astray (failureOf e) := by
  cases e <;> rintro ⟨⟩

theorem steady_bucket (config : StorageConfig) (day : String) (next : Http.Executor σ) (name : String) :
    Buckets.Steady (bucket config day next name) := by
  intro first delimiter token now s e h
  cases hout : Exchange.outgoing config day name (.page first delimiter token) with
  | error refused =>
    simp only [bucket, hout] at h
    obtain rfl := Except.error.inj h
    exact Exchange.not_astray_outgoing hout
  | ok o =>
    simp only [bucket, hout, Timed.bind_eq, Timed.run_bind] at h
    cases hsent : ((Http.Bridge.send next o).run now s).1 with
    | error failure =>
      rw [hsent] at h
      obtain rfl := Except.error.inj h
      exact Exchange.not_astray_failureOf failure
    | ok response =>
      rw [hsent] at h
      have hread : Exchange.read (.page first delimiter token) response = .error e := h
      simp only [Exchange.read] at hread
      exact Exchange.not_astray_readWhole hread

/-! ## Readings -/

/-- A call for a page of all buckets whose cursor was followed: it can be read, it names a bucket, and this
bucket was called, in some state. -/
structure Reading (names : List String) (bucket : String → Backend σ) (first delimiter : String) where
  token : Option String
  cursor : Cursor
  name : String
  answer : Except StorageError Page
  readable : Buckets.cursorOf token = .ok cursor
  configured : names[cursor.bucket]? = some name
  answered : ∃ now s, (((bucket name).call (.page first delimiter cursor.token)).run now s).1 = answer

abbrev StoreCall : Type := (r : Request) × Answer r

/-- The state of some buckets, with the calls to them, and those to the store that they are together. -/
abbrev Survey (σ : Type) : Type := Recorded StoreCall (Recorded BucketCall σ)

namespace Reading
variable {names : List String} {bucket : String → Backend σ} {first delimiter : String}

def outer (r : Reading names bucket first delimiter) : StoreCall :=
  ⟨.page first delimiter r.token, r.answer.map (Buckets.place names.length r.cursor.bucket)⟩

def inner (r : Reading names bucket first delimiter) : BucketCall :=
  ⟨r.name, .page first delimiter r.cursor.token, r.answer⟩

theorem bucket_lt (r : Reading names bucket first delimiter) : r.cursor.bucket < names.length :=
  (List.getElem?_eq_some_iff.1 r.configured).1

end Reading

def Buckets.surveyed (names : List String) (bucket : String → Backend σ) (steps : Nat) : Backend (Survey σ) :=
  (Buckets.watched names bucket steps).recorded Sigma.mk

abbrev surveyPage (names : List String) (bucket : String → Backend σ) (steps : Nat) (first delimiter : String)
    (retry : RetryPolicy) (token : Option String) : Timed (World (Survey σ)) (Except StorageError Page) :=
  retry.run "list" .read (World.onStore ((Buckets.surveyed names bucket steps).call (.page first delimiter token)))

/-- What was noted since some time is a number of readings: each call to the store was one to a bucket. -/
structure Noted {names : List String} {bucket : String → Backend σ} {first delimiter : String}
    (before : Survey σ) (readings : List (Reading names bucket first delimiter)) (m : Survey σ) : Prop where
  outer : m.notes = before.notes ++ readings.map Reading.outer
  inner : m.store.notes = before.store.notes ++ readings.map Reading.inner

section Listings
variable {names : List String} {bucket : String → Backend σ} (steps : Nat) {first delimiter : String}
variable {token : Option String} {c : Cursor} {before : Survey σ}
variable {readings : List (Reading names bucket first delimiter)}

theorem Noted.call {name : String} (hcursor : Buckets.cursorOf token = .ok c)
    (hname : names[c.bucket]? = some name) (now : Nat) {w : World (Survey σ)} (h : Noted before readings w.store) :
    ∃ (r : Reading names bucket first delimiter) (time : Nat) (after : World (Survey σ)),
      (World.onStore ((Buckets.surveyed names bucket steps).call (.page first delimiter token))).run now w =
        (r.answer.map (Buckets.place names.length r.cursor.bucket), time, after) ∧
      Noted before (readings ++ [r]) after.store ∧ r.cursor = c := by
  rcases hcall : ((bucket name).call (.page first delimiter c.token)).run now w.store.store.store
    with ⟨answer, time, store⟩
  let r : Reading names bucket first delimiter :=
    ⟨token, c, name, answer, hcursor, hname, now, w.store.store.store, congrArg Prod.fst hcall⟩
  have hwatched := run_watched_page bucket steps hcursor hname hcall
  refine ⟨r, time, _, Backend.run_onStore_recorded Sigma.mk _ _ hwatched, ⟨?_, ?_⟩, rfl⟩
  · simp [h.outer, r, Reading.outer]
  · simp [h.inner, r, Reading.inner]

theorem Noted.run (retry : RetryPolicy) {name : String} (hcursor : Buckets.cursorOf token = .ok c)
    (hname : names[c.bucket]? = some name) (now : Nat) {w : World (Survey σ)} (h : Noted before readings w.store) :
    ∃ (more : List (Reading names bucket first delimiter)) (r : Reading names bucket first delimiter) (time : Nat)
      (after : World (Survey σ)),
      (surveyPage names bucket steps first delimiter retry token).run now w =
        (r.answer.map (Buckets.place names.length r.cursor.bucket), time, after) ∧
      Noted before (readings ++ (more ++ [r])) after.store ∧ ∀ q ∈ more ++ [r], q.cursor = c := by
  let attempt := World.onStore ((Buckets.surveyed names bucket steps).call (.page first delimiter token))
  let P (m : Survey σ) (_ : List StorageError) : Prop :=
    ∃ more : List (Reading names bucket first delimiter),
      Noted before (readings ++ more) m ∧ ∀ q ∈ more, q.cursor = c
  have hsame {more : List (Reading names bucket first delimiter)} {r} (hmore : ∀ q ∈ more, q.cursor = c)
      (hr : r.cursor = c) : ∀ q ∈ more ++ [r], q.cursor = c :=
    List.forall_mem_append.2 ⟨hmore, List.forall_mem_singleton.2 hr⟩
  have hkeeps : ∀ time v failures e, P v.store failures → (attempt.run time v).1 = .error e →
      retry.retries .read e = true → P (attempt.run time v).2.2.store (failures ++ [e]) := by
    rintro time v failures e ⟨more, hnoted, hmore⟩ - -
    obtain ⟨r, later, after, hrun, hafter, hr⟩ := hnoted.call steps hcursor hname time
    rw [List.append_assoc] at hafter
    exact ⟨more ++ [r], by simpa only [attempt, hrun] using hafter, hsame hmore hr⟩
  obtain ⟨time, world, failures, hrun, ⟨more, hnoted, hmore⟩, -⟩ :=
    RetryPolicy.run_attempts (P := P) "list" hkeeps retry.maxRetries now [] ⟨[], by simpa using h, by simp⟩
  obtain ⟨r, later, after, hlast, hafter, hr⟩ := hnoted.call steps hcursor hname time
  rw [List.append_assoc] at hafter
  exact ⟨more, r, later, after, hrun.trans hlast, hafter, hsame hmore hr⟩

variable (names bucket first delimiter)

/-- Where a listing stands that has fetched certain pages: it has a cursor to follow, and followed none to a later
bucket. -/
def Underway (before : Survey σ) (pages : List Page) (_ : Nat) (w : World (Survey σ)) : Prop :=
  ∃ (readings : List (Reading names bucket first delimiter)) (c : Cursor) (name : String),
    Noted before readings w.store ∧ readings.Pairwise (·.cursor.bucket ≤ ·.cursor.bucket) ∧
    Buckets.cursorOf (Trail.tokenAfter pages) = .ok c ∧ names[c.bucket]? = some name ∧
    ∀ r ∈ readings, r.cursor.bucket ≤ c.bucket

variable {names bucket first delimiter}

theorem Underway.run {pages : List Page} {now : Nat} {w : World (Survey σ)}
    (h : Underway names bucket first delimiter before pages now w) (retry : RetryPolicy)
    {answer : Except StorageError Page} {time : Nat} {after : World (Survey σ)}
    (hfetch : (surveyPage names bucket steps first delimiter retry (Trail.tokenAfter pages)).run now w =
      (answer, time, after)) :
    ∃ (readings : List (Reading names bucket first delimiter)) (r : Reading names bucket first delimiter),
      Noted before (readings ++ [r]) after.store ∧
      (readings ++ [r]).Pairwise (·.cursor.bucket ≤ ·.cursor.bucket) ∧
      answer = r.answer.map (Buckets.place names.length r.cursor.bucket) := by
  obtain ⟨readings, c, name, hnoted, hsorted, hcursor, hname, hle⟩ := h
  obtain ⟨more, r, later, world, hrun, hafter, hsame⟩ := hnoted.run steps retry hcursor hname now
  obtain ⟨rfl, rfl, rfl⟩ : answer = _ ∧ time = _ ∧ after = _ := by
    simpa only [Prod.mk.injEq] using hfetch.symm.trans hrun
  rw [← List.append_assoc] at hafter
  refine ⟨readings ++ more, r, hafter, ?_, rfl⟩
  rw [List.append_assoc, List.pairwise_append]
  refine ⟨hsorted, List.pairwise_of_forall_mem_list ?_, ?_⟩
  · intro p hp q hq
    rw [hsame p hp, hsame q hq]
  · intro p hp q hq
    rw [hsame q hq]
    exact hle p hp

theorem underway_start (hnames : names ≠ []) (now : Nat) (w : World (Survey σ)) :
    Underway names bucket first delimiter w.store [] now w :=
  ⟨[], {}, _, ⟨by simp, by simp⟩, .nil, rfl, List.getElem?_eq_getElem (List.length_pos_iff.2 hnames), by simp⟩

/-- The cursor of each page that leads on can be followed, and does not lead back. -/
theorem kept_underway (hcount : names.length ≤ Cursor.bucketLimit) (retry : RetryPolicy) (before : Survey σ) :
    Collector.KeptBy (surveyPage names bucket steps first delimiter retry)
      (Underway names bucket first delimiter before) := by
  rintro pages q now time w t - h hfetch ⟨-, token, hnext, -⟩
  obtain ⟨readings, r, hnoted, hsorted, hanswer⟩ := h.run steps retry hfetch
  cases hr : r.answer with
  | error e => simp [hr, Except.map] at hanswer
  | ok p =>
    obtain rfl : q = Buckets.place names.length r.cursor.bucket p := by simpa [hr, Except.map] using hanswer
    obtain ⟨c, name, hcursor, hname, hle⟩ := Buckets.exists_place_next hcount r.bucket_lt hnext
    refine ⟨readings ++ [r], c, name, hnoted, hsorted, by rwa [Trail.tokenAfter_append, hnext], hname, ?_⟩
    intro q hq
    refine Nat.le_trans ?_ hle
    rcases List.mem_append.1 hq with hq | hq
    · exact (List.pairwise_append.1 hsorted).2.2 q hq r (by simp)
    · rw [List.mem_singleton.1 hq]

theorem exists_readings (retry : RetryPolicy) {maxPages fuel : Nat} {outcome : Option (Except StorageError Listing)}
    {time : Nat} {w : World (Survey σ)}
    (h : Collector.Ended (surveyPage names bucket steps first delimiter retry) maxPages
      (Underway names bucket first delimiter before) fuel (outcome, time, w)) :
    ∃ readings : List (Reading names bucket first delimiter), Noted before readings w.store ∧
      readings.Pairwise (·.cursor.bucket ≤ ·.cursor.bucket) ∧
      ∀ e, outcome = some (.error e) → e = .tooManyPages maxPages ∨ (∃ token, e = Collector.repeated token) ∨
        ∃ r ∈ readings, r.answer = .error e := by
  cases h with
  | going trail all room fetched =>
    obtain ⟨readings, -, -, hnoted, hsorted, -⟩ := fetched
    exact ⟨readings, hnoted, hsorted, fun e he => by simp at he⟩
  | full trail le limit fetched =>
    obtain ⟨readings, -, -, hnoted, hsorted, -⟩ := fetched
    refine ⟨readings, hnoted, hsorted, fun e he => .inl ?_⟩
    simpa [eq_comm] using he
  | @failed pages now time s t failure trail lt room fetched answer =>
    obtain ⟨readings, r, hnoted, hsorted, hanswer⟩ := fetched.run steps retry answer
    refine ⟨_, hnoted, hsorted, fun e he => .inr (.inr ⟨r, by simp, ?_⟩)⟩
    obtain rfl : failure = e := by simpa using he
    cases hr : r.answer with
    | error other => simpa [hr, Except.map, eq_comm] using hanswer
    | ok p => simp [hr, Except.map] at hanswer
  | @concluded pages now time s t p trail lt room fetched answer last =>
    obtain ⟨readings, r, hnoted, hsorted, -⟩ := fetched.run steps retry answer
    refine ⟨_, hnoted, hsorted, fun e he => .inr (.inl ?_)⟩
    exact Collector.exists_repeated_of_conclude (Option.some.inj he)

end Listings

/-- Cursors are read back from their texts, which differ unless a token is empty. The listing of several buckets
calls the store only with cursors that can be read and name a bucket, each call is one to that bucket, and the
numbers of the buckets never decrease. So nothing fails because of a cursor. -/
theorem run_list_readings :
    (∀ c : Cursor, c.Writable → Cursor.decode c.encode = .ok c) ∧
    Set.InjOn Cursor.encode {c | c.Writable} ∧
    (∀ (i j : Nat) (token : String), i < Cursor.bucketLimit → j < Cursor.bucketLimit → i ≠ j →
      (Cursor.within i token).encode ≠ (Cursor.within j token).encode) ∧
    (∀ (names : List String) (bucket : String → Backend σ) (retry : RetryPolicy) (hedging : HedgePolicy)
      (maxPages steps : Nat) (first delimiter : String) (fuel now : Nat) (w : World (Survey σ)),
      names ≠ [] → names.length ≤ Cursor.bucketLimit →
      let c : Client (Survey σ) :=
        { retry := retry, hedging := hedging, maxPages := maxPages, backend := Buckets.surveyed names bucket steps }
      ∃ (readings : List (Reading names bucket first delimiter)) (outcome : Option (Except StorageError Listing))
        (time : Nat) (after : World (Survey σ)),
        (c.listWithin fuel first delimiter).run now w = (outcome, time, after) ∧
        Noted w.store readings after.store ∧
        readings.Pairwise (·.cursor.bucket ≤ ·.cursor.bucket) ∧
        ((∀ name, Buckets.Steady (bucket name)) → ∀ e, Buckets.Astray e →
          outcome ≠ some (.error e) ∧ ∀ r ∈ readings, r.outer.2 ≠ .error e)) ∧
    ∀ (config : StorageConfig) (day : String) (next : Http.Executor σ) (name : String),
      Buckets.Steady (bucket config day next name) := by
  refine ⟨fun c => Cursor.decode_encode, fun c hc d hd => Cursor.eq_of_encode_eq hc hd,
    fun i j token hi hj h => Cursor.encode_within_ne hi hj h token, ?_, steady_bucket⟩
  intro names bucket retry hedging maxPages steps first delimiter fuel now w hnames hcount c
  have hstart : Underway names bucket first delimiter w.store [] now w := underway_start hnames now w
  have hended := Collector.ended_collect (kept_underway steps hcount retry w.store) maxPages fuel hstart
  obtain ⟨readings, hnoted, hsorted, hfails⟩ := exists_readings steps retry hended
  obtain ⟨after, hlist, hstore⟩ := c.exists_run_listWithin first delimiter fuel now w
  refine ⟨readings, _, _, after, hlist, hstore ▸ hnoted, hsorted, ?_⟩
  intro hsteady e he
  have hnone : ∀ r ∈ readings, r.answer ≠ .error e := by
    intro r _ hr
    obtain ⟨time, s, hanswered⟩ := r.answered
    exact hsteady r.name first delimiter r.cursor.token time s e (hanswered.trans hr) he
  constructor
  · intro hfail
    rcases hfails e hfail with rfl | ⟨token, rfl⟩ | ⟨r, hr, hanswer⟩
    · cases he
    · exact Buckets.not_astray_repeated token he
    · exact hnone r hr hanswer
  · intro r hr hfail
    cases hanswer : r.answer with
    | ok p => simp [Reading.outer, hanswer, Except.map] at hfail
    | error other =>
      obtain rfl : other = e := by simpa [Reading.outer, hanswer, Except.map] using hfail
      exact hnone r hr hanswer

theorem steady_paged : Buckets.Steady paged := by
  intro first delimiter token now s e h
  cases s with
  | nil =>
    obtain rfl := Except.error.inj h
    exact Buckets.not_astray_of_begins (by simp) (by simp)
  | cons p rest => cases h

/-- Two buckets, the first one with a token that looks like a cursor to the second one. -/
theorem run_list_readings_bars :
    (Cursor.within 0 "1|").Writable ∧ (Cursor.startOf 1).Writable ∧
    Cursor.decode (Cursor.within 0 "1|").encode = .ok (.within 0 "1|") ∧
    (Cursor.within 0 "1|").encode ≠ (Cursor.startOf 1).encode ∧
    (Cursor.within 0 "1|").encode ≠ (Cursor.within 1 "1|").encode ∧
    ["west", "east"] ≠ [] ∧ ["west", "east"].length ≤ Cursor.bucketLimit ∧ Buckets.Steady paged ∧
    let c : Client (Survey (List Page)) := { backend := Buckets.surveyed ["west", "east"] (fun _ => paged) 0 }
    let served : List Page :=
      [{ objects := [⟨"a", 1, none⟩], next := some "1|", truncated := true }, {}, { objects := [⟨"b", 1, none⟩] }]
    ∃ (readings : List (Reading ["west", "east"] (fun _ => paged) "" "")) (time : Nat)
      (after : World (Survey (List Page))),
      (c.listWithin 4 "" "").run 0 { store := { store := { store := served } } } =
        (some (.ok { objects := [⟨"a", 1, none⟩, ⟨"b", 1, none⟩] }), time, after) ∧
      readings.map (fun r => r.outer.1) =
        [.page "" "" none, .page "" "" (some "0|1|"), .page "" "" (some "1|")] ∧
      readings.Pairwise (·.cursor.bucket ≤ ·.cursor.bucket) ∧
      ∀ e, Buckets.Astray e → ∀ r ∈ readings, r.outer.2 ≠ .error e := by
  obtain ⟨hread, hinj, hwithin, hlist, -⟩ := run_list_readings (σ := List Page)
  have hfirst : (Cursor.within 0 "1|").Writable := ⟨by decide, by decide⟩
  have hsecond : (Cursor.startOf 1).Writable := ⟨by decide, by decide⟩
  refine ⟨hfirst, hsecond, hread _ hfirst, fun htext => ?_,
    hwithin 0 1 "1|" (by decide) (by decide) (by decide), by simp, by decide, steady_paged, ?_⟩
  · exact absurd (hinj hfirst hsecond htext) (by decide)
  intro c served
  have hserved : ∃ time after, (c.listWithin 4 "" "").run 0 { store := { store := { store := served } } } =
      (some (.ok { objects := [⟨"a", 1, none⟩, ⟨"b", 1, none⟩] }), time, after) ∧
      after.store.notes.map Sigma.fst =
        [.page "" "" none, .page "" "" (some "0|1|"), .page "" "" (some "1|")] := ⟨_, _, rfl, rfl⟩
  obtain ⟨time, after, hrun, hrequests⟩ := hserved
  obtain ⟨readings, outcome, later, world, hlisted, hnoted, hsorted, hastray⟩ :=
    hlist ["west", "east"] (fun _ => paged) {} {} 10000 0 "" "" 4 0 { store := { store := { store := served } } }
      (by simp) (by decide)
  obtain ⟨rfl, rfl, rfl⟩ : outcome = _ ∧ later = time ∧ world = after := by
    simpa only [Prod.mk.injEq] using hlisted.symm.trans hrun
  refine ⟨readings, later, world, hrun, ?_, hsorted, fun e he => (hastray (fun _ => steady_paged) e he).2⟩
  have hnotes := hnoted.outer
  rw [List.nil_append] at hnotes
  rw [← hrequests, hnotes, List.map_map]
  rfl

end ObjectStorage.S3
