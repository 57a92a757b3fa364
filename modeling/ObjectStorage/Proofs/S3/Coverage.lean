import ObjectStorage.Proofs.S3.Progress

/-! # What a listing covers

A listing goes through the buckets in their order and never passes over one. It stops before the last bucket
only at a page that says that there is more and does not say where: such a page ends the listing, and what
comes after it is left out of a result that is no failure.
-/
namespace ObjectStorage.S3

variable {σ : Type}

namespace Cursor

theorem eq_settled_of_encode_eq {c d : Cursor} (hd : decode d.encode = .ok d) (h : d.encode = c.encode) :
    d = c.settled :=
  eq_settled_of_decode (h ▸ hd)

end Cursor

namespace Visit

theorem Precedes.decode_encode {u v : Visit} (h : u.Precedes v) : Cursor.decode v.cursor.encode = .ok v.cursor := by
  obtain ⟨c, hdecode, -⟩ := h
  rw [Cursor.eq_settled_of_decode hdecode]
  exact Cursor.decode_encode (Cursor.writable_settled (Cursor.bucket_lt_of_decode hdecode))

/-- A visit to a page that says that there is more but not where. -/
def LeavesOff (v : Visit) : Prop := ∃ p, v.answer = .ok p ∧ p.truncated = true ∧ p.next = none

/-- A visit is followed by one to the same bucket, or to the start of the next one. -/
def GoesOn (u v : Visit) : Prop :=
  v.cursor.bucket = u.cursor.bucket ∨ v.cursor = Cursor.startOf (u.cursor.bucket + 1)

theorem GoesOn.bucket_le {u v : Visit} (h : u.GoesOn v) : u.cursor.bucket ≤ v.cursor.bucket := by
  rcases h with h | h
  · exact Nat.le_of_eq h.symm
  · rw [h]
    exact Nat.le_succ _

theorem placed_eq_some {count : Nat} {v : Visit} {q : Page} (h : v.placed count = some q) :
    ∃ p, v.answer = .ok p ∧ q = Buckets.place count v.cursor.bucket p := by
  unfold placed at h
  cases hanswer : v.answer with
  | error e => simp [hanswer, Except.toOption] at h
  | ok p => exact ⟨p, rfl, by simpa [hanswer, Except.toOption, eq_comm] using h⟩

theorem LeavesOff.next_eq_none {count : Nat} {v : Visit} (h : v.LeavesOff) {q : Page} (hq : v.placed count = some q) :
    q.next = none := by
  obtain ⟨p, hanswer, htruncated, hnext⟩ := h
  obtain ⟨p', hanswer', rfl⟩ := placed_eq_some hq
  obtain rfl := Except.ok.inj (hanswer.symm.trans hanswer')
  simp [Buckets.place, htruncated, hnext]

theorem leavesOff_or_last {count : Nat} {v : Visit} {q : Page} (hq : v.placed count = some q) {pages : List Page}
    {listing : Listing} (h : Collector.conclude pages q = .ok listing) : v.LeavesOff ∨ count ≤ v.cursor.bucket + 1 := by
  obtain ⟨p, hanswer, rfl⟩ := placed_eq_some hq
  -- A token that leads on is never the last word of a listing that succeeds.
  have hstop (c : Cursor) (hnext : (Buckets.place count v.cursor.bucket p).next = some c.encode) :
      (Buckets.place count v.cursor.bucket p).truncated = false := by
    cases htruncated : (Buckets.place count v.cursor.bucket p).truncated with
    | false => rfl
    | true => simp [Collector.conclude, hnext, htruncated, Cursor.encode_ne_empty] at h
  cases htruncated : p.truncated with
  | true =>
    cases hnext : p.next with
    | none => exact .inl ⟨p, hanswer, htruncated, hnext⟩
    | some token =>
      have hfalse := hstop (Cursor.within v.cursor.bucket token) (by simp [Buckets.place, htruncated, hnext])
      simp [Buckets.place, htruncated] at hfalse
  | false =>
    refine .inr (Nat.le_of_not_lt fun hmore => ?_)
    have hfalse := hstop (Cursor.startOf (v.cursor.bucket + 1)) (by simp [Buckets.place, htruncated, hmore])
    simp [Buckets.place, htruncated, hmore] at hfalse

end Visit

namespace Route
variable {names : List String} {visits : List Visit}

theorem isChain_goesOn (h : Route names visits) : visits.IsChain Visit.GoesOn := by
  refine h.isChain_of ?_
  intro u v q hplaced hnext hprecedes
  obtain ⟨p, -, rfl⟩ := Visit.placed_eq_some hplaced
  rcases Buckets.next_place_cases hnext with ⟨-, inner, -, htext⟩ | ⟨-, -, htext⟩
  · exact .inl (by rw [Cursor.eq_settled_of_encode_eq hprecedes.decode_encode htext]; rfl)
  · exact .inr (Cursor.eq_settled_of_encode_eq hprecedes.decode_encode htext)

theorem sorted_bucket (h : Route names visits) : (visits.map fun v => v.cursor.bucket).Pairwise (· ≤ ·) := by
  have hchain : (visits.map fun v => v.cursor.bucket).IsChain (· ≤ ·) :=
    (List.isChain_map _).2 (h.isChain_goesOn.imp fun _ _ hgoes => hgoes.bucket_le)
  exact hchain.pairwise

end Route

/-- Visits that go on to a later bucket start with each bucket on the way. -/
theorem exists_startOf {u : Visit} {rest : List Visit} (h : (u :: rest).IsChain Visit.GoesOn) {v : Visit}
    (hv : (u :: rest).getLast? = some v) {i : Nat} (hlt : u.cursor.bucket < i) (hle : i ≤ v.cursor.bucket) :
    ∃ x ∈ rest, x.cursor = Cursor.startOf i := by
  induction rest generalizing u with
  | nil =>
    obtain rfl : u = v := by simpa using hv
    omega
  | cons x rest ih =>
    obtain ⟨hgoes, hrest⟩ := List.isChain_cons_cons.1 h
    rw [List.getLast?_cons_cons] at hv
    by_cases hx : x.cursor = Cursor.startOf i
    · exact ⟨x, List.mem_cons_self, hx⟩
    · have hlt' : x.cursor.bucket < i := by
        rcases hgoes with hsame | hstart
        · omega
        · rw [hstart] at hx ⊢
          refine Nat.lt_of_le_of_ne hlt fun heq => hx ?_
          rw [← heq]
          rfl
      obtain ⟨y, hy, hstart⟩ := ih hrest hv hlt'
      exact ⟨y, List.mem_cons_of_mem _ hy, hstart⟩

theorem Route.exists_start_iff {names : List String} {visits : List Visit} (h : Route names visits) {v : Visit}
    (hv : visits.getLast? = some v) (i : Nat) :
    (∃ u ∈ visits, u.cursor = Cursor.startOf i) ↔ i ≤ v.cursor.bucket := by
  constructor
  · rintro ⟨u, hu, hstart⟩
    have hsorted := h.sorted_bucket
    obtain ⟨before, rfl⟩ := List.getLast?_eq_some_iff.1 hv
    rw [List.map_append, List.pairwise_append] at hsorted
    rcases List.mem_append.1 hu with hu | hu
    · have hle := hsorted.2.2 _ (List.mem_map_of_mem hu) v.cursor.bucket (by simp)
      simpa [hstart, Cursor.startOf] using hle
    · rw [← List.mem_singleton.1 hu, hstart]
      exact Nat.le_refl _
  · intro hle
    have hhead := h.head_cursor
    have hchain := h.isChain_goesOn
    cases visits with
    | nil => simp at hv
    | cons u rest =>
      have hfirst : u.cursor = {} := hhead u rfl
      cases i with
      | zero => exact ⟨u, List.mem_cons_self, hfirst⟩
      | succ i =>
        have hlt : u.cursor.bucket < i + 1 := by
          rw [hfirst]
          exact Nat.succ_pos i
        obtain ⟨x, hx, hstart⟩ := exists_startOf hchain hv hlt hle
        exact ⟨x, List.mem_cons_of_mem _ hx, hstart⟩

theorem exists_last_of_concluded {names : List String} {visits : List Visit} {pages : List Page} {q : Page}
    {listing : Listing} (hserved : ∀ v ∈ visits, ∃ p, v.answer = .ok p) (htrail : Trail pages)
    (hplaced : visits.filterMap (Visit.placed names.length) = pages ++ [q])
    (hconclude : Collector.conclude pages q = .ok listing) : ∃ before v, visits = before ++ [v] ∧
      (∀ u ∈ before, ¬u.LeavesOff) ∧ (v.LeavesOff ∨ names.length ≤ v.cursor.bucket + 1) := by
  rcases List.eq_nil_or_concat visits with rfl | ⟨before, v, rfl⟩
  · simp at hplaced
  rw [List.concat_eq_append] at *
  obtain ⟨p, hp⟩ := hserved v (by simp)
  have hv : v.placed names.length = some (Buckets.place names.length v.cursor.bucket p) := by
    simp [Visit.placed, hp, Except.toOption]
  rw [List.filterMap_append, List.filterMap_cons_some hv, List.filterMap_nil] at hplaced
  obtain ⟨rfl, hlast⟩ := List.append_inj' hplaced rfl
  obtain rfl := List.singleton_inj.1 hlast
  refine ⟨before, v, rfl, ?_, Visit.leavesOff_or_last hv hconclude⟩
  intro u hu hleaves
  obtain ⟨p', hp'⟩ := hserved u (List.mem_append_left _ hu)
  have hu' : u.placed names.length = some (Buckets.place names.length u.cursor.bucket p') := by
    simp [Visit.placed, hp', Except.toOption]
  obtain ⟨token, hnext, -⟩ := htrail.exists_next _ (List.mem_filterMap.2 ⟨u, hu, hu'⟩)
  rw [hleaves.next_eq_none hu'] at hnext
  cases hnext

/-- What a listing of several buckets covers that succeeds. It lists the pages that it visited in the order of their
buckets, from the first bucket on, and all of them unless a page before the last bucket says that there is more but
not where: it ends with this page. -/
theorem run_list_covered (names : List String) (bucket : String → Backend σ) (retry : RetryPolicy)
    (hedging : HedgePolicy) (maxPages steps : Nat) (first delimiter : String) (fuel now : Nat)
    (w : World (Recorded BucketCall σ)) :
    let c : Client (Recorded BucketCall σ) :=
      { retry := retry, hedging := hedging, maxPages := maxPages, backend := Buckets.watched names bucket steps }
    ∃ (visits : List Visit) (outcome : Option (Except StorageError Listing)) (time : Nat)
      (after : World (Recorded BucketCall σ)),
      (c.listWithin fuel first delimiter).run now w = (outcome, time, after) ∧
      after.store.notes = w.store.notes ++ visits.flatMap (Visit.calls first delimiter) ∧
      ∀ listing, outcome = some (.ok listing) →
        listing = .ofPages (visits.filterMap fun v => v.answer.toOption) ∧
        (∀ v ∈ visits, names[v.cursor.bucket]? = some v.name ∧ ∃ p, v.answer = .ok p) ∧
        (visits.map fun v => v.cursor.bucket).Pairwise (· ≤ ·) ∧
        ∃ covered, 0 < covered ∧ covered ≤ names.length ∧
          (∀ i, (∃ v ∈ visits, v.cursor = Cursor.startOf i) ↔ i < covered) ∧
          (covered < names.length ↔ ∃ v ∈ visits, v.LeavesOff ∧ v.cursor.bucket + 1 < names.length) ∧
          ∀ v ∈ visits, v.LeavesOff → visits.getLast? = some v ∧ covered = v.cursor.bucket + 1 := by
  intro c
  have hstart : Travelled names first delimiter w.store.notes [] now w :=
    ⟨[], .start, by simp, rfl, by simp⟩
  have hended := Collector.ended_collect (kept_travelled bucket steps retry w.store.notes) maxPages fuel hstart
  obtain ⟨visits, hroute, hnotes, hlisted⟩ := exists_route_concluded bucket steps retry hended
  obtain ⟨after, hlist, hstore⟩ := c.exists_run_listWithin first delimiter fuel now w
  refine ⟨visits, _, _, after, hlist, hstore ▸ hnotes, ?_⟩
  intro listing hlisting
  obtain ⟨hserved, pages, q, htrail, hplaced, hconclude⟩ := hlisted listing hlisting
  obtain ⟨before, v, rfl, hbefore, hend⟩ := exists_last_of_concluded hserved htrail hplaced hconclude
  have hlast : (before ++ [v]).getLast? = some v := List.getLast?_concat
  have hname := hroute.name_eq v (by simp)
  have hlt : v.cursor.bucket < names.length := (List.getElem?_eq_some_iff.1 hname).1
  have honly (u : Visit) (hu : u ∈ before ++ [v]) (hleaves : u.LeavesOff) : u = v := by
    rcases List.mem_append.1 hu with hu | hu
    · exact absurd hleaves (hbefore u hu)
    · exact List.mem_singleton.1 hu
  refine ⟨?_, fun u hu => ⟨hroute.name_eq u hu, hserved u hu⟩, hroute.sorted_bucket,
    v.cursor.bucket + 1, Nat.succ_pos _, hlt, ?_, ?_, ?_⟩
  · rw [Collector.eq_of_conclude hconclude, ← hplaced, ofPages_visited]
  · intro i
    rw [hroute.exists_start_iff hlast, Nat.lt_succ_iff]
  · constructor
    · intro hmore
      exact ⟨v, by simp, hend.resolve_right (Nat.not_le.2 hmore), hmore⟩
    · rintro ⟨u, hu, hleaves, hmore⟩
      rwa [← honly u hu hleaves]
  · intro u hu hleaves
    obtain rfl := honly u hu hleaves
    exact ⟨hlast, rfl⟩

/-- The first of two buckets says that there is more but not where: the listing succeeds without the second one. -/
theorem run_list_left_out :
    let c : Client (Recorded BucketCall (List Page)) :=
      { backend := Buckets.watched ["west", "east"] (fun _ => paged) 0 }
    ∃ time after, (c.list "" "").run 0
        { store := { store := [{ objects := [⟨"a", 1, none⟩], truncated := true }, { objects := [⟨"b", 1, none⟩] }] } } =
        (some (.ok { objects := [⟨"a", 1, none⟩] }), time, after) ∧
      after.store.notes.map (fun call => (call.name, call.request)) = [("west", .page "" "" none)] ∧
      after.store.store = [{ objects := [⟨"b", 1, none⟩] }] := by
  exact ⟨_, _, rfl, rfl, rfl⟩

end ObjectStorage.S3
