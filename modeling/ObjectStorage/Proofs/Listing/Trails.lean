import ObjectStorage.Proofs.Listing.Chains

/-! # Trails of pages

What becomes of a listing whose source answers as it likes. It follows a trail of pages, each of which
leads on to a new one, until the limit is reached or an answer does not lead on; that answer decides.
-/
namespace ObjectStorage

/-- A page leads on after others: it is truncated, and its token is not empty and was named by none of
them. -/
def Page.LeadsOn (p : Page) (earlier : List Page) : Prop :=
  p.truncated = true ∧ ∃ token, p.next = some token ∧ token ≠ "" ∧ ∀ q ∈ earlier, q.next ≠ some token

/-- Pages of which each leads on after those before it. -/
inductive Trail : List Page → Prop
  | start : Trail []
  | step {pages : List Page} {p : Page} (before : Trail pages) (leads : p.LeadsOn pages) : Trail (pages ++ [p])

namespace Trail

def tokenAfter (pages : List Page) : Option String := pages.getLast?.bind Page.next

@[simp] theorem tokenAfter_nil : tokenAfter [] = none := rfl

@[simp] theorem tokenAfter_append (pages : List Page) (p : Page) : tokenAfter (pages ++ [p]) = p.next := by
  simp [tokenAfter]

theorem exists_next {pages : List Page} (h : Trail pages) :
    ∀ p ∈ pages, ∃ token, p.next = some token ∧ token ≠ "" := by
  induction h with
  | start => simp
  | step before leads ih =>
    obtain ⟨-, token, hnext, hne, -⟩ := leads
    intro q hq
    rcases List.mem_append.1 hq with hq | hq
    · exact ih q hq
    · exact ⟨token, by rw [List.mem_singleton.1 hq, hnext], hne⟩

theorem nodup_next {pages : List Page} (h : Trail pages) : (pages.map Page.next).Nodup := by
  induction h with
  | start => exact List.nodup_nil
  | @step pages p before leads ih =>
    obtain ⟨-, token, hnext, -, hnew⟩ := leads
    rw [List.map_append, List.nodup_append]
    refine ⟨ih, by simp, ?_⟩
    intro a ha b hb heq
    obtain ⟨q, hq, rfl⟩ := List.mem_map.1 ha
    obtain rfl : b = p.next := by simpa using hb
    exact hnew q hq (heq.trans hnext)

end Trail

namespace Collector

structure Merged (c : Collector) (pages : List Page) : Prop where
  listing : c.listing = .ofPages pages
  tokens : ∀ token, token ∈ c.tokens ↔ ∃ p ∈ pages, p.next = some token
  count : c.pages = pages.length

theorem Merged.empty : ({} : Collector).Merged [] := ⟨rfl, by simp, rfl⟩

def conclude (pages : List Page) (p : Page) : Except StorageError Listing :=
  match p.next with
  | some token => if p.truncated ∧ token ≠ "" then .error (repeated token) else .ok (.ofPages (pages ++ [p]))
  | none => .ok (.ofPages (pages ++ [p]))

variable {c : Collector} {pages : List Page} {p : Page}

theorem conclude_last (h : p.truncated = false) : conclude pages p = .ok (.ofPages (pages ++ [p])) := by
  unfold conclude
  split <;> simp [h]

theorem eq_of_conclude {listing : Listing} (h : conclude pages p = .ok listing) :
    listing = .ofPages (pages ++ [p]) := by
  unfold conclude at h
  split at h
  · split at h
    · cases h
    · exact (Except.ok.inj h).symm
  · exact (Except.ok.inj h).symm

theorem exists_repeated_of_conclude {e : StorageError} (h : conclude pages p = .error e) :
    ∃ token, e = repeated token := by
  unfold conclude at h
  split at h
  · split at h
    · exact ⟨_, (Except.error.inj h).symm⟩
    · cases h
  · cases h

theorem Merged.step_leadsOn (h : c.Merged pages) (hp : p.LeadsOn pages) : ∃ d token,
    p.next = some token ∧ c.step p = .more d token ∧ d.Merged (pages ++ [p]) := by
  obtain ⟨htruncated, token, hnext, hne, hnew⟩ := hp
  have hunseen : token ∉ c.tokens := by
    intro hmem
    obtain ⟨q, hq, hsame⟩ := (h.tokens token).1 hmem
    exact hnew q hq hsame
  refine ⟨_, token, hnext, step_next htruncated hnext hne hunseen, ?_, ?_, ?_⟩
  · rw [h.listing, merge_ofPages]
  · intro other
    simp only [List.mem_cons, h.tokens, List.mem_append, List.not_mem_nil, or_false]
    constructor
    · rintro (rfl | ⟨q, hq, hsame⟩)
      · exact ⟨p, .inr rfl, hnext⟩
      · exact ⟨q, .inl hq, hsame⟩
    · rintro ⟨q, hq | rfl, hsame⟩
      · exact .inr ⟨q, hq, hsame⟩
      · exact .inl (Option.some.inj (hsame.symm.trans hnext))
  · simp [h.count]

theorem Merged.step_conclude (h : c.Merged pages) (hp : ¬p.LeadsOn pages) :
    c.step p = .finished (conclude pages p) := by
  have hmerge : merge c.listing p = .ofPages (pages ++ [p]) := by rw [h.listing, merge_ofPages]
  cases hnext : p.next with
  | none => simp [step, conclude, hnext, hmerge]
  | some token =>
    by_cases hgo : p.truncated = true ∧ token ≠ ""
    · have hseen : token ∈ c.tokens := by
        refine (h.tokens token).2 (Decidable.byContradiction fun hnew => hp ?_)
        exact ⟨hgo.1, token, hnext, hgo.2, fun q hq hsame => hnew ⟨q, hq, hsame⟩⟩
      simp [step, conclude, hnext, hgo, hseen]
    · have hstop : (!p.truncated || token.isEmpty) = true := by
        rw [Decidable.not_and_iff_or_not] at hgo
        simpa using hgo
      simp only [step, conclude, hnext, hstop, if_pos, if_neg hgo, hmerge]

theorem Merged.isFull_iff (h : c.Merged pages) {maxPages : Nat} :
    c.isFull maxPages = true ↔ maxPages ≠ 0 ∧ maxPages ≤ pages.length := by
  rw [Collector.isFull_iff, h.count]

section Sources
variable {σ : Type} {fetch : Option String → Timed σ (Except StorageError Page)} {maxPages : Nat}

theorem run_collect_failed (h : c.isFull maxPages = false) (fuel : Nat) {token : Option String} {now time : Nat}
    {s t : σ} {e : StorageError} (hfetch : (fetch token).run now s = (.error e, time, t)) :
    (collect maxPages fetch (fuel + 1) token c).run now s = (some (.error e), time, t) := by
  simp [collect, h, Timed.run_bind, hfetch, Timed.run]

variable (fetch maxPages) (K : List Page → Nat → σ → Prop)

/-- How a listing comes out that is followed for so many pages. In all cases the pages of a trail were fetched. -/
inductive Ended (fuel : Nat) : Option (Except StorageError Listing) × Nat × σ → Prop
  /-- All pages lead on, and more are allowed. -/
  | going {pages : List Page} {time : Nat} {s : σ} (trail : Trail pages) (all : pages.length = fuel)
      (room : maxPages = 0 ∨ pages.length < maxPages) (fetched : K pages time s) : Ended fuel (none, time, s)
  | full {pages : List Page} {time : Nat} {s : σ} (trail : Trail pages) (le : pages.length ≤ fuel)
      (limit : maxPages ≠ 0 ∧ pages.length = maxPages) (fetched : K pages time s) :
      Ended fuel (some (.error (.tooManyPages maxPages)), time, s)
  | failed {pages : List Page} {now time : Nat} {s t : σ} {e : StorageError} (trail : Trail pages)
      (lt : pages.length < fuel) (room : maxPages = 0 ∨ pages.length < maxPages) (fetched : K pages now s)
      (answer : (fetch (Trail.tokenAfter pages)).run now s = (.error e, time, t)) :
      Ended fuel (some (.error e), time, t)
  | concluded {pages : List Page} {now time : Nat} {s t : σ} {p : Page} (trail : Trail pages)
      (lt : pages.length < fuel) (room : maxPages = 0 ∨ pages.length < maxPages) (fetched : K pages now s)
      (answer : (fetch (Trail.tokenAfter pages)).run now s = (.ok p, time, t)) (last : ¬p.LeadsOn pages) :
      Ended fuel (some (conclude pages p), time, t)

/-- What a source keeps from one page of a trail to the next. -/
def KeptBy : Prop :=
  ∀ pages p now time s t, Trail pages → K pages now s →
    (fetch (Trail.tokenAfter pages)).run now s = (.ok p, time, t) → p.LeadsOn pages → K (pages ++ [p]) time t

variable {fetch maxPages K}

theorem ended_of_full {total fuel : Nat} (htrail : Trail pages) (hle : pages.length ≤ total)
    (hmerged : c.Merged pages) (hcap : maxPages = 0 ∨ pages.length ≤ maxPages) (hfull : c.isFull maxPages = true)
    (token : Option String) {now : Nat} {s : σ} (hs : K pages now s) :
    Ended fetch maxPages K total ((collect maxPages fetch fuel token c).run now s) := by
  obtain ⟨hne, hlimit⟩ := hmerged.isFull_iff.1 hfull
  rw [run_collect_full hfull]
  exact .full htrail hle ⟨hne, by omega⟩ hs

theorem ended_from (hkept : KeptBy fetch K) {total fuel : Nat} (htrail : Trail pages)
    (htotal : pages.length + fuel = total) (hmerged : c.Merged pages) (hcap : maxPages = 0 ∨ pages.length ≤ maxPages)
    {now : Nat} {s : σ} (hs : K pages now s) :
    Ended fetch maxPages K total ((collect maxPages fetch fuel (Trail.tokenAfter pages) c).run now s) := by
  induction fuel generalizing pages c now s with
  | zero =>
    by_cases hfull : c.isFull maxPages = true
    · exact ended_of_full htrail (by omega) hmerged hcap hfull _ hs
    · have hrun : (collect maxPages fetch 0 (Trail.tokenAfter pages) c).run now s = (none, now, s) := by
        simp [collect, hfull, Timed.run]
      rw [hmerged.isFull_iff] at hfull
      rw [hrun]
      exact .going htrail htotal (by omega) hs
  | succ fuel ih =>
    by_cases hfull : c.isFull maxPages = true
    · exact ended_of_full htrail (by omega) hmerged hcap hfull _ hs
    have hroom : maxPages = 0 ∨ pages.length < maxPages := by
      rw [hmerged.isFull_iff] at hfull
      omega
    rw [Bool.not_eq_true] at hfull
    rcases hfetch : (fetch (Trail.tokenAfter pages)).run now s with ⟨answer, time, t⟩
    cases answer with
    | error e =>
      rw [run_collect_failed hfull fuel hfetch]
      exact .failed htrail (by omega) hroom hs hfetch
    | ok p =>
      rw [run_collect_page hfull fuel hfetch]
      by_cases hleads : p.LeadsOn pages
      · obtain ⟨d, token, hnext, hmore, hmerged⟩ := hmerged.step_leadsOn hleads
        have hlater := ih (htrail.step hleads) (by simpa [Nat.add_assoc, Nat.add_comm 1] using htotal) hmerged
          (by simpa [Nat.succ_le_iff] using hroom) (hkept pages p now time s t htrail hs hfetch hleads)
        rw [Trail.tokenAfter_append, hnext] at hlater
        simpa only [hmore] using hlater
      · rw [hmerged.step_conclude hleads]
        exact .concluded htrail (by omega) hroom hs hfetch hleads

theorem ended_collect (hkept : KeptBy fetch K) (maxPages fuel : Nat) {now : Nat} {s : σ} (hs : K [] now s) :
    Ended fetch maxPages K fuel ((collect maxPages fetch fuel none {}).run now s) :=
  ended_from hkept .start (by simp) .empty (.inr (Nat.zero_le _)) hs

end Sources
end Collector
end ObjectStorage
