import ObjectStorage.Client
import ObjectStorage.Proofs.Listing.Trails
import ObjectStorage.Proofs.Retry.Runs
import ObjectStorage.Proofs.Store.Listings
import ObjectStorage.Store.Memory

/-! # Completeness of listings

A client that lists a store in memory lists everything that there is, whatever the size of its pages, with
one exception: a page that holds nothing but the empty key names an empty token, and the listing ends
there.
-/
namespace ObjectStorage.Memory

/-- The first page holds the empty key alone, and there are more keys. -/
def EndsEarly (m : Memory) (first : String) : Prop :=
  m.pageSize ≤ 1 ∧ first = "" ∧ (m.store.get? "").isSome ∧ 1 < m.store.size

variable {m : Memory} {first delimiter : String} {pages : List Page}

/-- The pages obtained so far describe the start of the range, part by part, and the rest of it comes after
the last token. -/
structure Partway (m : Memory) (first delimiter : String) (pages : List Page) : Prop where
  within : Store.Within first (Trail.tokenAfter pages)
  parts : ∃ parts : List (List (String × StoredObject)),
    pages = parts.map (fun part => Store.describe first delimiter part true) ∧
    m.store.range first none = parts.flatten ++ m.store.range first (Trail.tokenAfter pages)
  room : pages.length + (m.store.range first (Trail.tokenAfter pages)).length ≤ m.store.size

def nextPage (m : Memory) (first delimiter : String) (pages : List Page) : Page :=
  m.store.page m.pageSize first delimiter (Trail.tokenAfter pages)

namespace Partway

theorem start (m : Memory) (first delimiter : String) : m.Partway first delimiter [] where
  within := Store.within_none first
  parts := ⟨[], rfl, rfl⟩
  room := by simpa [Store.size] using (m.store.range_sublist first none).length_le

theorem step (h : m.Partway first delimiter pages) (htruncated : (m.nextPage first delimiter pages).truncated = true) :
    m.Partway first delimiter (pages ++ [m.nextPage first delimiter pages]) := by
  obtain ⟨last, hnext, hdivides⟩ := Store.divides_of_truncated h.within htruncated
  obtain ⟨parts, hpages, hrange⟩ := h.parts
  have htoken : Trail.tokenAfter (pages ++ [m.nextPage first delimiter pages]) = some last := by
    rw [Trail.tokenAfter_append]
    exact hnext
  have hpart : m.nextPage first delimiter pages = Store.describe first delimiter
      (m.store.scanned m.pageSize first (Trail.tokenAfter pages)) true := by
    rw [nextPage, Store.page_eq_describe]
    exact congrArg _ htruncated
  obtain ⟨e, he, -⟩ := hdivides.mem
  have hpositive := List.length_pos_of_mem he
  have hsplit := hdivides.split
  refine ⟨?_, ⟨parts ++ [m.store.scanned m.pageSize first (Trail.tokenAfter pages)], ?_, ?_⟩, ?_⟩
  · rw [htoken]
    exact hdivides.within
  · rw [hpart, List.map_append, ← hpages, List.map_singleton]
  · rw [htoken, List.flatten_append, List.flatten_singleton, List.append_assoc, ← hsplit, hrange]
  · have hlength := congrArg List.length hsplit
    have hroom := h.room
    rw [htoken, List.length_append, List.length_singleton]
    rw [List.length_append] at hlength
    omega

theorem next_lt (h : m.Partway first delimiter pages) {q : Page} (hq : q ∈ pages) {token : String}
    (htoken : q.next = some token) {e : String × StoredObject}
    (he : e ∈ m.store.range first (Trail.tokenAfter pages)) : token < e.1 := by
  obtain ⟨parts, rfl, hrange⟩ := h.parts
  obtain ⟨part, hpart, rfl⟩ := List.mem_map.1 hq
  have hnamed : ∃ d ∈ part, d.1 = token := by
    obtain ⟨d, hd, hkey⟩ := Option.map_eq_some_iff.1 htoken
    exact ⟨d, List.mem_of_getLast? hd, hkey⟩
  obtain ⟨d, hd, rfl⟩ := hnamed
  have hsorted := m.store.sorted_range first none
  rw [hrange, List.pairwise_append] at hsorted
  exact hsorted.2.2 d (List.mem_flatten.2 ⟨part, hpart, hd⟩) e he

theorem lists (h : m.Partway first delimiter pages) (hlast : (m.nextPage first delimiter pages).truncated = false) :
    m.store.Lists first delimiter (.ofPages (pages ++ [m.nextPage first delimiter pages])) := by
  obtain ⟨parts, hpages, hrange⟩ := h.parts
  rw [← Store.scanned_of_last hlast, ← List.flatten_concat] at hrange
  have hsame : Listing.ofPages (pages ++ [m.nextPage first delimiter pages]) =
      .ofPages ((parts ++ [m.store.scanned m.pageSize first (Trail.tokenAfter pages)]).map fun part =>
        Store.describe first delimiter part true) := by
    rw [List.map_append, ← hpages]
    simp only [Listing.ofPages, List.flatMap_append]
    rfl
  rw [hsame]
  exact Store.lists_ofPages hrange

theorem length_le_one {l : List (String × StoredObject)} (hsorted : l.Pairwise fun a b => a.1 < b.1)
    (hle : ∀ e ∈ l, e.1 ≤ "") : l.length ≤ 1 := by
  match l with
  | [] => exact Nat.zero_le 1
  | [_] => exact le_rfl
  | a :: b :: rest =>
    have hlt : a.1 < b.1 := (List.pairwise_cons.1 hsorted).1 b (by simp)
    exact absurd (hlt.trans_le (hle b (by simp))) (empty_le a.1).not_gt

/-- A truncated page leads on, unless it holds the empty key alone. -/
theorem leadsOn_or_endsEarly (h : m.Partway first delimiter pages)
    (htruncated : (m.nextPage first delimiter pages).truncated = true) :
    (m.nextPage first delimiter pages).LeadsOn pages ∨ m.EndsEarly first := by
  obtain ⟨last, hnext, hdivides⟩ := Store.divides_of_truncated h.within htruncated
  obtain ⟨e, he, rfl⟩ := hdivides.mem
  have hrange := Store.scanned_sublist.subset he
  by_cases hempty : e.1 = ""
  · right
    have hlong := Store.lt_length_of_truncated htruncated
    have hsize := (m.store.range_sublist first (Trail.tokenAfter pages)).length_le
    have hone : (m.store.scanned m.pageSize first (Trail.tokenAfter pages)).length ≤ 1 :=
      length_le_one (m.store.sorted_scanned _ _ _) (hempty ▸ hdivides.le)
    have hlength : (m.store.scanned m.pageSize first (Trail.tokenAfter pages)).length = max m.pageSize 1 :=
      List.length_take_of_le hlong.le
    have hfirst : first.toList <+: [] := by simpa [hempty] using hdivides.starts
    have hstored : m.store.get? e.1 = some e.2 :=
      Store.get?_eq_some_iff.2 ((Store.mem_range h.within).1 hrange).1
    refine ⟨by omega, by simpa using hfirst, ?_, ?_⟩
    · rw [← hempty, hstored]
      rfl
    · rw [Store.size]
      omega
  · left
    refine ⟨htruncated, e.1, hnext, hempty, fun q hq hsame => ?_⟩
    exact lt_irrefl _ (h.next_lt hq hsame hrange)

end Partway

theorem EndsEarly.exists_entries (h : m.EndsEarly first) :
    ∃ o rest, m.store.entries = ("", o) :: rest ∧ rest ≠ [] := by
  obtain ⟨-, -, hstored, hsize⟩ := h
  obtain ⟨o, ho⟩ := Option.isSome_iff_exists.1 hstored
  rw [Store.get?_eq_some_iff] at ho
  have hsorted := m.store.sorted
  rw [Store.size] at hsize
  cases hentries : m.store.entries with
  | nil => simp [hentries] at ho
  | cons e rest =>
    rw [hentries] at ho hsorted hsize
    rcases List.mem_cons.1 ho with rfl | ho
    · refine ⟨o, rest, rfl, ?_⟩
      rintro rfl
      simp at hsize
    · exact absurd ((List.pairwise_cons.1 hsorted).1 _ ho) (empty_le _).not_gt

theorem EndsEarly.page_eq (h : m.EndsEarly first) {o : StoredObject} {rest : List (String × StoredObject)}
    (hentries : m.store.entries = ("", o) :: rest) (hrest : rest ≠ []) :
    m.store.page m.pageSize first delimiter none =
      { objects := [Store.objectMeta ("", o)], next := some "", truncated := true } := by
  obtain ⟨hpage, rfl, -⟩ := h
  have hrange : m.store.range "" none = ("", o) :: rest := by
    rw [Store.range_eq_filter (Store.within_none ""), ← hentries, List.filter_eq_self]
    simp
  have hungrouped : Store.groupOf "" delimiter "" = none := by
    rw [Store.groupOf_eq_none_iff List.prefix_rfl, Store.Ungrouped]
    by_cases hdelimiter : delimiter = ""
    · exact .inl hdelimiter
    · refine .inr fun head hoccurs => hdelimiter ?_
      obtain ⟨-, hnil⟩ : head = "" ∧ delimiter = "" := by simpa using List.prefix_nil.1 hoccurs
      exact hnil
  obtain ⟨e, rest, rfl⟩ := List.exists_cons_of_ne_nil hrest
  have hone : max m.pageSize 1 = 1 := by omega
  simp [Store.page, hrange, hone, Store.describe, hungrouped, Store.objectMeta, Store.dropRepeats]

/-! ## Runs of a listing -/

def fetch (retry : RetryPolicy) (first delimiter : String) (token : Option String) :
    Timed (World Memory) (Except StorageError Page) :=
  retry.run "list" .read (World.onStore (backend.call (.page first delimiter token)))

theorem run_fetch (retry : RetryPolicy) (first delimiter : String) (token : Option String) (now : Nat)
    (w : World Memory) : (fetch retry first delimiter token).run now w =
      (.ok (w.store.store.page w.store.pageSize first delimiter token), now, w) := by
  have hattempt : (World.onStore (backend.call (.page first delimiter token))).run now w =
      (.ok (w.store.store.page w.store.pageSize first delimiter token), now, w) := by
    rw [World.run_onStore]
    rfl
  exact RetryPolicy.run_attempts_ok "list" retry.maxRetries hattempt

theorem kept_partway (retry : RetryPolicy) (m : Memory) (first delimiter : String) :
    Collector.KeptBy (fetch retry first delimiter)
      (fun pages _ w => w.store = m ∧ m.Partway first delimiter pages) := by
  rintro pages p now time w t - ⟨rfl, hpartway⟩ hfetch hleads
  obtain ⟨rfl, rfl, rfl⟩ : p = w.store.nextPage first delimiter pages ∧ time = now ∧ t = w := by
    simpa [eq_comm, nextPage] using hfetch.symm.trans (run_fetch retry _ _ _ now w)
  exact ⟨rfl, hpartway.step hleads.1⟩

section Collected
variable (retry : RetryPolicy) (delimiter : String) (now : Nat) {w : World Memory}

theorem run_collect_endsEarly (fuel : Nat) (h : w.store.EndsEarly first) : ∃ o, w.store.store.get? "" = some o ∧
    (Collector.collect 0 (fetch retry first delimiter) (fuel + 1) none {}).run now w =
      (some (.ok { objects := [Store.objectMeta ("", o)] }), now, w) := by
  obtain ⟨o, rest, hentries, hrest⟩ := h.exists_entries
  refine ⟨o, Store.get?_eq_some_iff.2 (by simp [hentries]), ?_⟩
  have hfetch := run_fetch retry first delimiter none now w
  rw [h.page_eq hentries hrest] at hfetch
  rw [Collector.run_collect_page rfl fuel hfetch]
  rfl

theorem run_collect_complete {fuel : Nat} (hfuel : w.store.store.size < fuel) (h : ¬w.store.EndsEarly first) :
    ∃ listing time after, w.store.store.Lists first delimiter listing ∧
      (Collector.collect 0 (fetch retry first delimiter) fuel none {}).run now w =
        (some (.ok listing), time, after) ∧ after.store = w.store := by
  have hended : Collector.Ended (fetch retry first delimiter) 0
      (fun pages _ v => v.store = w.store ∧ w.store.Partway first delimiter pages) fuel
      ((Collector.collect 0 (fetch retry first delimiter) fuel none {}).run now w) :=
    Collector.ended_collect (kept_partway retry w.store first delimiter) 0 fuel ⟨rfl, .start _ _ _⟩
  rcases hrun : (Collector.collect 0 (fetch retry first delimiter) fuel none {}).run now w with ⟨outcome, time, after⟩
  rw [hrun] at hended
  cases hended with
  | going trail all room fetched =>
    have hroom := fetched.2.room
    omega
  | full trail le limit fetched => omega
  | failed trail lt room fetched answer =>
    rw [run_fetch] at answer
    cases answer
  | @concluded pages _ _ _ _ _ trail lt room fetched answer last =>
    obtain ⟨hstore, hpartway⟩ := fetched
    rw [run_fetch] at answer
    cases answer
    rw [← hstore] at hpartway h ⊢
    have hlast : (after.store.nextPage first delimiter pages).truncated = false := by
      refine Bool.eq_false_iff.2 fun htruncated => ?_
      exact (hpartway.leadsOn_or_endsEarly htruncated).elim last h
    refine ⟨_, time, after, hpartway.lists hlast, ?_, rfl⟩
    exact congrArg (fun result => (some result, time, after)) (Collector.conclude_last hlast)

end Collected

theorem EndsEarly.not_lists (h : m.EndsEarly first) (o : StoredObject) :
    ¬m.store.Lists first delimiter { objects := [Store.objectMeta ("", o)] } := by
  intro hlists
  obtain ⟨stored, rest, hentries, hrest⟩ := h.exists_entries
  obtain ⟨e, rest, rfl⟩ := List.exists_cons_of_ne_nil hrest
  have hlater : "" < e.1 := by
    have hsorted := m.store.sorted
    rw [hentries] at hsorted
    exact (List.pairwise_cons.1 hsorted).1 e (by simp)
  have hstored : m.store.get? e.1 = some e.2 := Store.get?_eq_some_iff.2 (by simp [hentries])
  obtain ⟨-, rfl, -⟩ := h
  have hunder : "".toList <+: e.1.toList := List.nil_prefix
  cases hgroup : Store.groupOf "" delimiter e.1 with
  | none =>
    have hlisted := (hlists.mem_objects (Store.objectMeta e)).2
      ⟨e.2, hstored, hunder, (Store.groupOf_eq_none_iff hunder).1 hgroup, rfl⟩
    have hkey : e.1 = "" := congrArg ObjectMeta.key (List.mem_singleton.1 hlisted)
    exact hlater.ne' hkey
  | some group =>
    have hlisted := (hlists.mem_commonPrefixes group).2
      ⟨e.1, by simp [hstored], hunder, (Store.groupOf_eq_some_iff hunder).1 hgroup⟩
    cases hlisted

/-- The listing of a store in memory without a limit of pages is complete for pages of any size, but for one case:
if the pages hold one key each, the empty key is listed, and it is not the only one, then the listing ends with it
and leaves all other keys out. -/
theorem run_list_complete (s : Store) (first delimiter : String) :
    ∃ listing, s.Lists first delimiter listing ∧
      ∀ (retry : RetryPolicy) (hedging : HedgePolicy) (fuel now : Nat) (w : World Memory),
        w.store.store = s → s.size < fuel →
        let c : Client Memory :=
          { retry := retry, hedging := hedging, maxPages := 0, backend := Memory.backend }
        ∃ outcome time after,
          (c.listWithin fuel first delimiter).run now w = (some (.ok outcome), time, after) ∧
          after.store = w.store ∧ (outcome = listing ↔ ¬w.store.EndsEarly first) ∧
          (w.store.EndsEarly first →
            ∃ o, s.get? "" = some o ∧ outcome = { objects := [Store.objectMeta ("", o)] }) := by
  have hwhole : s.range first none = [s.range first none].flatten := by simp
  refine ⟨_, Store.lists_ofPages hwhole, ?_⟩
  rintro retry hedging fuel now w rfl hfuel c
  by_cases hearly : w.store.EndsEarly first
  · obtain ⟨fuel, rfl⟩ := Nat.exists_eq_succ_of_ne_zero (Nat.ne_of_gt (Nat.zero_lt_of_lt hfuel))
    obtain ⟨o, ho, hcollect⟩ := run_collect_endsEarly retry delimiter now fuel hearly
    obtain ⟨after, hrun, hstore⟩ := Client.run_listWithin (c := c) hcollect
    refine ⟨_, now, after, hrun, hstore, ?_, fun _ => ⟨o, ho, rfl⟩⟩
    refine iff_of_false (fun heq => ?_) (not_not_intro hearly)
    exact hearly.not_lists o (heq ▸ Store.lists_ofPages hwhole)
  · obtain ⟨listing, time, v, hlists, hcollect, hsame⟩ := run_collect_complete retry delimiter now hfuel hearly
    obtain ⟨after, hrun, hstore⟩ := Client.run_listWithin (c := c) hcollect
    refine ⟨listing, time, after, hrun, hstore.trans hsame, ?_, fun h => absurd h hearly⟩
    exact iff_of_true (hlists.unique (Store.lists_ofPages hwhole)) hearly

def holding (keys : List (String × List UInt8)) (pageSize : Nat) : World Memory where
  store := { store := keys.foldl (fun s (key, data) => s.put key ⟨data, ⟨0, 0⟩⟩) .empty, pageSize := pageSize }

theorem run_list_empty_key :
    let c : Client Memory := { maxPages := 0, backend := Memory.backend }
    let w : World Memory := holding [("", [1]), ("a", [2, 3])] 1
    (w.store.store.get? "a").isSome ∧
    ∃ time after, (c.listWithin 3 "" "").run 0 w =
      (some (.ok { objects := [⟨"", 1, some ⟨0, 0⟩⟩] }), time, after) := by
  exact ⟨rfl, _, _, rfl⟩

/-- One key a page: the keys of a group are on two pages, and its common prefix is listed once. -/
theorem run_list_straddling :
    let c : Client Memory := { maxPages := 0, backend := Memory.backend }
    let w : World Memory := holding [("p/y", []), ("p/x/2", [1, 2]), ("p/x/1", [1]), ("q", [])] 1
    let listing : Listing := { objects := [⟨"p/y", 0, some ⟨0, 0⟩⟩], commonPrefixes := ["p/x/"] }
    w.store.store.size < 5 ∧ ¬w.store.EndsEarly "p/" ∧ w.store.store.Lists "p/" "/" listing ∧
    ∃ time after, (c.listWithin 5 "p/" "/").run 0 w = (some (.ok listing), time, after) := by
  intro c w listing
  have hsize : w.store.store.size < 5 := by decide +kernel
  have hwhole : ¬w.store.EndsEarly "p/" := fun h => absurd h.2.1 (by decide)
  obtain ⟨complete, hlists, hruns⟩ := run_list_complete w.store.store "p/" "/"
  obtain ⟨outcome, time, after, hrun, -, hcomplete, -⟩ := hruns {} {} 5 0 w rfl hsize
  rw [← hcomplete.2 hwhole] at hlists
  have hvalue : some (.ok listing) = some (Except.ok outcome) := congrArg Prod.fst hrun
  obtain rfl : listing = outcome := Except.ok.inj (Option.some.inj hvalue)
  exact ⟨hsize, hwhole, hlists, time, after, hrun⟩

end ObjectStorage.Memory
