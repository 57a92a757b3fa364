import ObjectStorage.Client
import ObjectStorage.Proofs.Retry.Runs
import ObjectStorage.Proofs.S3.Tours
import ObjectStorage.Proofs.Work.Recorded

/-! # Listings of several buckets

The listing of several buckets is what the listings of the single buckets are together, in the order of
the buckets.
-/
namespace ObjectStorage.S3

variable {σ : Type}

/-- As long as the store is in one of certain states, a bucket answers the requests of a chain with its
pages and stays in such a state. -/
structure ServedBy (c : Chain) (b : Backend σ) (I : σ → Prop) (first delimiter : String) : Prop where
  answers : ∀ l ∈ c.legs, ∀ now s, I s → ((b.call (.page first delimiter l.token)).run now s).1 = .ok l.page
  keeps : ∀ l ∈ c.legs, ∀ now s, I s → I ((b.call (.page first delimiter l.token)).run now s).2.2

namespace Buckets

def recorded (names : List String) (bucket : String → Backend σ) (steps : Nat) :
    Backend (Recorded (String × Request) σ) :=
  backend names (fun name => (bucket name).recorded fun r _ => (name, r)) steps

theorem run_page {τ : Type} {names : List String} (read : String → Option String → Timed τ (Except StorageError Page))
    {token : Option String} {c : Cursor} (hcursor : cursorOf token = .ok c) {name : String}
    (hname : names[c.bucket]? = some name) {now time : Nat} {s t : τ} {p : Page}
    (hread : (read name c.token).run now s = (.ok p, time, t)) :
    (page names read token).run now s = (.ok (place names.length c.bucket p), time, t) := by
  simp only [page, hcursor, hname, Timed.bind_eq, Timed.run_bind, hread]
  rfl

end Buckets

variable {names : List String} {bucket : String → Backend σ} {chain : String → Chain} {I : σ → Prop}
variable {first delimiter : String}

theorem run_recorded_page (steps : Nat) (hcount : names.length ≤ Cursor.bucketLimit) {s : Stop}
    (hs : s ∈ tour chain 0 names) (hserve : ServedBy (chain s.name) (bucket s.name) I first delimiter) (now : Nat)
    {m : Recorded (String × Request) σ} (hm : I m.store) :
    ∃ time store, ((Buckets.recorded names bucket steps).call (.page first delimiter s.cursor.token?)).run now m =
        (.ok (s.placed names.length).page, time, ⟨store, m.notes ++ [s.request first delimiter]⟩) ∧ I store := by
  obtain ⟨k, hbucket, hname, hleg⟩ := exists_of_mem_tour hs
  have hplace : names[s.cursor.bucket]? = some s.name := by
    rw [show s.cursor.bucket = k from hbucket.trans (Nat.zero_add k)]
    exact hname
  have hanswer := hserve.answers s.leg hleg now m.store hm
  have hkept := hserve.keeps s.leg hleg now m.store hm
  have hread := Backend.run_recorded (fun r _ => (s.name, r)) (bucket s.name)
    (.page first delimiter s.leg.token) now m
  rw [hanswer] at hread
  exact ⟨_, _, Buckets.run_page (fun name token =>
    ((bucket name).recorded fun r _ => (name, r)).call (.page first delimiter token))
    (Cursor.cursorOf_token? (writable_of_mem_tour hcount hs)) hplace hread, hkept⟩

theorem delivers_stop (retry : RetryPolicy) (steps : Nat) (hcount : names.length ≤ Cursor.bucketLimit)
    (before : List (String × Request)) {s : Stop} (hs : s ∈ tour chain 0 names)
    (hserve : ServedBy (chain s.name) (bucket s.name) I first delimiter) :
    Collector.Delivers (Stop.placed names.length)
      (fun visited (w : World (Recorded (String × Request) σ)) => I w.store.store ∧
        w.store.notes = before ++ visited.map (Stop.request first delimiter))
      (fun token => retry.run "list" .read
        (World.onStore ((Buckets.recorded names bucket steps).call (.page first delimiter token)))) s := by
  rintro visited now w ⟨hI, hnotes⟩
  obtain ⟨time, store, hcall, hkept⟩ := run_recorded_page steps hcount hs hserve now hI
  have hattempt := World.run_onStore
    ((Buckets.recorded names bucket steps).call (.page first delimiter s.cursor.token?)) now w
  rw [hcall] at hattempt
  exact ⟨_, _, RetryPolicy.run_attempts_ok "list" retry.maxRetries hattempt, hkept, by simp [hnotes]⟩

theorem ofPages_placed (count : Nat) (stops : List Stop) :
    Listing.ofPages (stops.map fun s => (s.placed count).page) = .ofPages (stops.map fun s => s.leg.page) := by
  simp [Listing.ofPages, List.flatMap_map, Stop.placed]

theorem collected_buckets (retry : RetryPolicy) (maxPages steps : Nat) (hnames : names ≠ [])
    (hcount : names.length ≤ Cursor.bucketLimit)
    (hserved : ∀ name ∈ names, ServedBy (chain name) (bucket name) I first delimiter) {fuel : Nat}
    (hfuel : (tour chain 0 names).length ≤ fuel ∨ (maxPages ≠ 0 ∧ maxPages ≤ fuel)) (now : Nat)
    {w : World (Recorded (String × Request) σ)} (hw : I w.store.store) :
    Collector.Collected (Stop.placed names.length)
      (fun visited (v : World (Recorded (String × Request) σ)) => I v.store.store ∧
        v.store.notes = w.store.notes ++ visited.map (Stop.request first delimiter))
      maxPages (tour chain 0 names)
      ((Collector.collect maxPages (fun token => retry.run "list" .read
        (World.onStore ((Buckets.recorded names bucket steps).call (.page first delimiter token))))
        fuel none {}).run now w) := by
  have hdelivers (s : Stop) (hs : s ∈ tour chain 0 names) :=
    delivers_stop retry steps hcount w.store.notes hs (hserved s.name (name_mem_of_mem_tour hs))
  have hnodup : ((tour chain 0 names).map fun s => (s.placed names.length).token).Nodup := nodup_token_tour hcount
  have hne : tour chain 0 names ≠ [] := tour_ne_nil 0 hnames
  obtain ⟨start, stops, htour⟩ := List.exists_cons_of_ne_nil hne
  obtain ⟨-, hstart, hleads⟩ :=
    leads_tour 0 names (Nat.zero_add _) (congrArg (List.map (Stop.placed names.length)) htour)
  have hnone : (start.placed names.length).token = none := hstart.trans rfl
  rw [htour] at hdelivers hnodup hfuel ⊢
  rw [← hnone]
  refine Collector.run_collect _ _ hleads (List.nodup_cons.1 hnodup).2 hdelivers [] rfl rfl ?_ ?_ ?_ now
    ⟨hw, by simp⟩
  · simp
  · simp
  · simp only [List.length_cons, List.length_nil] at hfuel ⊢
    omega

/-- The listing of several buckets, each of which answers by a chain of pages. If the pages are not more than are
allowed, each of them is requested once, bucket by bucket, and all are listed; else the listing fails after as many
requests as are allowed. -/
theorem run_list_buckets (retry : RetryPolicy) (hedging : HedgePolicy) (maxPages steps : Nat)
    (hnames : names ≠ []) (hcount : names.length ≤ Cursor.bucketLimit)
    (hserved : ∀ name ∈ names, ServedBy (chain name) (bucket name) I first delimiter) (fuel now : Nat)
    (w : World (Recorded (String × Request) σ)) (hw : I w.store.store) :
    let c : Client (Recorded (String × Request) σ) :=
      { retry := retry, hedging := hedging, maxPages := maxPages, backend := Buckets.recorded names bucket steps }
    let pages := names.flatMap fun name => (chain name).legs.map Leg.page
    let requests := names.flatMap fun name => (chain name).legs.map fun l => (name, .page first delimiter l.token)
    (maxPages = 0 ∨ pages.length ≤ maxPages → pages.length ≤ fuel →
      ∃ time after, (c.listWithin fuel first delimiter).run now w = (some (.ok (.ofPages pages)), time, after) ∧
        after.store.notes = w.store.notes ++ requests) ∧
    (maxPages ≠ 0 → maxPages < pages.length → maxPages ≤ fuel →
      ∃ time after, (c.listWithin fuel first delimiter).run now w =
          (some (.error (.tooManyPages maxPages)), time, after) ∧
        after.store.notes = w.store.notes ++ requests.take maxPages) := by
  intro c pages requests
  have hlength : (tour chain 0 names).length = pages.length := by
    rw [← List.length_map (fun s : Stop => s.leg.page), map_page_tour]
  have hlisting : Listing.ofPages ((tour chain 0 names).map fun s => (s.placed names.length).page) =
      .ofPages pages := by
    rw [ofPages_placed, map_page_tour]
  have hrequests := map_request_tour chain first delimiter 0 names
  have hcollect (hfuel : pages.length ≤ fuel ∨ (maxPages ≠ 0 ∧ maxPages ≤ fuel)) :=
    collected_buckets retry maxPages steps hnames hcount hserved (hlength ▸ hfuel) now hw
  refine ⟨?_, ?_⟩
  · intro hall hfuel
    obtain ⟨time, v, hrun, -, hnotes⟩ := (hcollect (.inl hfuel)).run_of_le (hlength ▸ hall)
    obtain ⟨after, hlist, hstore⟩ := Client.run_listWithin (c := c) hrun
    exact ⟨time, after, by rw [hlist, hlisting], by rw [hstore, hnotes, hrequests]⟩
  · intro hne hlt hfuel
    obtain ⟨time, v, hrun, -, hnotes⟩ := (hcollect (.inr ⟨hne, hfuel⟩)).run_of_lt hne (hlength ▸ hlt)
    obtain ⟨after, hlist, hstore⟩ := Client.run_listWithin (c := c) hrun
    exact ⟨time, after, hlist, by rw [hstore, hnotes, List.map_take, hrequests]⟩

def chainBucket (c : Chain) : Backend Unit where
  call
    | .page _ _ token => return match c.legs.find? fun l => l.token = token with
      | some l => .ok l.page
      | none => .error (.invalidResponse "no such page")
    | .get key => return .error (.noSuchKey key)
    | .put _ _ | .delete _ => return .ok ()

theorem servedBy_chainBucket (c : Chain) (first delimiter : String) :
    ServedBy c (chainBucket c) (fun _ => True) first delimiter where
  answers l hl now s _ := by
    have hfound : (c.legs.find? fun d => d.token = l.token).isSome := by
      rw [List.find?_isSome]
      exact ⟨l, hl, by simp⟩
    obtain ⟨d, hd⟩ := Option.isSome_iff_exists.1 hfound
    have htoken : d.token = l.token := by simpa using List.find?_some hd
    obtain rfl : d = l := List.inj_on_of_nodup_map c.nodup_legs (List.mem_of_find?_eq_some hd) hl htoken
    simp [chainBucket, hd, Timed.run]
  keeps _ _ _ _ _ := trivial

/-- Two pages of one object each. The token between them looks like a cursor. -/
def twoPages (a b : String) : Chain where
  first := ⟨none, { objects := [⟨a, 1, none⟩], commonPrefixes := ["x/"], next := some "1|", truncated := true }⟩
  rest := [⟨some "1|", { objects := [⟨b, 2, none⟩], commonPrefixes := ["x/", a ++ "/"] }⟩]
  start := rfl
  leads := ⟨rfl, ⟨"1|", rfl, rfl, by decide⟩, rfl⟩
  distinct := by simp

def twoBuckets (name : String) : Chain := if name = "east" then twoPages "c" "d" else twoPages "a" "b"

def twoBucketClient (maxPages : Nat) : Client (Recorded (String × Request) Unit) where
  maxPages := maxPages
  backend := Buckets.recorded ["west", "east"] (fun name => chainBucket (twoBuckets name)) 0

theorem run_list_two_buckets : ["west", "east"] ≠ [] ∧
    (∀ name ∈ ["west", "east"],
      ServedBy (twoBuckets name) (chainBucket (twoBuckets name)) (fun _ => True) "" "/") ∧
    (∃ time after, ((twoBucketClient 4).listWithin 4 "" "/").run 0 { store := { store := () } } =
        (some (.ok { objects := [⟨"a", 1, none⟩, ⟨"b", 2, none⟩, ⟨"c", 1, none⟩, ⟨"d", 2, none⟩],
                     commonPrefixes := ["x/", "a/", "c/"] }), time, after) ∧
      after.store.notes = [("west", .page "" "/" none), ("west", .page "" "/" (some "1|")),
        ("east", .page "" "/" none), ("east", .page "" "/" (some "1|"))]) ∧
    ∃ time after, ((twoBucketClient 3).listWithin 3 "" "/").run 0 { store := { store := () } } =
        (some (.error (.tooManyPages 3)), time, after) ∧
      after.store.notes = [("west", .page "" "/" none), ("west", .page "" "/" (some "1|")),
        ("east", .page "" "/" none)] := by
  have hnames : ["west", "east"] ≠ [] := by simp
  have hserved : ∀ name ∈ ["west", "east"],
      ServedBy (twoBuckets name) (chainBucket (twoBuckets name)) (fun _ => True) "" "/" :=
    fun name _ => servedBy_chainBucket (twoBuckets name) "" "/"
  obtain ⟨hall, -⟩ := run_list_buckets {} {} 4 0 hnames (by decide) hserved 4 0 { store := { store := () } } trivial
  obtain ⟨-, hcut⟩ := run_list_buckets {} {} 3 0 hnames (by decide) hserved 3 0 { store := { store := () } } trivial
  refine ⟨hnames, hserved, hall (.inr ?_) ?_, hcut ?_ ?_ ?_⟩
  all_goals decide

end ObjectStorage.S3
