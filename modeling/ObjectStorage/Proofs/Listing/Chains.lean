import ObjectStorage.Listing.Collect

/-! # Chains of pages

A source that answers by a chain of pages, each naming the next one, is listed completely and in order,
or up to the number of pages that are allowed.
-/
namespace ObjectStorage

structure Leg where
  token : Option String
  page : Page

namespace Leg

/-- The page leads to the others in turn: each but the last one is truncated and names the token of the
next one, which is not empty. The last one is not truncated. -/
def Leads : Leg → List Leg → Prop
  | a, [] => a.page.truncated = false
  | a, b :: rest => a.page.truncated = true ∧
      (∃ token, a.page.next = some token ∧ b.token = some token ∧ token ≠ "") ∧ b.Leads rest

theorem Leads.exists_token {a : Leg} {rest : List Leg} (h : a.Leads rest) :
    ∀ b ∈ rest, ∃ token, b.token = some token ∧ token ≠ "" := by
  induction rest generalizing a with
  | nil => simp
  | cons b rest ih =>
    obtain ⟨-, ⟨token, -, htoken, hne⟩, hrest⟩ := h
    intro d hd
    rcases List.mem_cons.1 hd with rfl | hd
    · exact ⟨token, htoken, hne⟩
    · exact ih hrest d hd

end Leg

/-- The pages of a listing: the first one needs no token, and no token leads to two pages. -/
structure Chain where
  first : Leg
  rest : List Leg
  start : first.token = none
  leads : first.Leads rest
  distinct : (rest.map Leg.token).Nodup

namespace Chain

def legs (c : Chain) : List Leg := c.first :: c.rest

theorem token_ne_empty (c : Chain) {l : Leg} (hl : l ∈ c.legs) : l.token ≠ some "" := by
  rcases List.mem_cons.1 hl with rfl | hl
  · simp [c.start]
  · obtain ⟨token, htoken, hne⟩ := c.leads.exists_token l hl
    simpa [htoken] using hne

theorem nodup_legs (c : Chain) : (c.legs.map Leg.token).Nodup := by
  refine List.nodup_cons.2 ⟨?_, c.distinct⟩
  intro hmem
  obtain ⟨l, hl, heq⟩ := List.mem_map.1 hmem
  obtain ⟨token, htoken, -⟩ := c.leads.exists_token l hl
  rw [c.start, htoken] at heq
  cases heq

end Chain

/-- What pages list together: all their objects, and each prefix where it occurs first. -/
def Listing.ofPages (pages : List Page) : Listing where
  objects := pages.flatMap Page.objects
  commonPrefixes := (pages.flatMap Page.commonPrefixes).eraseDups

namespace Collector

theorem addPrefixes_eraseDups (known new : List String) :
    addPrefixes known.eraseDups new = (known ++ new).eraseDups := by
  induction new generalizing known with
  | nil => simp [addPrefixes]
  | cons p new ih =>
    have hone : (if known.eraseDups.contains p then known.eraseDups else known.eraseDups ++ [p]) =
        (known ++ [p]).eraseDups := by
      rw [List.eraseDups_append, List.cons_removeAll]
      by_cases hp : p ∈ known <;> simp [hp, List.mem_eraseDups, List.eraseDups_cons]
    calc addPrefixes known.eraseDups (p :: new)
        _ = addPrefixes (known ++ [p]).eraseDups new := by rw [← hone]; rfl
        _ = (known ++ p :: new).eraseDups := by rw [ih, List.append_assoc, List.singleton_append]

theorem merge_ofPages (pages : List Page) (p : Page) :
    merge (.ofPages pages) p = .ofPages (pages ++ [p]) := by
  simp [merge, Listing.ofPages, addPrefixes_eraseDups]

theorem step_last {c : Collector} {p : Page} (hp : p.truncated = false) :
    c.step p = .finished (.ok (merge c.listing p)) := by
  cases hnext : p.next <;> simp [step, hnext, hp]

theorem step_next {c : Collector} {p : Page} {token : String} (hp : p.truncated = true)
    (hnext : p.next = some token) (hne : token ≠ "") (hnew : token ∉ c.tokens) :
    c.step p = .more ⟨merge c.listing p, token :: c.tokens, c.pages + 1⟩ token := by
  simp [step, hnext, hp, hne, hnew]

theorem isFull_iff {maxPages : Nat} {c : Collector} :
    c.isFull maxPages = true ↔ maxPages ≠ 0 ∧ maxPages ≤ c.pages := by
  simp [isFull]

section Sources
variable {α σ : Type} {fetch : Option String → Timed σ (Except StorageError Page)} {maxPages : Nat}

theorem run_collect_full {c : Collector} (h : c.isFull maxPages = true) (fuel : Nat) (token : Option String)
    (now : Nat) (s : σ) :
    (collect maxPages fetch fuel token c).run now s = (some (.error (.tooManyPages maxPages)), now, s) := by
  cases fuel <;> simp [collect, h, Timed.run]

theorem run_collect_page {c : Collector} (h : c.isFull maxPages = false) (fuel : Nat) {token : Option String}
    {now time : Nat} {s t : σ} {p : Page} (hfetch : (fetch token).run now s = (.ok p, time, t)) :
    (collect maxPages fetch (fuel + 1) token c).run now s =
      match c.step p with
      | .finished result => (some result, time, t)
      | .more d next => (collect maxPages fetch fuel (some next) d).run time t := by
  simp only [collect, h, Bool.false_eq_true, ↓reduceIte, Timed.bind_eq, Timed.run_bind, hfetch]
  cases c.step p <;> rfl

theorem run_collect_last {c : Collector} (h : c.isFull maxPages = false) (fuel : Nat) {token : Option String}
    {now time : Nat} {s t : σ} {p : Page} (hfetch : (fetch token).run now s = (.ok p, time, t))
    (hp : p.truncated = false) :
    (collect maxPages fetch (fuel + 1) token c).run now s = (some (.ok (merge c.listing p)), time, t) := by
  rw [run_collect_page h fuel hfetch, step_last hp]

theorem run_collect_next {c : Collector} (h : c.isFull maxPages = false) (fuel : Nat) {token : Option String}
    {now time : Nat} {s t : σ} {p : Page} (hfetch : (fetch token).run now s = (.ok p, time, t))
    (hp : p.truncated = true) {next : String} (hnext : p.next = some next) (hne : next ≠ "")
    (hnew : next ∉ c.tokens) :
    (collect maxPages fetch (fuel + 1) token c).run now s =
      (collect maxPages fetch fuel (some next) ⟨merge c.listing p, next :: c.tokens, c.pages + 1⟩).run time t := by
  rw [run_collect_page h fuel hfetch, step_next hp hnext hne hnew]

variable (leg : α → Leg) (K : List α → σ → Prop)

def Delivers (fetch : Option String → Timed σ (Except StorageError Page)) (a : α) : Prop :=
  ∀ visited now s, K visited s → ∃ time t,
    (fetch (leg a).token).run now s = (.ok (leg a).page, time, t) ∧ K (visited ++ [a]) t

/-- How the listing of a chain of pages ends: with all of them if so many are allowed, else after
those that are allowed. -/
inductive Collected (maxPages : Nat) (all : List α) : Option (Except StorageError Listing) × Nat × σ → Prop
  | complete {time : Nat} {s : σ} (allowed : maxPages = 0 ∨ all.length ≤ maxPages) (fetched : K all s) :
      Collected maxPages all (some (.ok (.ofPages (all.map fun a => (leg a).page))), time, s)
  | cut {time : Nat} {s : σ} (capped : maxPages ≠ 0) (excess : maxPages < all.length)
      (fetched : K (all.take maxPages) s) :
      Collected maxPages all (some (.error (.tooManyPages maxPages)), time, s)

variable {leg K}

theorem Collected.run_of_le {all : List α} {r : Option (Except StorageError Listing) × Nat × σ}
    (h : Collected leg K maxPages all r) (hall : maxPages = 0 ∨ all.length ≤ maxPages) :
    ∃ time s, r = (some (.ok (.ofPages (all.map fun a => (leg a).page))), time, s) ∧ K all s := by
  cases h with
  | complete _ fetched => exact ⟨_, _, rfl, fetched⟩
  | cut capped excess _ => omega

theorem Collected.run_of_lt {all : List α} {r : Option (Except StorageError Listing) × Nat × σ}
    (h : Collected leg K maxPages all r) (hne : maxPages ≠ 0) (hlt : maxPages < all.length) :
    ∃ time s, r = (some (.error (.tooManyPages maxPages)), time, s) ∧ K (all.take maxPages) s := by
  cases h with
  | complete allowed _ => omega
  | cut _ _ fetched => exact ⟨_, _, rfl, fetched⟩

variable (leg K)

theorem collected_of_full {c : Collector} {visited : List α} (hfull : c.isFull maxPages = true)
    (hpages : c.pages = visited.length) (hcap : maxPages ≠ 0 → visited.length ≤ maxPages) (a : α)
    (rest : List α) (fuel : Nat) (token : Option String) (now : Nat) {s : σ} (hs : K visited s) :
    Collected leg K maxPages (visited ++ a :: rest) ((collect maxPages fetch fuel token c).run now s) := by
  obtain ⟨hne, hle⟩ := isFull_iff.1 hfull
  have hlength : visited.length = maxPages := Nat.le_antisymm (hcap hne) (hpages ▸ hle)
  rw [run_collect_full hfull]
  refine .cut hne ?_ ?_
  · simp only [List.length_append, List.length_cons]
    omega
  · rw [List.take_left' hlength]
    exact hs

/-- What was listed and seen so far is that of the pages visited, and no token to come was seen. -/
theorem run_collect {rest : List α} {a : α} (hleads : (leg a).Leads (rest.map leg))
    (hdistinct : (rest.map fun b => (leg b).token).Nodup) (hdelivers : ∀ b ∈ a :: rest, Delivers leg K fetch b)
    (visited : List α) {c : Collector} (hlisting : c.listing = .ofPages (visited.map fun b => (leg b).page))
    (hpages : c.pages = visited.length) (hnew : ∀ b ∈ rest, ∀ token ∈ c.tokens, (leg b).token ≠ some token)
    (hcap : maxPages ≠ 0 → visited.length ≤ maxPages) {fuel : Nat}
    (hfuel : rest.length < fuel ∨ (maxPages ≠ 0 ∧ maxPages ≤ visited.length + fuel)) (now : Nat) {s : σ}
    (hs : K visited s) :
    Collected leg K maxPages (visited ++ a :: rest)
      ((collect maxPages fetch fuel (leg a).token c).run now s) := by
  induction rest generalizing a visited c fuel now s with
  | nil =>
    by_cases hfull : c.isFull maxPages = true
    · exact collected_of_full leg K hfull hpages hcap a [] fuel _ now hs
    have hroom : maxPages = 0 ∨ visited.length + 1 ≤ maxPages := by
      rw [isFull_iff] at hfull
      omega
    obtain ⟨fuel, rfl⟩ := Nat.exists_eq_succ_of_ne_zero (show fuel ≠ 0 by omega)
    obtain ⟨time, t, hfetch, ht⟩ := hdelivers a (by simp) visited now s hs
    rw [run_collect_last (Bool.eq_false_iff.2 hfull) fuel hfetch hleads, hlisting, merge_ofPages]
    have hend : Collected leg K maxPages (visited ++ [a]) (_, time, t) := .complete (by simpa using hroom) ht
    simpa using hend
  | cons b rest ih =>
    by_cases hfull : c.isFull maxPages = true
    · exact collected_of_full leg K hfull hpages hcap a (b :: rest) fuel _ now hs
    have hroom : maxPages = 0 ∨ visited.length + 1 ≤ maxPages := by
      rw [isFull_iff] at hfull
      omega
    obtain ⟨fuel, rfl⟩ := Nat.exists_eq_succ_of_ne_zero (show fuel ≠ 0 by omega)
    obtain ⟨time, t, hfetch, ht⟩ := hdelivers a (by simp) visited now s hs
    obtain ⟨htruncated, ⟨next, hnext, htoken, hne⟩, hrest⟩ := hleads
    -- Its token is that of the page to come, and no page visited came by that one.
    have hunseen : next ∉ c.tokens := fun hmem => hnew b (by simp) next hmem htoken
    rw [run_collect_next (Bool.eq_false_iff.2 hfull) fuel hfetch htruncated hnext hne hunseen, ← htoken]
    have hvisited : visited ++ a :: b :: rest = (visited ++ [a]) ++ b :: rest := by simp
    rw [hvisited]
    obtain ⟨hfirst, hdistinct⟩ := List.nodup_cons.1 hdistinct
    have hlater : ∀ d ∈ b :: rest, Delivers leg K fetch d :=
      fun d hd => hdelivers d (List.mem_cons_of_mem a hd)
    refine ih hrest hdistinct hlater (visited ++ [a]) ?_ ?_ ?_ ?_ ?_ time ht
    · simp [hlisting, merge_ofPages]
    · simp [hpages]
    · intro d hd token hmem heq
      rcases List.mem_cons.1 hmem with rfl | hmem
      · exact hfirst (List.mem_map.2 ⟨d, hd, heq.trans htoken.symm⟩)
      · exact hnew d (List.mem_cons_of_mem b hd) token hmem heq
    · intro hne
      simp only [List.length_append, List.length_singleton]
      omega
    · simp only [List.length_append, List.length_cons, List.length_nil] at hfuel ⊢
      omega

end Sources
end Collector
end ObjectStorage
