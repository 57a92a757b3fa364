import Mathlib.Data.Finset.Card
import ObjectStorage.Proofs.Listing.Answers

/-! # Listings end

A listing goes on only with tokens that it has not seen. A source with no more than so many tokens is thus
left after one page more than that, in whatever order the tokens come and however often they come back.
-/
namespace ObjectStorage

/-- Every token that is named is one of these, or empty. -/
def Answers.Names (a : Answers) (tokens : Finset String) : Prop :=
  ∀ k, ∀ token ∈ token? (a k), token = "" ∨ token ∈ tokens

theorem Answers.Gives.names {a : Answers} {pages : List Page} (h : a.Gives pages) {tokens : Finset String}
    (hnames : a.Names tokens) : ∀ p ∈ pages, ∀ token ∈ p.next, token = "" ∨ token ∈ tokens := by
  intro p hp token htoken
  obtain ⟨k, hk, rfl⟩ := List.getElem_of_mem hp
  have hnamed := hnames k token
  rw [h.eq_ok hk] at hnamed
  exact hnamed htoken

theorem Trail.length_le_card {pages : List Page} (h : Trail pages) {tokens : Finset String}
    (hnames : ∀ p ∈ pages, ∀ token ∈ p.next, token = "" ∨ token ∈ tokens) : pages.length ≤ tokens.card := by
  have hsubset : (pages.map Page.next).toFinset ⊆ tokens.map .some := by
    intro next hnext
    obtain ⟨p, hp, rfl⟩ := List.mem_map.1 (List.mem_toFinset.1 hnext)
    obtain ⟨token, htoken, hne⟩ := h.exists_next p hp
    have hmem : token ∈ tokens := (hnames p hp token htoken).resolve_left hne
    rw [htoken]
    exact Finset.mem_map_of_mem .some hmem
  calc pages.length
      _ = (pages.map Page.next).toFinset.card := by
        rw [List.toFinset_card_of_nodup h.nodup_next, List.length_map]
      _ ≤ (tokens.map .some).card := Finset.card_le_card hsubset
      _ = tokens.card := Finset.card_map .some

namespace Collector

def pageBound (maxPages : Nat) (tokens : Finset String) : Nat :=
  if maxPages = 0 then tokens.card + 1 else min (tokens.card + 1) maxPages

theorem lt_pageBound_iff {maxPages n : Nat} {tokens : Finset String} :
    n < pageBound maxPages tokens ↔ n ≤ tokens.card ∧ (maxPages = 0 ∨ n < maxPages) := by
  unfold pageBound
  split <;> omega

section Sources
variable {σ : Type} {fetch : Option String → Timed σ (Except StorageError Page)} {maxPages : Nat}

theorem run_collect_of_le {fuel more : Nat} (hle : fuel ≤ more) {token : Option String} {c : Collector} {now : Nat}
    {s : σ} {result : Except StorageError Listing} {later : Nat × σ}
    (h : (collect maxPages fetch fuel token c).run now s = (some result, later)) :
    (collect maxPages fetch more token c).run now s = (some result, later) := by
  induction fuel generalizing more token c now s with
  | zero =>
    by_cases hfull : c.isFull maxPages = true
    · rw [run_collect_full hfull] at h ⊢
      exact h
    · simp [collect, hfull, Timed.run] at h
  | succ fuel ih =>
    obtain ⟨more, rfl⟩ := Nat.exists_eq_add_of_le' (Nat.zero_lt_of_lt hle)
    by_cases hfull : c.isFull maxPages = true
    · rw [run_collect_full hfull] at h ⊢
      exact h
    rw [Bool.not_eq_true] at hfull
    rcases hfetch : (fetch token).run now s with ⟨answer, time, t⟩
    cases answer with
    | error e =>
      rw [run_collect_failed hfull _ hfetch] at h ⊢
      exact h
    | ok p =>
      rw [run_collect_page hfull _ hfetch] at h ⊢
      cases hstep : c.step p with
      | finished last => simpa only [hstep] using h
      | more d next =>
        simp only [hstep] at h ⊢
        exact ih (Nat.le_of_succ_le_succ hle) h

/-- Followed for as many pages as the bound says, a listing has ended, and no more pages were fetched. -/
theorem exists_run_collect_pageBound (maxPages : Nat) {now : Nat} {s : σ} {tokens : Finset String}
    (hnames : (Source.answers fetch now s).Names tokens) : ∃ result time t asked,
      (collect maxPages (Source.noted fetch) (pageBound maxPages tokens) none {}).run now { store := s } =
        (some result, time, ⟨t, asked⟩) ∧ asked.length ≤ pageBound maxPages tokens := by
  have hstart : Source.Noted fetch now s [] now { store := s } := ⟨rfl, rfl, rfl⟩
  generalize hrun : (collect maxPages (Source.noted fetch) (pageBound maxPages tokens) none {}).run now
    ({ store := s } : Recorded (Option String) σ) = r
  have hended := hrun ▸ ended_collect Source.kept_noted maxPages (pageBound maxPages tokens) hstart
  cases hended with
  | @going pages time m trail all room fetched =>
    have hcard : pages.length ≤ tokens.card := trail.length_le_card (fetched.1.names hnames)
    have hlt := lt_pageBound_iff.2 ⟨hcard, room⟩
    omega
  | @full pages time m trail le limit fetched =>
    rw [fetched.eq_after]
    exact ⟨_, _, _, _, rfl, by simpa using le⟩
  | @failed pages time time' m t e trail lt room fetched answer =>
    rw [fetched.run] at answer
    obtain ⟨-, rfl, rfl⟩ : _ ∧ _ ∧ _ := by simpa only [Prod.mk.injEq] using answer
    exact ⟨_, _, _, _, rfl, by simpa using Nat.succ_le_of_lt lt⟩
  | @concluded pages time time' m t p trail lt room fetched answer last =>
    rw [fetched.run] at answer
    obtain ⟨-, rfl, rfl⟩ : _ ∧ _ ∧ _ := by simpa only [Prod.mk.injEq] using answer
    exact ⟨_, _, _, _, rfl, by simpa using Nat.succ_le_of_lt lt⟩

end Sources

/-- A listing of a source whose tokens are of a finite set, beside the empty one, ends after no more pages than the
set has tokens and one, and no more than are allowed, however much longer it may be followed. -/
theorem collect_ends {σ : Type} (fetch : Option String → Timed σ (Except StorageError Page)) (maxPages now : Nat)
    (s : σ) (tokens : Finset String) (hnames : (Source.answers fetch now s).Names tokens) :
    ∃ result time t asked, asked.length ≤ pageBound maxPages tokens ∧ ∀ fuel ≥ pageBound maxPages tokens,
      (collect maxPages fetch fuel none {}).run now s = (some result, time, t) ∧
      (collect maxPages (Source.noted fetch) fuel none {}).run now { store := s } =
        (some result, time, ⟨t, asked⟩) := by
  obtain ⟨result, time, t, asked, hrun, hlength⟩ := exists_run_collect_pageBound maxPages hnames
  refine ⟨result, time, t, asked, hlength, fun fuel hfuel => ?_⟩
  have hnoted := run_collect_of_le hfuel hrun
  obtain ⟨notes, hplain⟩ := run_collect_noted fetch maxPages fuel none {} now { store := s }
  rw [hnoted] at hplain
  have hresult := congrArg Prod.fst hplain
  have htime := congrArg (fun r => r.2.1) hplain
  have hstore := congrArg (fun r => r.2.2.store) hplain
  exact ⟨Prod.ext hresult.symm (Prod.ext htime.symm hstore.symm), hnoted⟩

def seesaw (token : Option String) : Timed Unit (Except StorageError Page) :=
  return .ok { next := some (if token = some "A" then "B" else "A"), truncated := true }

/-- Two tokens that come back for ever: the third page is the last one that is fetched. -/
theorem seesaw_ends :
    (Source.answers seesaw 0 ()).Names {"A", "B"} ∧ pageBound 0 {"A", "B"} = 3 ∧ ∀ fuel ≥ 3,
      (collect 0 seesaw fuel none {}).run 0 () = (some (.error (repeated "A")), 0, ()) ∧
      (collect 0 (Source.noted seesaw) fuel none {}).run 0 { store := () } =
        (some (.error (repeated "A")), 0, ⟨(), [none, some "A", some "B"]⟩) := by
  have hnames : (Source.answers seesaw 0 ()).Names {"A", "B"} := by
    intro k token htoken
    have hreply : Answers.token? (Source.answers seesaw 0 () k) =
        some (if (Source.answers seesaw 0 ()).asks k = some "A" then "B" else "A") := by
      rw [Source.answers, Source.reply_eq]
      rfl
    obtain rfl := Option.some.inj (hreply.symm.trans htoken)
    split <;> simp
  have hbound : pageBound 0 {"A", "B"} = 3 := rfl
  obtain ⟨result, time, t, asked, -, hends⟩ := collect_ends seesaw 0 0 () {"A", "B"} hnames
  have hthree : (collect 0 (Source.noted seesaw) 3 none {}).run 0 { store := () } =
      (some (.error (repeated "A")), 0, ⟨(), [none, some "A", some "B"]⟩) := rfl
  have hsame := hthree.symm.trans (hends 3 hbound.le).2
  obtain ⟨rfl, rfl, rfl⟩ : result = .error (repeated "A") ∧ time = 0 ∧ asked = [none, some "A", some "B"] := by
    simpa [eq_comm] using hsame
  exact ⟨hnames, hbound, hends⟩

end Collector
end ObjectStorage
