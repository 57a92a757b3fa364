import Mathlib.Data.List.Nodup
import ObjectStorage.Proofs.Listing.Chains
import ObjectStorage.S3.Buckets

/-! # Tours through several buckets

The listings of single buckets, one after the other, are one chain of pages. The cursors that lead
through it are all different, whatever tokens the buckets use.
-/
namespace ObjectStorage.S3

namespace Cursor

/-- How a listing asks for a place: the very first one needs no token. -/
def token? (c : Cursor) : Option String := if c = {} then none else some c.encode

theorem token?_of_ne {c : Cursor} (h : c ≠ {}) : c.token? = some c.encode := if_neg h

theorem cursorOf_token? {c : Cursor} (h : c.Writable) : Buckets.cursorOf c.token? = .ok c := by
  unfold token?
  split
  · next hstart => rw [hstart]; rfl
  · exact decode_encode h

end Cursor

/-- A page on the way through all buckets: the bucket by its name and number, and what leads to the page
within the bucket. -/
structure Stop where
  name : String
  bucket : Nat
  leg : Leg

namespace Stop

def cursor (s : Stop) : Cursor := ⟨s.bucket, s.leg.token⟩

def placed (count : Nat) (s : Stop) : Leg := ⟨s.cursor.token?, Buckets.place count s.bucket s.leg.page⟩

def request (first delimiter : String) (s : Stop) : String × Request :=
  (s.name, .page first delimiter s.leg.token)

theorem leads_append {count i : Nat} (name : String) {a : Leg} {rest : List Leg} (h : a.Leads rest)
    {tail : List Leg} (hlast : tail = [] → count ≤ i + 1)
    (hnext : ∀ b rest, tail = b :: rest →
      i + 1 < count ∧ b.token = some (Cursor.startOf (i + 1)).encode ∧ b.Leads rest) :
    (placed count ⟨name, i, a⟩).Leads (rest.map (fun l => placed count ⟨name, i, l⟩) ++ tail) := by
  induction rest generalizing a with
  | nil =>
    have hend : a.page.truncated = false := h
    cases tail with
    | nil =>
      have hcount : ¬i + 1 < count := Nat.not_lt.2 (hlast rfl)
      simp [Leg.Leads, placed, Buckets.place, hend, hcount]
    | cons b tail =>
      obtain ⟨hcount, htoken, htail⟩ := hnext b tail rfl
      refine ⟨?_, ⟨(Cursor.startOf (i + 1)).encode, ?_, htoken, Cursor.encode_ne_empty _⟩, htail⟩
      · simp [placed, Buckets.place, hend, hcount]
      · simp [placed, Buckets.place, hend, hcount]
  | cons b rest ih =>
    obtain ⟨htruncated, ⟨token, hpage, htoken, -⟩, hrest⟩ := h
    refine ⟨?_, ⟨(Cursor.within i token).encode, ?_, ?_, Cursor.encode_ne_empty _⟩, ih hrest⟩
    · simp [placed, Buckets.place, htruncated]
    · simp [placed, Buckets.place, htruncated, hpage]
    · have hne : (⟨i, some token⟩ : Cursor) ≠ {} := by simp
      simp only [placed, cursor, htoken]
      exact Cursor.token?_of_ne hne

end Stop

variable (chain : String → Chain)

/-- All pages of some buckets, bucket by bucket; the first of them has the given number. -/
def tour : Nat → List String → List Stop
  | _, [] => []
  | i, name :: names => (chain name).legs.map (fun l => ⟨name, i, l⟩) ++ tour (i + 1) names

theorem map_request_tour (first delimiter : String) (i : Nat) (names : List String) :
    (tour chain i names).map (Stop.request first delimiter) =
      names.flatMap fun name => (chain name).legs.map fun l => (name, .page first delimiter l.token) := by
  induction names generalizing i with
  | nil => rfl
  | cons name names ih =>
    rw [tour, List.map_append, ih, List.flatMap_cons, List.map_map]
    rfl

theorem map_page_tour (i : Nat) (names : List String) :
    (tour chain i names).map (fun s => s.leg.page) =
      names.flatMap fun name => (chain name).legs.map Leg.page := by
  induction names generalizing i with
  | nil => rfl
  | cons name names ih =>
    rw [tour, List.map_append, ih, List.flatMap_cons, List.map_map]
    rfl

variable {chain}

theorem tour_ne_nil (i : Nat) {names : List String} (h : names ≠ []) : tour chain i names ≠ [] := by
  cases names with
  | nil => exact absurd rfl h
  | cons name names => simp [tour, Chain.legs]

theorem exists_of_mem_tour {i : Nat} {names : List String} {s : Stop} (hs : s ∈ tour chain i names) :
    ∃ k, s.bucket = i + k ∧ names[k]? = some s.name ∧ s.leg ∈ (chain s.name).legs := by
  induction names generalizing i with
  | nil => cases hs
  | cons name names ih =>
    rcases List.mem_append.1 hs with hs | hs
    · obtain ⟨l, hl, rfl⟩ := List.mem_map.1 hs
      exact ⟨0, rfl, rfl, hl⟩
    · obtain ⟨k, hbucket, hname, hleg⟩ := ih hs
      exact ⟨k + 1, by omega, hname, hleg⟩

theorem name_mem_of_mem_tour {i : Nat} {names : List String} {s : Stop} (hs : s ∈ tour chain i names) :
    s.name ∈ names := by
  obtain ⟨k, -, hname, -⟩ := exists_of_mem_tour hs
  exact List.mem_of_getElem? hname

theorem nodup_cursor_tour (i : Nat) (names : List String) : ((tour chain i names).map Stop.cursor).Nodup := by
  induction names generalizing i with
  | nil => exact List.nodup_nil
  | cons name names ih =>
    rw [tour, List.map_append, List.nodup_append]
    refine ⟨?_, ih (i + 1), ?_⟩
    · have hinj : Function.Injective fun token => (⟨i, token⟩ : Cursor) := by
        intro t u h
        exact congrArg Cursor.token h
      have hnodup := ((chain name).nodup_legs).map hinj
      rw [List.map_map] at hnodup ⊢
      exact hnodup
    · intro c hc d hd heq
      rw [List.map_map] at hc
      obtain ⟨l, -, rfl⟩ := List.mem_map.1 hc
      obtain ⟨s, hs, rfl⟩ := List.mem_map.1 hd
      obtain ⟨k, hbucket, -, -⟩ := exists_of_mem_tour hs
      have hsame : i = s.bucket := congrArg Cursor.bucket heq
      omega

theorem writable_of_mem_tour {names : List String} (hcount : names.length ≤ Cursor.bucketLimit) {s : Stop}
    (hs : s ∈ tour chain 0 names) : s.cursor.Writable := by
  obtain ⟨k, hbucket, hname, hleg⟩ := exists_of_mem_tour hs
  obtain ⟨hk, -⟩ := List.getElem?_eq_some_iff.1 hname
  refine ⟨?_, (chain s.name).token_ne_empty hleg⟩
  show s.bucket < Cursor.bucketLimit
  omega

theorem nodup_token_tour {names : List String} (hcount : names.length ≤ Cursor.bucketLimit) :
    ((tour chain 0 names).map fun s => (s.placed names.length).token).Nodup := by
  refine List.Nodup.of_map Buckets.cursorOf ?_
  have hread : ((tour chain 0 names).map fun s => (s.placed names.length).token).map Buckets.cursorOf =
      ((tour chain 0 names).map Stop.cursor).map Except.ok := by
    rw [List.map_map, List.map_map]
    refine List.map_congr_left ?_
    intro s hs
    exact Cursor.cursorOf_token? (writable_of_mem_tour hcount hs)
  rw [hread]
  refine (nodup_cursor_tour 0 names).map ?_
  intro c d h
  cases h
  rfl

theorem leads_tour {count : Nat} (i : Nat) (names : List String) (hcount : i + names.length = count)
    {a : Leg} {rest : List Leg} (h : (tour chain i names).map (Stop.placed count) = a :: rest) :
    i < count ∧ a.token = (Cursor.startOf i).token? ∧ a.Leads rest := by
  induction names generalizing i a rest with
  | nil => cases h
  | cons name names ih =>
    rw [List.length_cons] at hcount
    simp only [tour, Chain.legs, List.map_cons, List.cons_append, List.map_append, List.map_map,
      List.cons.injEq] at h
    obtain ⟨rfl, rfl⟩ := h
    refine ⟨by omega, by simp [Stop.placed, Stop.cursor, Cursor.startOf, (chain name).start], ?_⟩
    refine Stop.leads_append name (chain name).leads ?_ ?_
    · intro hnil
      cases names with
      | nil => exact Nat.le_of_eq hcount.symm
      | cons next names => simp [tour, Chain.legs] at hnil
    · intro b rest htail
      obtain ⟨hlt, htoken, hleads⟩ := ih (i + 1) (by omega) htail
      refine ⟨hlt, ?_, hleads⟩
      rw [htoken]
      exact Cursor.token?_of_ne (by simp [Cursor.startOf])

end ObjectStorage.S3
