import Mathlib.Algebra.Order.BigOperators.Group.List
import Mathlib.Algebra.Order.Ring.Nat
import Mathlib.Data.List.Perm.Basic
import ObjectStorage.Proofs.Store.Listings

/-! # Descents through common prefixes

A listing with a delimiter tells of some keys by objects and of the others by common prefixes. Listing each
common prefix in turn gives back just the keys that it stands for, so that whoever descends through common
prefixes meets every key once. None of this depends on the sizes of pages.
-/
namespace ObjectStorage

def Page.told (p : Page) : Listing := ⟨p.objects, p.commonPrefixes⟩

theorem Listing.ofPages_congr {pages others : List Page} (h : pages.map Page.told = others.map Page.told) :
    Listing.ofPages pages = Listing.ofPages others := by
  have hobjects (l : List Page) : l.flatMap Page.objects = (l.map Page.told).flatMap Listing.objects := by
    rw [List.flatMap_map]
    rfl
  have hprefixes (l : List Page) :
      l.flatMap Page.commonPrefixes = (l.map Page.told).flatMap Listing.commonPrefixes := by
    rw [List.flatMap_map]
    rfl
  simp only [Listing.ofPages, hobjects, hprefixes, h]

namespace Store
variable {s : Store} {pageSize : Nat} {first delimiter : String} {token : Option String}

theorem after_of_mem_range {e : String × StoredObject} (he : e ∈ s.range first token) : After token e.1 := by
  cases token with
  | none => exact after_none e.1
  | some last =>
    have hmem := (List.takeWhile_sublist _).subset he
    rw [dropWhile_eq_filter] at hmem
    · simpa [-String.lt_iff_ltb] using (List.mem_filter.1 hmem).2
    · refine s.sorted.imp ?_
      intro a b hlt hb
      exact decide_eq_true (hlt.le.trans (of_decide_eq_true hb))

theorem length_after_lt (h : (s.page pageSize first delimiter token).truncated = true) :
    (s.entries.filter fun e => decide (After (s.page pageSize first delimiter token).next e.1)).length <
      (s.entries.filter fun e => decide (After token e.1)).length := by
  obtain ⟨front, e, hfront, hnext⟩ := exists_last_of_truncated h
  have hrange : e ∈ s.range first token := scanned_sublist.subset (by rw [hfront]; simp)
  have hafter := after_of_mem_range hrange
  have hmem : e ∈ s.entries.filter fun e => decide (After token e.1) :=
    List.mem_filter.2 ⟨(s.range_sublist first token).subset hrange, decide_eq_true hafter⟩
  have hfilter : (s.entries.filter fun d => decide (After (some e.1) d.1)) =
      (s.entries.filter fun d => decide (After token d.1)).filter fun d => decide (e.1 < d.1) := by
    rw [List.filter_filter]
    refine List.filter_congr fun d _ => ?_
    rw [← Bool.decide_and, decide_eq_decide, after_some]
    constructor
    · intro hlt
      exact ⟨hlt, fun last hlast => (hafter last hlast).trans hlt⟩
    · exact And.left
  rw [hnext, hfilter, List.length_filter_lt_length_iff_exists]
  exact ⟨e, hmem, by simp⟩

/-- The pages of a store that stays as it is: that of a token, and while it is truncated those from its own token
on. -/
def pagesFrom (s : Store) (pageSize : Nat) (first delimiter : String) (token : Option String) : List Page :=
  let page := s.page pageSize first delimiter token
  if page.truncated = true then page :: pagesFrom s pageSize first delimiter page.next else [page]
termination_by (s.entries.filter fun e => decide (After token e.1)).length
decreasing_by exact length_after_lt ‹_›

def listing (s : Store) (pageSize : Nat) (first delimiter : String) : Listing :=
  .ofPages (s.pagesFrom pageSize first delimiter none)

theorem exists_parts (s : Store) (pageSize : Nat) (delimiter : String) (hwithin : Within first token) :
    ∃ parts : List (List (String × StoredObject)),
    s.range first token = parts.flatten ∧ (s.pagesFrom pageSize first delimiter token).map Page.told =
      (parts.map fun part => describe first delimiter part true).map Page.told := by
  fun_induction pagesFrom s pageSize first delimiter token with
  | case1 token page htruncated ih =>
    obtain ⟨last, hnext, hdivides⟩ := divides_of_truncated hwithin htruncated
    obtain ⟨parts, hrange, htold⟩ := ih (by rw [hnext]; exact hdivides.within)
    rw [hnext] at hrange
    refine ⟨s.scanned pageSize first token :: parts, ?_, ?_⟩
    · rw [List.flatten_cons, ← hrange]
      exact hdivides.split
    · rw [List.map_cons, htold]
      rfl
  | case2 token page hlast =>
    refine ⟨[s.range first token], by simp, ?_⟩
    have hscanned := scanned_of_last (Bool.eq_false_iff.2 hlast)
    rw [← hscanned]
    rfl

theorem lists_listing (s : Store) (pageSize : Nat) (first delimiter : String) :
    s.Lists first delimiter (s.listing pageSize first delimiter) := by
  obtain ⟨parts, hrange, htold⟩ := exists_parts s pageSize delimiter (within_none first)
  rw [listing, Listing.ofPages_congr htold]
  exact lists_ofPages hrange

/-! ## What a common prefix stands for -/

theorem mem_flat {l : Listing} (h : s.Lists first "" l) {o : ObjectMeta} : o ∈ l.objects ↔
    ∃ stored, s.get? o.key = some stored ∧ first.toList <+: o.key.toList ∧ objectMeta (o.key, stored) = o := by
  rw [h.mem_objects]
  simp [Ungrouped]

theorem Lists.nodup_keys {l : Listing} (h : s.Lists first delimiter l) :
    (l.objects.map ObjectMeta.key).Nodup := by
  rw [List.Nodup, List.pairwise_map]
  exact h.sorted_objects.imp fun hlt => hlt.ne

theorem Lists.exists_group {l : Listing} (h : s.Lists first delimiter l) {p : String}
    (hp : p ∈ l.commonPrefixes) :
    ∃ key, (s.get? key).isSome ∧ IsGroup first delimiter key p := by
  obtain ⟨key, hstored, -, hgroup⟩ := (h.mem_commonPrefixes p).1 hp
  exact ⟨key, hstored, hgroup⟩

section Partition
variable {delimited : Listing} {part : String → Listing} (hdelimited : s.Lists first delimiter delimited)
  (hpart : ∀ p, s.Lists p "" (part p))
include hdelimited hpart

/-- A stored key is told of by itself, or it is under a common prefix. -/
theorem mem_flat_iff {flat : Listing} (hflat : s.Lists first "" flat) {o : ObjectMeta} :
    o ∈ flat.objects ↔ o ∈ delimited.objects ++ delimited.commonPrefixes.flatMap fun p => (part p).objects := by
  simp only [List.mem_append, List.mem_flatMap, mem_flat hflat, mem_flat (hpart _)]
  constructor
  · rintro ⟨stored, hstored, hstarts, hmeta⟩
    cases hgroup : groupOf first delimiter o.key with
    | none =>
      have hungrouped := (groupOf_eq_none_iff hstarts).1 hgroup
      exact .inl ((hdelimited.mem_objects o).2 ⟨stored, hstored, hstarts, hungrouped, hmeta⟩)
    | some p =>
      have hgroup := (groupOf_eq_some_iff hstarts).1 hgroup
      have hlisted := (hdelimited.mem_commonPrefixes p).2 ⟨o.key, by simp [hstored], hstarts, hgroup⟩
      exact .inr ⟨p, hlisted, stored, hstored, hgroup.begins, hmeta⟩
  · rintro (hobject | ⟨p, hp, stored, hstored, hunder, hmeta⟩)
    · obtain ⟨stored, hstored, hstarts, -, hmeta⟩ := (hdelimited.mem_objects o).1 hobject
      exact ⟨stored, hstored, hstarts, hmeta⟩
    · obtain ⟨key, -, hgroup⟩ := hdelimited.exists_group hp
      exact ⟨stored, hstored, hgroup.continues.trans hunder, hmeta⟩

theorem nodup_partition :
    (delimited.objects ++ delimited.commonPrefixes.flatMap fun p => (part p).objects).Nodup := by
  have hunder {p : String} {o : ObjectMeta} (ho : o ∈ (part p).objects) : p.toList <+: o.key.toList := by
    obtain ⟨-, -, hunder, -⟩ := (mem_flat (hpart p)).1 ho
    exact hunder
  rw [List.nodup_append', List.nodup_flatMap]
  refine ⟨hdelimited.nodup_keys.of_map _, ⟨fun p _ => (hpart p).nodup_keys.of_map _, ?_⟩, ?_⟩
  · refine hdelimited.sorted_commonPrefixes.imp_of_mem ?_
    intro p q hp hq hlt
    obtain ⟨a, -, hgroup⟩ := hdelimited.exists_group hp
    obtain ⟨b, -, hother⟩ := hdelimited.exists_group hq
    change List.Disjoint (part p).objects (part q).objects
    rw [List.disjoint_left]
    intro o ho hshared
    -- of two beginnings of one key one begins the other, and then both are of one group
    rcases List.prefix_or_prefix_of_prefix (hunder ho) (hunder hshared) with hle | hle
    · exact hlt.ne (hgroup.eq_of_isPrefix hother hle)
    · exact hlt.ne' (hother.eq_of_isPrefix hgroup hle)
  · rw [List.disjoint_left]
    intro o ho hshared
    obtain ⟨p, hp, hshared⟩ := List.mem_flatMap.1 hshared
    obtain ⟨key, -, hgroup⟩ := hdelimited.exists_group hp
    obtain ⟨-, -, -, hungrouped, -⟩ := (hdelimited.mem_objects o).1 ho
    exact hgroup.not_isPrefix hungrouped (hunder hshared)

theorem flat_perm {flat : Listing} (hflat : s.Lists first "" flat) :
    flat.objects.Perm (delimited.objects ++ delimited.commonPrefixes.flatMap fun p => (part p).objects) := by
  have hnodup : flat.objects.Nodup := hflat.nodup_keys.of_map _
  rw [List.perm_ext_iff_of_nodup hnodup (nodup_partition hdelimited hpart)]
  intro o
  exact mem_flat_iff hdelimited hpart hflat

end Partition

/-! ## Descents -/

def keyLengths (s : Store) : Nat := (s.entries.map fun e => e.1.length).sum

theorem length_le_keyLengths {key : String} (h : (s.get? key).isSome) : key.length ≤ s.keyLengths := by
  obtain ⟨o, ho⟩ := Option.isSome_iff_exists.1 h
  have hmem : key.length ∈ s.entries.map fun e => e.1.length :=
    List.mem_map.2 ⟨(key, o), get?_eq_some_iff.1 ho, rfl⟩
  exact List.le_sum_of_mem hmem

theorem length_lt_of_listing {p : String} (hp : p ∈ (s.listing pageSize first delimiter).commonPrefixes) :
    first.length < p.length ∧ p.length ≤ s.keyLengths := by
  obtain ⟨key, hstored, hgroup⟩ := (s.lists_listing pageSize first delimiter).exists_group hp
  have hshort : p.length ≤ key.length := by simpa [String.length_toList] using hgroup.begins.length_le
  have hlong := length_le_keyLengths hstored
  obtain ⟨head, rfl, -⟩ := hgroup.shortest
  have hdelimiter : delimiter.length ≠ 0 := by simpa using hgroup.delimited
  simp only [String.length_append] at hshort ⊢
  omega

/-- Everything that is met by listing a prefix with the delimiter, and then each common prefix in the same way. -/
def descend (s : Store) (pageSize : String → Nat) (delimiter first : String) : List ObjectMeta :=
  let l := s.listing (pageSize first) first delimiter
  l.objects ++ l.commonPrefixes.attach.flatMap fun ⟨p, _⟩ => descend s pageSize delimiter p
termination_by s.keyLengths - first.length
decreasing_by
  rename_i hp
  obtain ⟨hlt, hle⟩ := length_lt_of_listing hp
  omega

theorem descend_perm (pageSize : String → Nat) (delimiter first : String) (flatSize : Nat) :
    (s.descend pageSize delimiter first).Perm (s.listing flatSize first "").objects := by
  fun_induction descend s pageSize delimiter first with
  | case1 first l ih =>
    rw [List.flatMap_subtype fun _ _ => rfl, List.unattach_attach]
    have hparts : (l.commonPrefixes.flatMap fun p => s.descend pageSize delimiter p).Perm
        (l.commonPrefixes.flatMap fun p => (s.listing flatSize p "").objects) :=
      List.Perm.flatMap_left _ ih
    have hflat := flat_perm (s.lists_listing (pageSize first) first delimiter)
      (fun p => s.lists_listing flatSize p "") (s.lists_listing flatSize first "")
    exact (hparts.append_left l.objects).trans hflat.symm

/-- With one key a page the keys of a group are on several pages, and still met once. -/
example : let s : Store := ["a/b/1", "a/b/2", "a/c", "d"].foldl (fun s key => s.put key ⟨[], ⟨0, 0⟩⟩) .empty
    (s.descend (fun _ => 1) "/" "").map ObjectMeta.key = ["d", "a/c", "a/b/1", "a/b/2"] := by
  decide +kernel

/-- Listings of a store that stays as it is, with pages of any sizes. What is under a prefix is divided, with
nothing twice, among the objects that a delimiter leaves there and what is under each of the common prefixes. So a
descent through common prefixes meets every stored key with the prefix once. -/
theorem listing_partitions (s : Store) (first delimiter : String) (flatSize size : Nat) (partSize : String → Nat) :
    let flat := s.listing flatSize first ""
    let delimited := s.listing size first delimiter
    flat.objects.Perm (delimited.objects ++
      delimited.commonPrefixes.flatMap fun p => (s.listing (partSize p) p "").objects) ∧
    (flat.objects.map ObjectMeta.key).Nodup ∧
    ((s.descend partSize delimiter first).map ObjectMeta.key).Nodup ∧
    ∀ key, key ∈ (s.descend partSize delimiter first).map ObjectMeta.key ↔
      (s.get? key).isSome ∧ first.toList <+: key.toList := by
  intro flat delimited
  have hflat : s.Lists first "" flat := s.lists_listing flatSize first ""
  have hdelimited : s.Lists first delimiter delimited := s.lists_listing size first delimiter
  have hmet := (s.descend_perm partSize delimiter first flatSize).map ObjectMeta.key
  have hdivided := flat_perm hdelimited (fun p => s.lists_listing (partSize p) p "") hflat
  refine ⟨hdivided, hflat.nodup_keys, hmet.nodup_iff.2 hflat.nodup_keys, fun key => ?_⟩
  rw [hmet.mem_iff, List.mem_map]
  constructor
  · rintro ⟨o, ho, rfl⟩
    obtain ⟨stored, hstored, hstarts, -⟩ := (mem_flat hflat).1 ho
    exact ⟨by simp [hstored], hstarts⟩
  · rintro ⟨hstored, hstarts⟩
    obtain ⟨stored, hstored⟩ := Option.isSome_iff_exists.1 hstored
    exact ⟨objectMeta (key, stored), (mem_flat hflat).2 ⟨stored, hstored, hstarts, rfl⟩, rfl⟩

end Store
end ObjectStorage
