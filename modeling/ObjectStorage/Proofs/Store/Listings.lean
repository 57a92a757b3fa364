import Mathlib.Data.List.Sort
import ObjectStorage.Proofs.Listing.Chains
import ObjectStorage.Proofs.Store.Groups

/-! # What there is to list

What a complete listing of a store says, told by the stored keys alone. Pages that divide the range of a
prefix among them say just that, whatever the division.
-/
namespace ObjectStorage

/-- Without its repetitions a sorted list is strictly sorted. -/
theorem sorted_eraseDups : ∀ {l : List String}, l.Pairwise (· ≤ ·) → l.eraseDups.Pairwise (· < ·)
  | [], _ => .nil
  | a :: l, h => by
    obtain ⟨ha, hl⟩ := List.pairwise_cons.1 h
    rw [List.eraseDups_cons, List.pairwise_cons]
    refine ⟨?_, sorted_eraseDups (hl.filter _)⟩
    intro b hb
    rw [List.mem_eraseDups, List.mem_filter] at hb
    have hne : b ≠ a := by simpa using hb.2
    exact lt_of_le_of_ne (ha b hb.1) hne.symm
termination_by l => l.length
decreasing_by exact Nat.lt_succ_of_le (List.length_filter_le _ _)

namespace Store
variable {s : Store} {first delimiter : String}

/-- What there is to list under a prefix, in the order of keys and each once: the stored keys in which the
delimiter does not occur after the prefix, and the common prefixes of the others. -/
structure Lists (s : Store) (first delimiter : String) (l : Listing) : Prop where
  sorted_objects : l.objects.Pairwise fun a b => a.key < b.key
  mem_objects : ∀ o, o ∈ l.objects ↔ ∃ stored, s.get? o.key = some stored ∧ first.toList <+: o.key.toList ∧
    Ungrouped first delimiter o.key ∧ objectMeta (o.key, stored) = o
  sorted_commonPrefixes : l.commonPrefixes.Pairwise (· < ·)
  mem_commonPrefixes : ∀ p, p ∈ l.commonPrefixes ↔ ∃ key, (s.get? key).isSome ∧ first.toList <+: key.toList ∧
    IsGroup first delimiter key p

theorem Lists.unique {k l : Listing} (hk : s.Lists first delimiter k) (hl : s.Lists first delimiter l) : k = l := by
  have hobjects : k.objects = l.objects :=
    List.Pairwise.eq_of_mem_iff (r := fun a b => a.key < b.key) hk.sorted_objects hl.sorted_objects fun o => by
      rw [hk.mem_objects, hl.mem_objects]
  have hprefixes : k.commonPrefixes = l.commonPrefixes :=
    hk.sorted_commonPrefixes.eq_of_mem_iff hl.sorted_commonPrefixes fun p => by
      rw [hk.mem_commonPrefixes, hl.mem_commonPrefixes]
  exact congrArg₂ Listing.mk hobjects hprefixes

theorem mem_range_none {e : String × StoredObject} :
    e ∈ s.range first none ↔ s.get? e.1 = some e.2 ∧ first.toList <+: e.1.toList := by
  rw [mem_range (within_none first), get?_eq_some_iff]
  simp

section Parts
variable {parts : List (List (String × StoredObject))} (h : s.range first none = parts.flatten)
include h

theorem objects_of_parts : (parts.flatMap fun part => (describe first delimiter part true).objects) =
    ((s.range first none).filter fun e => (groupOf first delimiter e.1).isNone).map objectMeta := by
  rw [h, ← List.flatMap_id]
  exact flatMap_objects_describe parts id fun _ => true

theorem sorted_objects_of_parts :
    (parts.flatMap fun part => (describe first delimiter part true).objects).Pairwise fun a b => a.key < b.key := by
  rw [objects_of_parts h]
  exact ((s.sorted_range first none).filter _).map objectMeta fun _ _ hlt => hlt

theorem mem_objects_of_parts {o : ObjectMeta} :
    o ∈ (parts.flatMap fun part => (describe first delimiter part true).objects) ↔
      ∃ stored, s.get? o.key = some stored ∧ first.toList <+: o.key.toList ∧ Ungrouped first delimiter o.key ∧
        objectMeta (o.key, stored) = o := by
  rw [objects_of_parts h, List.mem_map]
  simp only [List.mem_filter, Option.isNone_iff_eq_none, mem_range_none]
  constructor
  · rintro ⟨e, ⟨⟨hstored, hunder⟩, hgroup⟩, rfl⟩
    exact ⟨e.2, hstored, hunder, (groupOf_eq_none_iff hunder).1 hgroup, rfl⟩
  · rintro ⟨stored, hstored, hunder, hungrouped, hmeta⟩
    exact ⟨(o.key, stored), ⟨⟨hstored, hunder⟩, (groupOf_eq_none_iff hunder).2 hungrouped⟩, hmeta⟩

theorem sorted_commonPrefixes_of_parts :
    (parts.flatMap fun part => (describe first delimiter part true).commonPrefixes).Pairwise (· ≤ ·) := by
  have hsublist : (parts.flatMap fun part => (describe first delimiter part true).commonPrefixes).Sublist
      (parts.flatten.filterMap fun e => groupOf first delimiter e.1) := by
    clear h
    induction parts with
    | nil => exact .slnil
    | cons part parts ih => simpa [List.filterMap_append] using commonPrefixes_describe_sublist.append ih
  refine List.Pairwise.sublist hsublist ?_
  rw [← h]
  exact sorted_groups (s.sorted_range first none) fun e he => (mem_range_none.1 he).2

theorem mem_commonPrefixes_of_parts {p : String} :
    p ∈ (parts.flatMap fun part => (describe first delimiter part true).commonPrefixes) ↔
      ∃ key, (s.get? key).isSome ∧ first.toList <+: key.toList ∧ IsGroup first delimiter key p := by
  simp only [List.mem_flatMap, mem_commonPrefixes_describe]
  constructor
  · rintro ⟨part, hpart, e, he, hgroup⟩
    obtain ⟨hstored, hunder⟩ := mem_range_none.1 (h ▸ List.mem_flatten.2 ⟨part, hpart, he⟩)
    exact ⟨e.1, by simp [hstored], hunder, (groupOf_eq_some_iff hunder).1 hgroup⟩
  · rintro ⟨key, hstored, hunder, hgroup⟩
    obtain ⟨o, ho⟩ := Option.isSome_iff_exists.1 hstored
    have hmem : (key, o) ∈ s.range first none := mem_range_none.2 ⟨ho, hunder⟩
    obtain ⟨part, hpart, he⟩ := List.mem_flatten.1 (h ▸ hmem)
    exact ⟨part, hpart, (key, o), he, (groupOf_eq_some_iff hunder).2 hgroup⟩

/-- The pages list everything, however the range is divided among them. -/
theorem lists_ofPages : s.Lists first delimiter
    (.ofPages (parts.map fun part => describe first delimiter part true)) where
  sorted_objects := by
    simpa [Listing.ofPages, List.flatMap_map] using sorted_objects_of_parts h
  mem_objects o := by
    simpa [Listing.ofPages, List.flatMap_map] using mem_objects_of_parts h
  sorted_commonPrefixes := by
    simpa [Listing.ofPages, List.flatMap_map] using sorted_eraseDups (sorted_commonPrefixes_of_parts h)
  mem_commonPrefixes p := by
    simpa [Listing.ofPages, List.flatMap_map, List.mem_eraseDups] using mem_commonPrefixes_of_parts h

end Parts
end Store
end ObjectStorage
