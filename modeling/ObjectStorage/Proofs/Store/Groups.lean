import ObjectStorage.Proofs.Store.Ranges
import ObjectStorage.Proofs.Text.Search

/-! # Groups of keys

What a page says of the keys that it scans. A key in which the delimiter occurs after the prefix belongs to
a group, and all keys of a group are told by one common prefix; every other key is an object.
-/
namespace ObjectStorage.Store
variable {first delimiter key group : String}

/-- The common prefix of a key: the shortest one among the prefixes of the key that continue the one asked
for and end with the delimiter. An empty delimiter makes no groups. -/
structure IsGroup (first delimiter key group : String) : Prop where
  delimited : delimiter ≠ ""
  begins : group.toList <+: key.toList
  shortest : ∃ head, group = first ++ head ++ delimiter ∧
    ∀ other, (first ++ other ++ delimiter).toList <+: key.toList → head.length ≤ other.length

theorem IsGroup.continues (h : IsGroup first delimiter key group) : first.toList <+: group.toList := by
  obtain ⟨head, rfl, -⟩ := h.shortest
  simp [List.append_assoc]

def Ungrouped (first delimiter key : String) : Prop :=
  delimiter = "" ∨ ∀ head, ¬(first ++ head ++ delimiter).toList <+: key.toList

theorem groupOf_eq_search (hdelimiter : delimiter ≠ "") {rest : List Char} (hkey : first.toList ++ rest = key.toList) :
    groupOf first delimiter key =
      (Text.throughFirst delimiter.toList rest).map fun t => first ++ String.ofList t := by
  have hrest : key.toList.drop first.length = rest := by
    rw [← hkey, ← String.length_toList, List.drop_left]
  simp [groupOf, hdelimiter, hrest]

theorem prefix_iff_of_append {rest : List Char} (hkey : first.toList ++ rest = key.toList) (head : String) :
    (first ++ head ++ delimiter).toList <+: key.toList ↔ head.toList ++ delimiter.toList <+: rest := by
  rw [← hkey]
  simp [List.append_assoc, List.prefix_append_right_inj]

theorem groupOf_eq_some_iff (h : first.toList <+: key.toList) :
    groupOf first delimiter key = some group ↔ IsGroup first delimiter key group := by
  obtain ⟨rest, hkey⟩ := h
  by_cases hempty : delimiter = ""
  · have hnone : groupOf first delimiter key = none := by simp [groupOf, hempty]
    rw [hnone]
    exact iff_of_false (by simp) fun hgroup => hgroup.delimited hempty
  have hunder (head : String) : (first ++ head ++ delimiter).toList <+: key.toList ↔
      head.toList ++ delimiter.toList <+: rest := prefix_iff_of_append hkey head
  rw [groupOf_eq_search hempty hkey, Option.map_eq_some_iff]
  constructor
  · rintro ⟨t, ht, rfl⟩
    obtain ⟨head, hfirst, rfl⟩ := Text.throughFirst_eq_some_iff.1 ht
    have hgroup : first ++ String.ofList (head ++ delimiter.toList) = first ++ String.ofList head ++ delimiter := by
      simp [← String.toList_inj]
    refine ⟨hempty, ?_, String.ofList head, hgroup, ?_⟩
    · rw [hgroup, hunder]
      simpa using hfirst.occurs
    · intro other hother
      simpa [String.length_toList] using hfirst.least other.toList ((hunder other).1 hother)
  · rintro ⟨-, hbegins, head, rfl, hleast⟩
    refine ⟨head.toList ++ delimiter.toList, Text.throughFirst_eq_some_iff.2 ⟨head.toList, ⟨?_, ?_⟩, rfl⟩, ?_⟩
    · exact (hunder head).1 hbegins
    · intro other hother
      simpa [String.length_toList] using
        hleast (String.ofList other) ((hunder (String.ofList other)).2 (by simpa using hother))
    · simp [← String.toList_inj]

theorem groupOf_eq_none_iff (h : first.toList <+: key.toList) :
    groupOf first delimiter key = none ↔ Ungrouped first delimiter key := by
  obtain ⟨rest, hkey⟩ := h
  by_cases hempty : delimiter = ""
  · simp [groupOf, Ungrouped, hempty]
  rw [groupOf_eq_search hempty hkey, Option.map_eq_none_iff, Text.throughFirst_eq_none_iff, Ungrouped,
    or_iff_right hempty]
  constructor
  · intro hnowhere head hoccurs
    exact hnowhere head.toList ((prefix_iff_of_append hkey head).1 hoccurs)
  · intro hnowhere head hoccurs
    exact hnowhere (String.ofList head) ((prefix_iff_of_append hkey _).2 (by simpa using hoccurs))

theorem IsGroup.mono {a b g h : String} (hab : a < b) (ha : IsGroup first delimiter a g)
    (hb : IsGroup first delimiter b h) : g ≤ h := by
  refine le_of_not_gt fun hlt => ?_
  have hga : g ≤ a := le_of_isPrefix ha.begins
  -- Otherwise the later key has the smaller group, and so has everything between them.
  have hbetween : h.toList <+: a.toList := prefix_of_le_of_le hb.begins (hlt.le.trans hga) hab.le
  have hshort : h.toList <+: g.toList := prefix_of_le_of_le hb.begins hlt.le (hga.trans hab.le)
  obtain ⟨head, rfl, hleast⟩ := ha.shortest
  obtain ⟨other, rfl, -⟩ := hb.shortest
  have hlength : head.length ≤ other.length := hleast other hbetween
  have heq : (first ++ other ++ delimiter).toList = (first ++ head ++ delimiter).toList := by
    refine hshort.eq_of_length_le ?_
    simpa [String.length_toList] using hlength
  exact hlt.ne (String.toList_inj.1 heq)

theorem IsGroup.self (h : IsGroup first delimiter key group) : IsGroup first delimiter group group := by
  obtain ⟨head, heq, hleast⟩ := h.shortest
  refine ⟨h.delimited, List.prefix_rfl, head, heq, ?_⟩
  intro other hother
  exact hleast other (hother.trans h.begins)

theorem IsGroup.eq_of_isPrefix {a b g h : String} (ha : IsGroup first delimiter a g)
    (hb : IsGroup first delimiter b h) (hbegins : g.toList <+: h.toList) : g = h := by
  obtain ⟨head, hg, -⟩ := ha.shortest
  obtain ⟨other, hh, hleast⟩ := hb.shortest
  have hlength : other.length ≤ head.length := by
    apply hleast
    rw [← hg]
    exact hbegins.trans hb.begins
  have heq : g.toList = h.toList := by
    apply hbegins.eq_of_length_le
    rw [hg, hh]
    simp only [String.toList_append, List.length_append, String.length_toList]
    omega
  exact String.toList_inj.1 heq

theorem IsGroup.eq_of_begins {a b g h : String} (ha : IsGroup first delimiter a g)
    (hb : IsGroup first delimiter b h) (hbegins : h.toList <+: a.toList) : h = g := by
  rcases List.prefix_or_prefix_of_prefix hbegins ha.begins with hle | hle
  · exact hb.eq_of_isPrefix ha hle
  · exact (ha.eq_of_isPrefix hb hle).symm

theorem IsGroup.not_isPrefix {other : String} (h : IsGroup first delimiter other group)
    (hkey : Ungrouped first delimiter key) : ¬group.toList <+: key.toList := by
  intro hbegins
  obtain ⟨head, rfl, -⟩ := h.shortest
  rcases hkey with hempty | hnowhere
  · exact h.delimited hempty
  · exact hnowhere head hbegins

/-! ## What a page describes -/

def objectMeta (e : String × StoredObject) : ObjectMeta := ⟨e.1, e.2.data.length, some e.2.modified⟩

theorem dropRepeats_sublist (l : List String) : (dropRepeats l).Sublist l := by
  fun_induction dropRepeats l with
  | case1 b rest ih => exact ih.cons b
  | case2 a b rest hne ih => exact ih.cons_cons a
  | case3 l hl => exact .refl l

theorem mem_dropRepeats {l : List String} {a : String} : a ∈ dropRepeats l ↔ a ∈ l := by
  fun_induction dropRepeats l with
  | case1 b rest ih => simp [ih]
  | case2 a b rest hne ih => simp [ih]
  | case3 l hl => rfl

theorem sorted_dropRepeats {l : List String} (h : l.Pairwise (· ≤ ·)) : (dropRepeats l).Pairwise (· < ·) := by
  fun_induction dropRepeats l with
  | case1 b rest ih => exact ih (List.pairwise_cons.1 h).2
  | case2 a b rest hne ih =>
    obtain ⟨ha, hrest⟩ := List.pairwise_cons.1 h
    refine List.pairwise_cons.2 ⟨?_, ih hrest⟩
    intro c hc
    have hlt : a < b := lt_of_le_of_ne (ha b List.mem_cons_self) hne
    rcases List.mem_cons.1 (mem_dropRepeats.1 hc) with rfl | hc
    · exact hlt
    · exact hlt.trans_le ((List.pairwise_cons.1 hrest).1 c hc)
  | case3 l hl =>
    match l, hl with
    | [], _ => exact .nil
    | [a], _ => exact List.pairwise_singleton _ a
    | a :: b :: rest, hl => exact absurd rfl (hl a b rest)

variable {entries : List (String × StoredObject)} {more : Bool}

theorem objects_describe : (describe first delimiter entries more).objects =
    (entries.filter fun e => (groupOf first delimiter e.1).isNone).map objectMeta := by
  rw [← List.filterMap_eq_map, List.filterMap_filter]
  rfl

/-- What several pages list is what there is to list in all that they scan. -/
theorem flatMap_objects_describe {α : Type} (l : List α) (part : α → List (String × StoredObject)) (more : α → Bool) :
    (l.flatMap fun a => (describe first delimiter (part a) (more a)).objects) =
      ((l.flatMap part).filter fun e => (groupOf first delimiter e.1).isNone).map objectMeta := by
  rw [List.filter_flatMap, List.map_flatMap]
  exact List.flatMap_congr fun a _ => objects_describe

theorem mem_objects_describe {o : ObjectMeta} : o ∈ (describe first delimiter entries more).objects ↔
    ∃ e ∈ entries, groupOf first delimiter e.1 = none ∧ objectMeta e = o := by
  simp [objects_describe, and_assoc]

/-- Keys in order have their groups in order. -/
theorem sorted_groups (hsorted : entries.Pairwise fun a b => a.1 < b.1)
    (hunder : ∀ e ∈ entries, first.toList <+: e.1.toList) :
    (entries.filterMap fun e => groupOf first delimiter e.1).Pairwise (· ≤ ·) := by
  rw [List.pairwise_filterMap]
  refine hsorted.imp_of_mem ?_
  intro d e hd he hlt g hg k hk
  rw [groupOf_eq_some_iff (hunder d hd)] at hg
  rw [groupOf_eq_some_iff (hunder e he)] at hk
  exact hg.mono hlt hk

theorem commonPrefixes_describe_sublist : (describe first delimiter entries more).commonPrefixes.Sublist
    (entries.filterMap fun e => groupOf first delimiter e.1) :=
  dropRepeats_sublist _

theorem mem_commonPrefixes_describe : group ∈ (describe first delimiter entries more).commonPrefixes ↔
    ∃ e ∈ entries, groupOf first delimiter e.1 = some group := by
  simp [describe, mem_dropRepeats]

end ObjectStorage.Store
