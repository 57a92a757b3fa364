import ObjectStorage.Proofs.Store.Listings
import ObjectStorage.Store.Memory

/-! # The shape of a page

A page scans the next keys after its token, up to so many, and tells of each of them once: by an object, or by
a common prefix that stands for its whole group. Whether it is truncated and what it names is decided by what
remains behind the last key scanned.
-/
namespace ObjectStorage

inductive Entry where
  | object (o : ObjectMeta)
  | commonPrefix (p : String)

def Entry.Covers : Entry → String → Prop
  | .object o, key => o.key = key
  | .commonPrefix p, key => p.toList <+: key.toList

namespace Page

def entries (p : Page) : List Entry := p.objects.map .object ++ p.commonPrefixes.map .commonPrefix

theorem mem_entries {p : Page} {entry : Entry} : entry ∈ p.entries ↔
    (∃ o ∈ p.objects, .object o = entry) ∨ ∃ q ∈ p.commonPrefixes, .commonPrefix q = entry := by
  simp [entries]

/-- What the entries of a page are, and that they tell just of the keys scanned. -/
structure Tells (p : Page) (first delimiter : String) (scanned : List (String × StoredObject)) : Prop where
  sorted_objects : p.objects.Pairwise fun a b => a.key < b.key
  objects : ∀ o ∈ p.objects, first.toList <+: o.key.toList ∧ Store.Ungrouped first delimiter o.key
  sorted_commonPrefixes : p.commonPrefixes.Pairwise (· < ·)
  /-- After the prefix asked for, the delimiter occurs first at the end. -/
  commonPrefixes : ∀ q ∈ p.commonPrefixes, Store.IsGroup first delimiter q q
  apart_objects : ∀ q ∈ p.commonPrefixes, ∀ o ∈ p.objects, ¬q.toList <+: o.key.toList
  apart : ∀ q ∈ p.commonPrefixes, ∀ r ∈ p.commonPrefixes, q.toList <+: r.toList → q = r
  object_scanned : ∀ o ∈ p.objects, ∃ e ∈ scanned, Store.objectMeta e = o
  commonPrefix_scanned : ∀ q ∈ p.commonPrefixes, ∃ e ∈ scanned, q.toList <+: e.1.toList
  covered : ∀ e ∈ scanned, ∃! entry, entry ∈ p.entries ∧ entry.Covers e.1

end Page

namespace Store
variable {s : Store} {pageSize : Nat} {first delimiter : String} {token : Option String}

/-- A stored key with the prefix that comes after a token. -/
structure Matches (s : Store) (first : String) (token : Option String) (key : String) : Prop where
  stored : (s.get? key).isSome
  starts : first.toList <+: key.toList
  after : After token key

/-- The first of the matching keys, in their order and with what is stored, no more than so many. -/
structure Scans (s : Store) (size : Nat) (first : String) (token : Option String)
    (scanned : List (String × StoredObject)) : Prop where
  sorted : scanned.Pairwise fun a b => a.1 < b.1
  stored : ∀ e ∈ scanned, s.get? e.1 = some e.2 ∧ s.Matches first token e.1
  initial : ∀ key, s.Matches first token key → (∃ e ∈ scanned, e.1 = key) ∨ ∀ e ∈ scanned, e.1 < key
  length_le : scanned.length ≤ size

theorem matches_of_mem (hwithin : Within first token) {e : String × StoredObject} (he : e ∈ s.range first token) :
    s.get? e.1 = some e.2 ∧ s.Matches first token e.1 := by
  obtain ⟨hmem, hstarts, hafter⟩ := (mem_range hwithin).1 he
  have hstored := get?_eq_some_iff.2 hmem
  exact ⟨hstored, by rw [hstored]; rfl, hstarts, hafter⟩

theorem Matches.exists_mem (hwithin : Within first token) {key : String} (h : s.Matches first token key) :
    ∃ e ∈ s.range first token, e.1 = key := by
  obtain ⟨o, ho⟩ := Option.isSome_iff_exists.1 h.stored
  exact ⟨(key, o), (mem_range hwithin).2 ⟨get?_eq_some_iff.1 ho, h.starts, h.after⟩, rfl⟩

theorem lt_of_mem_drop {d e : String × StoredObject} (hd : d ∈ s.scanned pageSize first token)
    (he : e ∈ (s.range first token).drop (max pageSize 1)) : d.1 < e.1 := by
  have hsorted := s.sorted_range first token
  rw [← List.take_append_drop (max pageSize 1) (s.range first token), List.pairwise_append] at hsorted
  exact hsorted.2.2 d hd e he

theorem mem_scanned_or_drop {e : String × StoredObject} (he : e ∈ s.range first token) :
    e ∈ s.scanned pageSize first token ∨ e ∈ (s.range first token).drop (max pageSize 1) := by
  rw [scanned, ← List.mem_append, List.take_append_drop]
  exact he

theorem scans_scanned (hwithin : Within first token) :
    s.Scans (max pageSize 1) first token (s.scanned pageSize first token) where
  sorted := s.sorted_scanned pageSize first token
  stored e he := matches_of_mem hwithin (scanned_sublist.subset he)
  initial key hkey := by
    obtain ⟨e, he, rfl⟩ := hkey.exists_mem hwithin
    rcases mem_scanned_or_drop he with hscanned | hlater
    · exact .inl ⟨e, hscanned, rfl⟩
    · exact .inr fun d hd => lt_of_mem_drop hd hlater
  length_le := List.length_take_le _ _

/-- A page is truncated if a matching key remains behind those it scans, and only then. -/
theorem truncated_iff (hwithin : Within first token) : (s.page pageSize first delimiter token).truncated = true ↔
    ∃ key, s.Matches first token key ∧ ∀ e ∈ s.scanned pageSize first token, e.1 < key := by
  have hrest : (s.page pageSize first delimiter token).truncated = true ↔
      (s.range first token).drop (max pageSize 1) ≠ [] := by
    simp [page, describe]
  rw [hrest]
  constructor
  · intro hsome
    obtain ⟨e, he⟩ := List.exists_mem_of_ne_nil _ hsome
    have hmatches := (matches_of_mem hwithin (List.mem_of_mem_drop he)).2
    exact ⟨e.1, hmatches, fun d hd => lt_of_mem_drop hd he⟩
  · rintro ⟨key, hkey, hlater⟩
    obtain ⟨e, he, rfl⟩ := hkey.exists_mem hwithin
    rcases mem_scanned_or_drop he with hscanned | hremains
    · exact absurd (hlater e hscanned) (lt_irrefl e.1)
    · exact List.ne_nil_of_mem hremains

section Described
variable {entries : List (String × StoredObject)} {more : Bool}

theorem objects_tell (hunder : ∀ e ∈ entries, first.toList <+: e.1.toList) {o : ObjectMeta}
    (ho : o ∈ (describe first delimiter entries more).objects) :
    ∃ e ∈ entries, objectMeta e = o ∧ first.toList <+: o.key.toList ∧ Ungrouped first delimiter o.key := by
  obtain ⟨e, he, hnone, rfl⟩ := mem_objects_describe.1 ho
  exact ⟨e, he, rfl, hunder e he, (groupOf_eq_none_iff (hunder e he)).1 hnone⟩

theorem commonPrefixes_tell (hunder : ∀ e ∈ entries, first.toList <+: e.1.toList) {q : String}
    (hq : q ∈ (describe first delimiter entries more).commonPrefixes) :
    ∃ e ∈ entries, IsGroup first delimiter e.1 q := by
  obtain ⟨e, he, hsome⟩ := mem_commonPrefixes_describe.1 hq
  exact ⟨e, he, (groupOf_eq_some_iff (hunder e he)).1 hsome⟩

theorem eq_of_key_eq (hsorted : entries.Pairwise fun a b => a.1 < b.1) {d e : String × StoredObject}
    (hd : d ∈ entries) (he : e ∈ entries) (hkey : d.1 = e.1) : d = e := by
  have hnodup : (entries.map Prod.fst).Nodup := by
    rw [List.Nodup, List.pairwise_map]
    exact hsorted.imp fun hlt => hlt.ne
  exact List.inj_on_of_nodup_map hnodup hd he hkey

theorem existsUnique_covers (hsorted : entries.Pairwise fun a b => a.1 < b.1)
    (hunder : ∀ e ∈ entries, first.toList <+: e.1.toList) {e : String × StoredObject} (he : e ∈ entries) :
    ∃! entry, entry ∈ (describe first delimiter entries more).entries ∧ entry.Covers e.1 := by
  cases hgroup : groupOf first delimiter e.1 with
  | none =>
    have hungrouped := (groupOf_eq_none_iff (hunder e he)).1 hgroup
    have hobject : objectMeta e ∈ (describe first delimiter entries more).objects :=
      mem_objects_describe.2 ⟨e, he, hgroup, rfl⟩
    refine ⟨.object (objectMeta e), ⟨Page.mem_entries.2 (.inl ⟨_, hobject, rfl⟩), rfl⟩, ?_⟩
    rintro entry ⟨hentry, hcovers⟩
    rcases Page.mem_entries.1 hentry with ⟨o, ho, rfl⟩ | ⟨q, hq, rfl⟩
    · obtain ⟨d, hd, -, rfl⟩ := mem_objects_describe.1 ho
      have hsame : d = e := eq_of_key_eq hsorted hd he hcovers
      rw [hsame]
    · obtain ⟨d, -, hq⟩ := commonPrefixes_tell hunder hq
      exact absurd hcovers (hq.not_isPrefix hungrouped)
  | some group =>
    have hown := (groupOf_eq_some_iff (hunder e he)).1 hgroup
    have htold : group ∈ (describe first delimiter entries more).commonPrefixes :=
      mem_commonPrefixes_describe.2 ⟨e, he, hgroup⟩
    refine ⟨.commonPrefix group, ⟨Page.mem_entries.2 (.inr ⟨_, htold, rfl⟩), hown.begins⟩, ?_⟩
    rintro entry ⟨hentry, hcovers⟩
    rcases Page.mem_entries.1 hentry with ⟨o, ho, rfl⟩ | ⟨q, hq, rfl⟩
    · obtain ⟨d, hd, -, -, hungrouped⟩ := objects_tell hunder ho
      rw [show o.key = e.1 from hcovers] at hungrouped
      exact absurd hown.begins (hown.not_isPrefix hungrouped)
    · obtain ⟨d, -, hq⟩ := commonPrefixes_tell hunder hq
      rw [hown.eq_of_begins hq hcovers]

theorem tells_describe (hsorted : entries.Pairwise fun a b => a.1 < b.1)
    (hunder : ∀ e ∈ entries, first.toList <+: e.1.toList) :
    (describe first delimiter entries more).Tells first delimiter entries where
  sorted_objects := by
    rw [objects_describe]
    exact (hsorted.filter _).map objectMeta fun _ _ hlt => hlt
  objects o ho := by
    obtain ⟨-, -, -, hstarts, hungrouped⟩ := objects_tell hunder ho
    exact ⟨hstarts, hungrouped⟩
  sorted_commonPrefixes := sorted_dropRepeats (sorted_groups hsorted hunder)
  commonPrefixes q hq := by
    obtain ⟨e, -, hgroup⟩ := commonPrefixes_tell hunder hq
    exact hgroup.self
  apart_objects q hq o ho := by
    obtain ⟨d, -, hgroup⟩ := commonPrefixes_tell hunder hq
    obtain ⟨-, -, -, -, hungrouped⟩ := objects_tell hunder ho
    exact hgroup.not_isPrefix hungrouped
  apart q hq r hr hbegins := by
    obtain ⟨d, -, hgroup⟩ := commonPrefixes_tell hunder hq
    obtain ⟨e, -, hother⟩ := commonPrefixes_tell hunder hr
    exact hgroup.eq_of_isPrefix hother hbegins
  object_scanned o ho := by
    obtain ⟨e, he, hmeta, -⟩ := objects_tell hunder ho
    exact ⟨e, he, hmeta⟩
  commonPrefix_scanned q hq := by
    obtain ⟨e, he, hgroup⟩ := commonPrefixes_tell hunder hq
    exact ⟨e, he, hgroup.begins⟩
  covered e he := existsUnique_covers hsorted hunder he

end Described

theorem length_scanned_of_truncated (h : (s.page pageSize first delimiter token).truncated = true) :
    (s.scanned pageSize first token).length = max pageSize 1 := by
  have hlong := lt_length_of_truncated h
  exact List.length_take_of_le hlong.le

theorem next_eq_none (h : (s.page pageSize first delimiter token).truncated = false) :
    (s.page pageSize first delimiter token).next = none := by
  rw [page_eq_describe, h]
  rfl

theorem within_next (hwithin : Within first token) :
    Within first (s.page pageSize first delimiter token).next := by
  cases htruncated : (s.page pageSize first delimiter token).truncated with
  | false =>
    rw [next_eq_none htruncated]
    exact within_none first
  | true =>
    obtain ⟨last, hnext, hdivides⟩ := divides_of_truncated hwithin htruncated
    rw [hnext]
    exact hdivides.within

end Store

/-- A page of any store in memory, for no token or one that begins with the prefix. It scans the first of the
matching keys, up to its size, and its entries tell of just these keys. It is truncated exactly if a matching key
remains; then the last key scanned is the token. -/
theorem Memory.page_shape (m : Memory) (first delimiter : String) {token : Option String}
    (hwithin : Store.Within first token) :
    ∃ page scanned, m.answer (.page first delimiter token) = (.ok page, m) ∧
      m.store.Scans (max m.pageSize 1) first token scanned ∧ page.Tells first delimiter scanned ∧
      (page.truncated = true ↔ ∃ key, m.store.Matches first token key ∧ ∀ e ∈ scanned, e.1 < key) ∧
      (page.truncated = true → scanned.length = max m.pageSize 1 ∧
        ∃ e ∈ scanned.getLast?, page.next = some e.1) ∧
      (page.truncated = false → page.next = none) ∧ Store.Within first page.next := by
  let page := m.store.page m.pageSize first delimiter token
  let scanned := m.store.scanned m.pageSize first token
  have hscans : m.store.Scans (max m.pageSize 1) first token scanned := Store.scans_scanned hwithin
  have htells : page.Tells first delimiter scanned :=
    Store.tells_describe hscans.sorted fun e he => (hscans.stored e he).2.starts
  have htruncated : page.truncated = true → scanned.length = max m.pageSize 1 ∧
      ∃ e ∈ scanned.getLast?, page.next = some e.1 := by
    intro h
    obtain ⟨front, e, hfront, hnext⟩ := Store.exists_last_of_truncated h
    refine ⟨Store.length_scanned_of_truncated h, e, ?_, hnext⟩
    simp only [scanned, hfront, List.getLast?_concat, Option.mem_some_iff]
  exact ⟨page, scanned, rfl, hscans, htells, Store.truncated_iff hwithin, htruncated, Store.next_eq_none,
    Store.within_next hwithin⟩

/-- Four keys, two of them of a group whose delimiter overlaps with itself in one of them. -/
def dashes : Memory where
  store := ["p/a---1", "p/a--2", "p/b", "p/c"].foldl (fun s key => s.put key ⟨[1, 2], ⟨0, 0⟩⟩) .empty
  pageSize := 3

theorem dashes_shape :
    let page : Page := ⟨[⟨"p/b", 2, some ⟨0, 0⟩⟩], ["p/a--"], some "p/b", true⟩
    Store.Within "p/" (some "p/a") ∧ dashes.store.get? "p/a" = none ∧
    dashes.answer (.page "p/" "--" (some "p/a")) = (.ok page, dashes) ∧
    ∃ scanned, scanned.length = 3 ∧ dashes.store.Scans 3 "p/" (some "p/a") scanned ∧
      page.Tells "p/" "--" scanned ∧
      ∃ key, dashes.store.Matches "p/" (some "p/a") key ∧ ∀ e ∈ scanned, e.1 < key := by
  intro page
  have hwithin : Store.Within "p/" (some "p/a") := Store.within_some.2 (by decide)
  have hanswer : dashes.answer (.page "p/" "--" (some "p/a")) = (.ok page, dashes) := rfl
  obtain ⟨other, scanned, hother, hscans, htells, hremains, hlength, -, -⟩ := dashes.page_shape "p/" "--" hwithin
  obtain rfl : page = other := Except.ok.inj (congrArg Prod.fst (hanswer.symm.trans hother))
  exact ⟨hwithin, rfl, hanswer, scanned, (hlength rfl).1, hscans, htells, hremains.1 rfl⟩

end ObjectStorage
