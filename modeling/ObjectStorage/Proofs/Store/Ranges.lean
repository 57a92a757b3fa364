import Mathlib.Data.String.Basic
import ObjectStorage.Store.Paging

/-! # Ranges of keys

The keys with a prefix are next to each other in the order of keys. A page scans some of those that come
after its token, from the first one on, and its own token divides the ones it scanned from the rest.
-/
namespace ObjectStorage

/-! ## Prefixes in an order -/

section Prefixes
variable {α : Type} {p : α → Bool} {l : List α}

theorem takeWhile_eq_filter (h : l.Pairwise fun a b => p b = true → p a = true) : l.takeWhile p = l.filter p := by
  induction l with
  | nil => rfl
  | cons a l ih =>
    obtain ⟨ha, hl⟩ := List.pairwise_cons.1 h
    by_cases hp : p a = true
    · rw [List.takeWhile_cons_of_pos hp, List.filter_cons_of_pos hp, ih hl]
    · rw [List.takeWhile_cons_of_neg hp, List.filter_cons_of_neg hp, eq_comm, List.filter_eq_nil_iff]
      exact fun b hb hpb => hp (ha b hb hpb)

theorem dropWhile_eq_filter (h : l.Pairwise fun a b => p b = true → p a = true) :
    l.dropWhile p = l.filter fun a => !p a := by
  induction l with
  | nil => rfl
  | cons a l ih =>
    obtain ⟨ha, hl⟩ := List.pairwise_cons.1 h
    by_cases hp : p a = true
    · rw [List.dropWhile_cons_of_pos hp, List.filter_cons_of_neg (by simp [hp]), ih hl]
    · rw [List.dropWhile_cons_of_neg hp, eq_comm, List.filter_eq_self]
      intro b hb
      rcases List.mem_cons.1 hb with rfl | hb
      · simpa using hp
      · simpa using fun hpb => hp (ha b hb hpb)

end Prefixes

theorem prefix_of_between {α : Type} [LT α] [Std.Asymm fun a b : α => a < b] [Std.Trichotomous fun a b : α => a < b]
    {first a b : List α} (hb : first <+: b) (hlow : first ≤ a) (hhigh : a ≤ b) : first <+: a := by
  induction first generalizing a b with
  | nil => exact List.nil_prefix
  | cons c first ih =>
    obtain ⟨rest, rfl⟩ := hb
    cases a with
    | nil => simp at hlow
    | cons d a =>
      rw [List.cons_append, List.cons_le_cons_iff] at hhigh
      rw [List.cons_le_cons_iff] at hlow
      rcases hlow with hlt | ⟨rfl, hlow⟩
      · rcases hhigh with hgt | ⟨rfl, -⟩
        · exact absurd hlt (Std.Asymm.asymm _ _ hgt)
        · exact absurd hlt (Std.Irrefl.irrefl _)
      · have hhigh : a ≤ first ++ rest := by simpa [Std.Irrefl.irrefl] using hhigh
        exact (List.prefix_cons_inj c).2 (ih (List.prefix_append first rest) hlow hhigh)

theorem empty_le (key : String) : "" ≤ key := List.nil_le _

theorem le_of_isPrefix {first key : String} (h : first.toList <+: key.toList) : first ≤ key := h.le

/-- The keys with a prefix are next to each other. -/
theorem prefix_of_le_of_le {first a b : String} (hb : first.toList <+: b.toList) (hlow : first ≤ a)
    (hhigh : a ≤ b) : first.toList <+: a.toList :=
  prefix_of_between hb hlow hhigh

namespace Store
variable {s : Store} {first : String} {token : Option String} {key : String} {o : StoredObject}

theorem get?_eq_some_iff : s.get? key = some o ↔ (key, o) ∈ s.entries := by
  rw [get?, List.lookup_eq_some_iff]
  constructor
  · rintro ⟨before, after, heq, -⟩
    simp [heq]
  · intro hmem
    obtain ⟨before, after, heq⟩ := List.append_of_mem hmem
    refine ⟨before, after, heq, fun e he => ?_⟩
    have hsorted := s.sorted
    rw [heq, List.pairwise_append] at hsorted
    simpa using (hsorted.2.2 e he (key, o) (by simp)).ne'

/-- A token that a page with this prefix can name: none, or a key with the prefix. -/
def Within (first : String) (token : Option String) : Prop := ∀ last ∈ token, first.toList <+: last.toList

/-- A key comes after a token; every key comes after none. -/
def After (token : Option String) (key : String) : Prop := ∀ last ∈ token, last < key

@[simp] theorem within_none (first : String) : Within first none := by simp [Within]

@[simp] theorem within_some {last : String} : Within first (some last) ↔ first.toList <+: last.toList := by
  simp [Within]

@[simp] theorem after_none (key : String) : After none key := by simp [After]

@[simp] theorem after_some {last : String} : After (some last) key ↔ last < key := by simp [After]

instance (token : Option String) (key : String) : Decidable (After token key) :=
  inferInstanceAs (Decidable (∀ last ∈ token, last < key))

/-- From a place in the order of keys that is not before the prefix, the keys with the prefix come first. -/
theorem takeWhile_dropWhile_eq_filter (before : String → Bool)
    (hbefore : ∀ a b, a < b → before b = true → before a = true) (hlow : ∀ key, before key = false → first ≤ key) :
    (s.entries.dropWhile fun e => before e.1).takeWhile (fun e => first.toList.isPrefixOf e.1.toList) =
      s.entries.filter fun e => first.toList.isPrefixOf e.1.toList && !before e.1 := by
  rw [dropWhile_eq_filter (s.sorted.imp fun hlt => hbefore _ _ hlt), takeWhile_eq_filter, List.filter_filter]
  refine (s.sorted.filter _).imp_of_mem ?_
  intro a b ha _ hlt hb
  have hafter : before a.1 = false := by simpa using (List.mem_filter.1 ha).2
  rw [List.isPrefixOf_iff_prefix] at hb ⊢
  exact prefix_of_le_of_le hb (hlow a.1 hafter) hlt.le

theorem range_eq_filter (h : Within first token) : s.range first token =
    s.entries.filter fun e => decide (first.toList <+: e.1.toList ∧ After token e.1) := by
  cases token with
  | none =>
    refine (takeWhile_dropWhile_eq_filter (fun key => decide (key < first)) ?_ ?_).trans ?_
    · intro a b hab hb
      exact decide_eq_true (hab.trans (of_decide_eq_true hb))
    · intro key hkey
      exact not_lt.1 (of_decide_eq_false hkey)
    · refine List.filter_congr fun e _ => ?_
      rw [Bool.eq_iff_iff]
      simpa [-String.lt_iff_ltb] using le_of_isPrefix
  | some last =>
    refine (takeWhile_dropWhile_eq_filter (fun key => decide (key ≤ last)) ?_ ?_).trans ?_
    · intro a b hab hb
      exact decide_eq_true (hab.le.trans (of_decide_eq_true hb))
    · intro key hkey
      have hlast : last < key := by simpa using hkey
      exact (le_of_isPrefix (within_some.1 h)).trans hlast.le
    · refine List.filter_congr fun e _ => ?_
      rw [Bool.eq_iff_iff]
      simp [-String.lt_iff_ltb]

theorem mem_range (h : Within first token) {e : String × StoredObject} :
    e ∈ s.range first token ↔ e ∈ s.entries ∧ first.toList <+: e.1.toList ∧ After token e.1 := by
  rw [range_eq_filter h, List.mem_filter, decide_eq_true_iff]

theorem range_sublist (s : Store) (first : String) (token : Option String) :
    (s.range first token).Sublist s.entries :=
  (List.takeWhile_sublist _).trans (List.dropWhile_sublist _)

theorem sorted_range (s : Store) (first : String) (token : Option String) :
    (s.range first token).Pairwise fun a b => a.1 < b.1 :=
  s.sorted.sublist (s.range_sublist first token)

theorem range_after {last : String} (hwithin : Within first token) (hafter : After token last)
    (hstarts : first.toList <+: last.toList) :
    s.range first (some last) = (s.range first token).filter fun e => decide (last < e.1) := by
  rw [range_eq_filter (within_some.2 hstarts), range_eq_filter hwithin, List.filter_filter]
  refine List.filter_congr fun e _ => ?_
  rw [← Bool.decide_and, decide_eq_decide, after_some]
  constructor
  · rintro ⟨hunder, hlt⟩
    exact ⟨hlt, hunder, fun token htoken => (hafter token htoken).trans hlt⟩
  · rintro ⟨hlt, hunder, -⟩
    exact ⟨hunder, hlt⟩

/-! ## What a page scans -/

def scanned (pageSize : Nat) (first : String) (token : Option String) (s : Store) : List (String × StoredObject) :=
  (s.range first token).take (max pageSize 1)

variable {pageSize : Nat} {delimiter : String}

theorem scanned_sublist : (s.scanned pageSize first token).Sublist (s.range first token) := List.take_sublist _ _

theorem sorted_scanned (s : Store) (pageSize : Nat) (first : String) (token : Option String) :
    (s.scanned pageSize first token).Pairwise fun a b => a.1 < b.1 :=
  (s.sorted_range first token).sublist scanned_sublist

theorem page_eq_describe (pageSize : Nat) (first delimiter : String) (token : Option String) (s : Store) :
    s.page pageSize first delimiter token =
      describe first delimiter (s.scanned pageSize first token) (s.page pageSize first delimiter token).truncated :=
  rfl

theorem scanned_of_last (h : (s.page pageSize first delimiter token).truncated = false) :
    s.scanned pageSize first token = s.range first token := by
  have hempty : (s.range first token).drop (max pageSize 1) = [] := by simpa [page, describe] using h
  rw [scanned, ← List.append_nil (List.take _ _), ← hempty, List.take_append_drop]

theorem lt_length_of_truncated (h : (s.page pageSize first delimiter token).truncated = true) :
    max pageSize 1 < (s.range first token).length := by
  simpa [page, describe] using h

theorem exists_last_of_truncated (h : (s.page pageSize first delimiter token).truncated = true) :
    ∃ front e, s.scanned pageSize first token = front ++ [e] ∧
      (s.page pageSize first delimiter token).next = some e.1 := by
  have hmore : (s.range first token).drop (max pageSize 1) ≠ [] := by simpa [page, describe] using h
  rcases List.eq_nil_or_concat (s.scanned pageSize first token) with hnone | ⟨front, e, hfront⟩
  · rw [scanned, List.take_eq_nil_iff] at hnone
    rcases hnone with hzero | hempty
    · omega
    · exact absurd (by rw [hempty, List.drop_nil]) hmore
  · rw [List.concat_eq_append] at hfront
    refine ⟨front, e, hfront, ?_⟩
    rw [page_eq_describe, h]
    simp [describe, hfront]

theorem le_last_of_sorted {front : List (String × StoredObject)} {e : String × StoredObject}
    (h : (front ++ [e]).Pairwise fun a b => a.1 < b.1) : ∀ d ∈ front ++ [e], d.1 ≤ e.1 := by
  intro d hd
  rcases List.mem_append.1 hd with hd | hd
  · exact ((List.pairwise_append.1 h).2.2 d hd e (by simp)).le
  · rw [List.mem_singleton.1 hd]

theorem filter_after_of_sorted {part later : List (String × StoredObject)} {e : String × StoredObject}
    (h : (part ++ later).Pairwise fun a b => a.1 < b.1) (hmem : e ∈ part) (hle : ∀ d ∈ part, d.1 ≤ e.1) :
    ((part ++ later).filter fun d => decide (e.1 < d.1)) = later := by
  obtain ⟨-, -, hlater⟩ := List.pairwise_append.1 h
  have hbefore : (part.filter fun d => decide (e.1 < d.1)) = [] :=
    List.filter_eq_nil_iff.2 fun d hd => by simpa [-String.lt_iff_ltb] using hle d hd
  have hbehind : (later.filter fun d => decide (e.1 < d.1)) = later :=
    List.filter_eq_self.2 fun d hd => decide_eq_true (hlater e hmem d hd)
  rw [List.filter_append, hbefore, hbehind, List.nil_append]

/-- A key divides a range: what is scanned is what comes up to it, and the range from it on is the rest. -/
structure Divides (s : Store) (pageSize : Nat) (first : String) (token : Option String) (last : String) : Prop where
  starts : first.toList <+: last.toList
  after : After token last
  mem : ∃ e ∈ s.scanned pageSize first token, e.1 = last
  le : ∀ e ∈ s.scanned pageSize first token, e.1 ≤ last
  split : s.range first token = s.scanned pageSize first token ++ s.range first (some last)

/-- A truncated page names a key that divides the range. -/
theorem divides_of_truncated (hwithin : Within first token)
    (h : (s.page pageSize first delimiter token).truncated = true) :
    ∃ last, (s.page pageSize first delimiter token).next = some last ∧ s.Divides pageSize first token last := by
  obtain ⟨front, e, hfront, hnext⟩ := exists_last_of_truncated h
  have hmem : e ∈ s.scanned pageSize first token := by simp [hfront]
  obtain ⟨-, hunder, hafter⟩ := (mem_range hwithin).1 (scanned_sublist.subset hmem)
  have hle : ∀ d ∈ s.scanned pageSize first token, d.1 ≤ e.1 := by
    have hsorted := s.sorted_scanned pageSize first token
    rw [hfront] at hsorted ⊢
    exact le_last_of_sorted hsorted
  have hsplit : s.range first token =
      s.scanned pageSize first token ++ (s.range first token).drop (max pageSize 1) :=
    (List.take_append_drop _ _).symm
  have hrest : s.range first (some e.1) = (s.range first token).drop (max pageSize 1) := by
    have hfilter := filter_after_of_sorted (hsplit ▸ s.sorted_range first token) hmem hle
    rw [← hsplit] at hfilter
    exact (range_after hwithin hafter hunder).trans hfilter
  exact ⟨e.1, hnext, hunder, hafter, ⟨e, hmem, rfl⟩, hle, hrest ▸ hsplit⟩

theorem Divides.within {last : String} (h : s.Divides pageSize first token last) : Within first (some last) :=
  within_some.2 h.starts

theorem Divides.mem_scanned {last : String} (h : s.Divides pageSize first token last) {e : String × StoredObject}
    (he : e ∈ s.range first token) (hle : e.1 ≤ last) : e ∈ s.scanned pageSize first token := by
  rw [h.split, List.mem_append, mem_range h.within] at he
  rcases he with he | ⟨-, -, hlater⟩
  · exact he
  · exact absurd (after_some.1 hlater) hle.not_gt

end Store
end ObjectStorage
