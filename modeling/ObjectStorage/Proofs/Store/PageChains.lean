import ObjectStorage.Proofs.Retry.Writes
import ObjectStorage.Proofs.Store.Groups
import ObjectStorage.Store.Memory

/-! # Pages of a store that changes

The pages of a listing are asked for one after the other, and anything may be written between two of them.
A token is a place in the order of keys, whether its key is still there or not. So the pages scan one
stretch of keys after the other, and what is there all the time is scanned once.
-/
namespace ObjectStorage

structure Sight where
  memory : Memory
  token : Option String
  page : Page

namespace Memory

def write (m : Memory) (time : Timestamp) (wr : Write) : Memory :=
  ({ m with time := time }.answer wr.request).2

/-- The pages of a listing. Each is asked for with the token of the one before it and after some writes. -/
def follow (first delimiter : String) : Option String → List (List (Timestamp × Write)) → Memory → List Sight
  | _, [], _ => []
  | token, writes :: rounds, m =>
    let now := writes.foldl (fun m (time, wr) => m.write time wr) m
    match now.answer (.page first delimiter token) with
    | (.ok page, later) =>
      ⟨now, token, page⟩ :: if page.truncated then follow first delimiter page.next rounds later else []
    | (.error _, _) => []

end Memory

namespace Sight

def scanned (first : String) (v : Sight) : List (String × StoredObject) :=
  v.memory.store.scanned v.memory.pageSize first v.token

/-- What is said of keys is said of stored keys with the prefix. -/
structure Faithful (first : String) (v : Sight) : Prop where
  objects : ∀ o ∈ v.page.objects, ∃ e ∈ v.scanned first, Store.objectMeta e = o ∧
    first.toList <+: e.1.toList ∧ v.memory.store.get? e.1 = some e.2
  commonPrefixes : ∀ p ∈ v.page.commonPrefixes, ∃ e ∈ v.scanned first, p.toList <+: e.1.toList ∧
    first.toList <+: p.toList ∧ v.memory.store.get? e.1 = some e.2

/-- A stored key is scanned, and listed with what is stored for it or told by a common prefix. -/
def Accounts (first key : String) (v : Sight) : Prop :=
  ∃ o, v.memory.store.get? key = some o ∧ (key, o) ∈ v.scanned first ∧
    (Store.objectMeta (key, o) ∈ v.page.objects ∨ ∃ p ∈ v.page.commonPrefixes, p.toList <+: key.toList)

structure Sound (first delimiter : String) (v : Sight) : Prop where
  within : Store.Within first v.token
  page_eq : v.page = v.memory.store.page v.memory.pageSize first delimiter v.token

variable {first delimiter : String} {v : Sight}

theorem Sound.page_eq_describe (h : v.Sound first delimiter) :
    v.page = Store.describe first delimiter (v.scanned first) v.page.truncated := by
  rw [h.page_eq, Store.page_eq_describe]
  rfl

theorem Sound.mem_scanned (h : v.Sound first delimiter) {e : String × StoredObject} (he : e ∈ v.scanned first) :
    first.toList <+: e.1.toList ∧ Store.After v.token e.1 ∧ v.memory.store.get? e.1 = some e.2 := by
  obtain ⟨hmem, hunder, hafter⟩ := (Store.mem_range h.within).1 (Store.scanned_sublist.subset he)
  exact ⟨hunder, hafter, Store.get?_eq_some_iff.2 hmem⟩

theorem Sound.faithful (h : v.Sound first delimiter) : v.Faithful first where
  objects o ho := by
    rw [h.page_eq_describe, Store.mem_objects_describe] at ho
    obtain ⟨e, he, -, hmeta⟩ := ho
    obtain ⟨hunder, -, hstored⟩ := h.mem_scanned he
    exact ⟨e, he, hmeta, hunder, hstored⟩
  commonPrefixes p hp := by
    rw [h.page_eq_describe, Store.mem_commonPrefixes_describe] at hp
    obtain ⟨e, he, hgroup⟩ := hp
    obtain ⟨hunder, -, hstored⟩ := h.mem_scanned he
    rw [Store.groupOf_eq_some_iff hunder] at hgroup
    exact ⟨e, he, hgroup.begins, hgroup.continues, hstored⟩

theorem Sound.accounts (h : v.Sound first delimiter) {e : String × StoredObject} (he : e ∈ v.scanned first) :
    v.Accounts first e.1 := by
  obtain ⟨hunder, -, hstored⟩ := h.mem_scanned he
  refine ⟨e.2, hstored, he, ?_⟩
  rw [h.page_eq_describe]
  cases hgroup : Store.groupOf first delimiter e.1 with
  | none => exact .inl (Store.mem_objects_describe.2 ⟨e, he, hgroup, rfl⟩)
  | some group =>
    refine .inr ⟨group, Store.mem_commonPrefixes_describe.2 ⟨e, he, hgroup⟩, ?_⟩
    exact ((Store.groupOf_eq_some_iff hunder).1 hgroup).begins

end Sight

/-- Pages that follow one another from a token on, each from where the one before it ended. -/
inductive Chained (first delimiter : String) : Option String → List Sight → Prop
  | stop (token : Option String) : Chained first delimiter token []
  | last {v : Sight} (sound : v.Sound first delimiter) (complete : v.page.truncated = false) :
      Chained first delimiter v.token [v]
  | next {v : Sight} {last : String} {rest : List Sight} (sound : v.Sound first delimiter)
      (truncated : v.page.truncated = true)
      (divides : v.memory.store.Divides v.memory.pageSize first v.token last)
      (later : Chained first delimiter (some last) rest) : Chained first delimiter v.token (v :: rest)

def Finished (sights : List Sight) : Prop := ∃ v ∈ sights.getLast?, v.page.truncated = false

theorem Finished.of_cons {v : Sight} {rest : List Sight} (h : Finished (v :: rest)) (hv : v.page.truncated = true) :
    Finished rest := by
  cases rest with
  | nil => simp [Finished, hv] at h
  | cons u rest => simpa [Finished, List.getLast?_cons_cons] using h

theorem Memory.chained_follow {first delimiter : String} {token : Option String} (hwithin : Store.Within first token)
    (rounds : List (List (Timestamp × Write))) (m : Memory) :
    Chained first delimiter token (m.follow first delimiter token rounds) := by
  induction rounds generalizing token m with
  | nil => exact .stop token
  | cons writes rounds ih =>
    let now := writes.foldl (fun m (time, wr) => m.write time wr) m
    let v : Sight := ⟨now, token, now.store.page now.pageSize first delimiter token⟩
    have hsound : v.Sound first delimiter := ⟨hwithin, rfl⟩
    have hfollow : m.follow first delimiter token (writes :: rounds) =
        v :: if v.page.truncated then now.follow first delimiter v.page.next rounds else [] := rfl
    rw [hfollow]
    cases htruncated : v.page.truncated with
    | false => exact .last hsound htruncated
    | true =>
      obtain ⟨last, hnext, hdivides⟩ := Store.divides_of_truncated hwithin htruncated
      refine .next hsound htruncated hdivides ?_
      rw [hnext]
      exact ih hdivides.within now

namespace Chained
variable {first delimiter key : String} {token : Option String} {sights : List Sight}

theorem sound (h : Chained first delimiter token sights) : ∀ v ∈ sights, v.Sound first delimiter := by
  induction h with
  | stop => simp
  | last sound complete => simpa using sound
  | next sound truncated divides later ih => exact List.forall_mem_cons.2 ⟨sound, ih⟩

theorem after (h : Chained first delimiter token sights) :
    ∀ v ∈ sights, ∀ e ∈ v.scanned first, Store.After token e.1 := by
  induction h with
  | stop => simp
  | last sound complete => exact List.forall_mem_singleton.2 fun e he => (sound.mem_scanned he).2.1
  | next sound truncated divides later ih =>
    refine List.forall_mem_cons.2 ⟨fun e he => (sound.mem_scanned he).2.1, ?_⟩
    intro u hu e he other hother
    exact (divides.after other hother).trans (Store.after_some.1 (ih u hu e he))

theorem sorted (h : Chained first delimiter token sights) :
    (sights.flatMap (Sight.scanned first)).Pairwise fun a b => a.1 < b.1 := by
  have hone (v : Sight) : (v.scanned first).Pairwise fun a b => a.1 < b.1 :=
    v.memory.store.sorted_scanned v.memory.pageSize first v.token
  induction h with
  | stop => exact .nil
  | @last v sound complete => simpa using hone v
  | @next v last rest sound truncated divides later ih =>
    rw [List.flatMap_cons, List.pairwise_append]
    refine ⟨hone v, ih, ?_⟩
    intro d hd e he
    obtain ⟨u, hu, he⟩ := List.mem_flatMap.1 he
    exact (divides.le d hd).trans_lt (Store.after_some.1 (later.after u hu e he))

/-- A key that is there all the time is scanned by exactly one page of a chain that is finished. -/
theorem exists_scanned (h : Chained first delimiter token sights) (hfinished : Finished sights)
    (hunder : first.toList <+: key.toList) (hafter : Store.After token key)
    (hthere : ∀ v ∈ sights, (v.memory.store.get? key).isSome) :
    ∃ before v after, sights = before ++ v :: after ∧ (∃ e ∈ v.scanned first, e.1 = key) ∧
      ∀ u ∈ before ++ after, ∀ e ∈ u.scanned first, e.1 ≠ key := by
  induction h with
  | stop => simp [Finished] at hfinished
  | @last v sound complete =>
    obtain ⟨o, ho⟩ := Option.isSome_iff_exists.1 (hthere v (by simp))
    refine ⟨[], v, [], rfl, ⟨(key, o), ?_, rfl⟩, by simp⟩
    rw [sound.page_eq] at complete
    rw [Sight.scanned, Store.scanned_of_last complete, Store.mem_range sound.within]
    exact ⟨Store.get?_eq_some_iff.1 ho, hunder, hafter⟩
  | @next v last rest sound truncated divides later ih =>
    obtain ⟨o, ho⟩ := Option.isSome_iff_exists.1 (hthere v (by simp))
    -- A key after the last one of this page is left to the pages to come; any other key is scanned here.
    rcases lt_or_ge last key with hlt | hge
    · obtain ⟨before, u, after, rfl, hscanned, hothers⟩ :=
        ih (hfinished.of_cons truncated) (Store.after_some.2 hlt) fun u hu => hthere u (List.mem_cons_of_mem v hu)
      refine ⟨v :: before, u, after, rfl, hscanned, ?_⟩
      refine List.forall_mem_cons.2 ⟨fun e he => ?_, hothers⟩
      exact ((divides.le e he).trans_lt hlt).ne
    · have hmem : (key, o) ∈ v.memory.store.range first v.token :=
        (Store.mem_range sound.within).2 ⟨Store.get?_eq_some_iff.1 ho, hunder, hafter⟩
      refine ⟨[], v, rest, rfl, ⟨(key, o), divides.mem_scanned hmem hge, rfl⟩, ?_⟩
      intro u hu e he
      exact (hge.trans_lt (Store.after_some.1 (later.after u hu e he))).ne'

theorem sorted_objects (h : Chained first delimiter token sights) :
    (sights.flatMap fun v => v.page.objects).Pairwise fun a b => a.key < b.key := by
  have hobjects : (sights.flatMap fun v => v.page.objects) = ((sights.flatMap (Sight.scanned first)).filter
      fun e => (Store.groupOf first delimiter e.1).isNone).map Store.objectMeta := by
    rw [← Store.flatMap_objects_describe sights (Sight.scanned first) fun v => v.page.truncated]
    exact List.flatMap_congr fun v hv => congrArg Page.objects (h.sound v hv).page_eq_describe
  rw [hobjects]
  exact (h.sorted.filter _).map Store.objectMeta fun _ _ hlt => hlt

end Chained

namespace Memory

/-- The pages of a listing, with any writes before each request. Over all pages the keys that are scanned increase,
and all that is said of keys is true at that time. Once a page is not truncated, each key that was there at every
request is accounted for by exactly one page. -/
theorem follow_accounts (first delimiter : String) (rounds : List (List (Timestamp × Write))) (m : Memory) :
    let sights := m.follow first delimiter none rounds
    (sights.flatMap (Sight.scanned first)).Pairwise (fun a b => a.1 < b.1) ∧
    (sights.flatMap fun v => v.page.objects).Pairwise (fun a b => a.key < b.key) ∧
    (∀ v ∈ sights, v.Faithful first) ∧
    ∀ key, first.toList <+: key.toList → Finished sights →
      (∀ v ∈ sights, (v.memory.store.get? key).isSome) →
      ∃ before v after, sights = before ++ v :: after ∧ v.Accounts first key ∧
        ∀ u ∈ before ++ after, ∀ e ∈ u.scanned first, e.1 ≠ key := by
  intro sights
  have hchained : Chained first delimiter none sights := chained_follow (Store.within_none first) rounds m
  refine ⟨hchained.sorted, hchained.sorted_objects, fun v hv => (hchained.sound v hv).faithful, ?_⟩
  intro key hunder hfinished hthere
  obtain ⟨before, v, after, heq, ⟨e, he, rfl⟩, hothers⟩ :=
    hchained.exists_scanned hfinished hunder (Store.after_none key) hthere
  have hv : v ∈ sights := by simp [heq]
  exact ⟨before, v, after, heq, (hchained.sound v hv).accounts he, hothers⟩

/-- Three keys are stored, and the first one is deleted before the second page is asked for. -/
def disturbances : List (List (Timestamp × Write)) :=
  [[(⟨0, 0⟩, .put "p/x/1" [1]), (⟨0, 0⟩, .put "p/x/2" [1, 2]), (⟨0, 0⟩, .put "p/y" [])],
   [(⟨1, 0⟩, .delete "p/x/1"), (⟨1, 0⟩, .put "p/a" [])], []]

theorem disturbed_accounts :
    let sights := follow "p/" "/" none disturbances { pageSize := 1 }
    Finished sights ∧ (∀ v ∈ sights, (v.memory.store.get? "p/x/2").isSome) ∧
    sights.map Sight.token = [none, some "p/x/1", some "p/x/2"] ∧
    ∃ before v after, sights = before ++ v :: after ∧ v.Accounts "p/" "p/x/2" ∧
      ∀ u ∈ before ++ after, ∀ e ∈ u.scanned "p/", e.1 ≠ "p/x/2" := by
  intro sights
  have hfinished : Finished sights := ⟨_, rfl, rfl⟩
  have hthere : ∀ v ∈ sights, (v.memory.store.get? "p/x/2").isSome := by decide +kernel
  have htokens : sights.map Sight.token = [none, some "p/x/1", some "p/x/2"] := by decide +kernel
  obtain ⟨-, -, -, haccounts⟩ := follow_accounts "p/" "/" disturbances { pageSize := 1 }
  exact ⟨hfinished, hthere, htokens, haccounts "p/x/2" (by decide) hfinished hthere⟩

end Memory
end ObjectStorage
