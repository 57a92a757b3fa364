import Mathlib.Data.List.Chain
import Mathlib.Data.List.Nodup
import ObjectStorage.Proofs.Listing.Trails
import ObjectStorage.S3.Buckets

/-! # Routes through buckets

A listing of several buckets visits one place after the other: a bucket, with a token of its own or none.
Each page names the text of the place after it. Two places have the same text only if one has an empty
token and the other has none, so a route comes back to a place at most once, to the very start.
-/
namespace ObjectStorage.S3

namespace Cursor

/-- What the text of a cursor says: an empty token is none. -/
def settled (c : Cursor) : Cursor := ⟨c.bucket, c.token.filter (· ≠ "")⟩

@[simp] theorem encode_settled (c : Cursor) : c.settled.encode = c.encode := by
  rcases c with ⟨bucket, _ | token⟩
  · rfl
  · by_cases h : token = "" <;> simp [settled, encode, h, Option.filter]

theorem writable_settled {c : Cursor} (h : c.bucket < bucketLimit) : c.settled.Writable := by
  refine ⟨h, ?_⟩
  simp [settled, Option.filter_eq_some_iff]

theorem bucket_lt_of_decode {c d : Cursor} (h : decode c.encode = .ok d) : c.bucket < bucketLimit := by
  have hbar : '|' ∉ Nat.toDigits 10 c.bucket := by
    intro hmem
    have hdigit := Nat.isDigit_of_mem_toDigits (by decide) (by decide) hmem
    exact absurd hdigit (by decide)
  refine Decidable.byContradiction fun hlarge => ?_
  have hnumber : number? (Nat.toDigits 10 c.bucket) = none := by
    rw [number?, Text.readNatural?_toDigits]
    simpa [Option.filter] using hlarge
  have hnone : decode? c.encode = none := by
    rw [decode?, toList_encode, Text.cut_append hbar]
    simp [hnumber]
  rw [decode, hnone] at h
  cases h

theorem eq_settled_of_decode {c d : Cursor} (h : decode c.encode = .ok d) : d = c.settled := by
  have hread := decode_encode (writable_settled (bucket_lt_of_decode h))
  rw [encode_settled, h] at hread
  exact Except.ok.inj hread

end Cursor

theorem Buckets.next_place_cases {count bucket : Nat} {p : Page} {token : String}
    (h : (place count bucket p).next = some token) :
    (p.truncated = true ∧ ∃ inner, p.next = some inner ∧ token = (Cursor.within bucket inner).encode) ∨
      (p.truncated = false ∧ bucket + 1 < count ∧ token = (Cursor.startOf (bucket + 1)).encode) := by
  unfold place at h
  split at h
  · rename_i htruncated
    obtain ⟨inner, hnext, rfl⟩ := Option.map_eq_some_iff.1 h
    exact .inl ⟨htruncated, inner, hnext, rfl⟩
  · rename_i hlast
    split at h
    · rename_i hmore
      exact .inr ⟨by simpa using hlast, hmore, (Option.some.inj h).symm⟩
    · cases h

/-- The token of a page in its place leads to the start of the first bucket only from a page of that bucket that is
truncated and names an empty token. -/
theorem Buckets.next_place {count bucket : Nat} {p : Page} {token : String}
    (h : (place count bucket p).next = some token) : ∃ c : Cursor, token = c.encode ∧
      (c.settled = {} ↔ bucket = 0 ∧ p.truncated = true ∧ p.next = some "") := by
  rcases next_place_cases h with ⟨htruncated, inner, hnext, rfl⟩ | ⟨hlast, -, rfl⟩
  · refine ⟨Cursor.within bucket inner, rfl, ?_⟩
    simp [Cursor.settled, Cursor.within, htruncated, hnext, Option.filter]
  · refine ⟨_, rfl, ?_⟩
    simp [Cursor.settled, Cursor.startOf, hlast]

/-! ## Visits -/

structure BucketCall where
  name : String
  request : Request
  answer : Answer request

def BucketCall.failed (call : BucketCall) : Bool :=
  match call.answer with
  | .ok _ => false
  | .error _ => true

/-- A place that a listing asks for: the bucket by its name, the failures that were followed by another
attempt, and the answer of the last attempt. -/
structure Visit where
  name : String
  cursor : Cursor
  failures : List StorageError
  answer : Except StorageError Page

namespace Visit

def calls (first delimiter : String) (v : Visit) : List BucketCall :=
  v.failures.map (fun e => ⟨v.name, .page first delimiter v.cursor.token, .error e⟩) ++
    [⟨v.name, .page first delimiter v.cursor.token, v.answer⟩]

def placed (count : Nat) (v : Visit) : Option Page :=
  v.answer.toOption.map (Buckets.place count v.cursor.bucket)

def LeadsBack (v : Visit) : Prop :=
  v.cursor.bucket = 0 ∧ ∃ p, v.answer = .ok p ∧ p.truncated = true ∧ p.next = some ""

/-- The page visited names the text of the place that is visited next. -/
def Precedes (u v : Visit) : Prop :=
  ∃ c : Cursor, Cursor.decode c.encode = .ok v.cursor ∧ (c.settled = {} ↔ u.LeadsBack)

theorem Precedes.cursor_eq_iff {u v : Visit} (h : u.Precedes v) : v.cursor = {} ↔ u.LeadsBack := by
  obtain ⟨c, hdecode, hback⟩ := h
  rw [Cursor.eq_settled_of_decode hdecode, hback]

end Visit

/-- The visits of a listing: every page before the last one was obtained, and each leads on to the place
that is visited after it. -/
inductive Route (names : List String) : List Visit → Prop
  | start : Route names []
  | step {visits : List Visit} {v : Visit} (before : Route names visits)
      (served : ∀ u ∈ visits, ∃ p, u.answer = .ok p)
      (trail : Trail (visits.filterMap (Visit.placed names.length)))
      (cursor : Buckets.cursorOf (Trail.tokenAfter (visits.filterMap (Visit.placed names.length))) = .ok v.cursor)
      (name : names[v.cursor.bucket]? = some v.name) : Route names (visits ++ [v])

namespace Route
variable {names : List String} {visits : List Visit}

theorem name_eq (h : Route names visits) : ∀ v ∈ visits, names[v.cursor.bucket]? = some v.name := by
  induction h with
  | start => simp
  | step before served trail cursor name ih =>
    intro u hu
    rcases List.mem_append.1 hu with hu | hu
    · exact ih u hu
    · rw [List.mem_singleton.1 hu]
      exact name

theorem head_cursor (h : Route names visits) : ∀ v ∈ visits.head?, v.cursor = {} := by
  induction h with
  | start => simp
  | @step visits v before served trail cursor name ih =>
    cases visits with
    | nil =>
      intro u hu
      obtain rfl : v = u := by simpa using hu
      exact (Except.ok.inj cursor).symm
    | cons u rest => simpa using ih

theorem exists_next {u v : Visit} (served : ∃ p, u.answer = .ok p)
    (trail : Trail ((visits ++ [u]).filterMap (Visit.placed names.length)))
    (cursor : Buckets.cursorOf (Trail.tokenAfter ((visits ++ [u]).filterMap (Visit.placed names.length))) =
      .ok v.cursor) :
    ∃ q, u.placed names.length = some q ∧ q.next = some v.cursor.encode ∧ u.Precedes v := by
  obtain ⟨p, hp⟩ := served
  have hplaced : u.placed names.length = some (Buckets.place names.length u.cursor.bucket p) := by
    simp [Visit.placed, hp, Except.toOption]
  rw [List.filterMap_append, List.filterMap_cons_some hplaced, List.filterMap_nil] at trail cursor
  rw [Trail.tokenAfter_append] at cursor
  obtain ⟨token, hnext, -⟩ := trail.exists_next _ (List.mem_append_right _ (List.mem_singleton_self _))
  obtain ⟨c, rfl, hback⟩ := Buckets.next_place hnext
  rw [hnext] at cursor
  have hsettled := Cursor.eq_settled_of_decode cursor
  refine ⟨_, hplaced, ?_, c, cursor, ?_⟩
  · rw [hnext, hsettled, Cursor.encode_settled]
  · rw [hback]
    simp [Visit.LeadsBack, hp]

theorem map_tail (h : Route names visits) : visits.tail.map (fun v => some v.cursor.encode) =
    (visits.dropLast.filterMap (Visit.placed names.length)).map Page.next := by
  induction h with
  | start => rfl
  | @step visits v before served trail cursor name ih =>
    rcases List.eq_nil_or_concat visits with rfl | ⟨visits, u, rfl⟩
    · rfl
    rw [List.concat_eq_append] at *
    obtain ⟨q, hplaced, hnext, -⟩ := exists_next (served u (by simp)) trail cursor
    rw [List.dropLast_concat] at ih ⊢
    rw [List.tail_append_of_ne_nil (by simp), List.map_append, ih, List.filterMap_append,
      List.filterMap_cons_some hplaced, List.filterMap_nil, List.map_append, List.map_singleton,
      List.map_singleton, hnext]

theorem isChain_of {R : Visit → Visit → Prop} (hR : ∀ u v q, u.placed names.length = some q →
    q.next = some v.cursor.encode → u.Precedes v → R u v) (h : Route names visits) : visits.IsChain R := by
  induction h with
  | start => exact .nil
  | @step visits v before served trail cursor name ih =>
    rcases List.eq_nil_or_concat visits with rfl | ⟨visits, u, rfl⟩
    · exact .singleton v
    rw [List.concat_eq_append] at *
    obtain ⟨q, hplaced, hnext, hprecedes⟩ := exists_next (served u (by simp)) trail cursor
    refine List.isChain_append.2 ⟨ih, .singleton v, ?_⟩
    simpa using hR u v q hplaced hnext hprecedes

theorem isChain (h : Route names visits) : visits.IsChain Visit.Precedes :=
  h.isChain_of fun _ _ _ _ _ hprecedes => hprecedes

theorem nodup_tail (h : Route names visits) : (visits.tail.map Visit.cursor).Nodup := by
  have htail := h.map_tail
  cases h with
  | start => exact List.nodup_nil
  | step before served trail cursor name =>
    have hnodup := trail.nodup_next
    rw [List.dropLast_concat] at htail
    rw [← htail] at hnodup
    have hcomp : (fun v : Visit => some v.cursor.encode) = (fun c => some c.encode) ∘ Visit.cursor := rfl
    rw [hcomp, ← List.map_map] at hnodup
    exact hnodup.of_map _

end Route

/-- In a chain of visits one after the first is to the very start exactly if one before the last leads back. -/
theorem exists_back_iff {v : Visit} {rest : List Visit} (h : (v :: rest).IsChain Visit.Precedes) :
    (∃ u ∈ rest, u.cursor = {}) ↔ ∃ u ∈ (v :: rest).dropLast, u.LeadsBack := by
  induction rest generalizing v with
  | nil => simp
  | cons u rest ih =>
    obtain ⟨hfirst, hrest⟩ := List.isChain_cons_cons.1 h
    simp only [List.mem_cons, exists_eq_or_imp, List.dropLast_cons_cons, ih hrest, hfirst.cursor_eq_iff]

theorem Route.not_nodup_iff {names : List String} {visits : List Visit} (h : Route names visits) :
    ¬(visits.map Visit.cursor).Nodup ↔ ∃ v ∈ visits.dropLast, v.LeadsBack := by
  have hhead := h.head_cursor
  have htail := h.nodup_tail
  have hchain := h.isChain
  cases visits with
  | nil => simp
  | cons v rest =>
    have hstart : v.cursor = {} := hhead v rfl
    rw [← exists_back_iff hchain, List.map_cons, List.nodup_cons, hstart]
    simp only [List.tail_cons] at htail
    simp [htail]

end ObjectStorage.S3
