import ObjectStorage.Time.Timestamp

/-! # Stores

A store keeps the content of keys, in the order of the keys.
-/
namespace ObjectStorage

structure StoredObject where
  data : List UInt8
  modified : Timestamp
deriving DecidableEq, Repr

structure Store where
  entries : List (String × StoredObject) := []
  sorted : entries.Pairwise (fun a b => a.1 < b.1) := by simp

namespace Store

def insertEntry (key : String) (o : StoredObject) :
    List (String × StoredObject) → List (String × StoredObject)
  | [] => [(key, o)]
  | e :: rest =>
    if key < e.1 then (key, o) :: e :: rest
    else if key = e.1 then (key, o) :: rest
    else e :: insertEntry key o rest

theorem mem_insertEntry {key : String} {o : StoredObject} {entries : List (String × StoredObject)}
    {e : String × StoredObject} (h : e ∈ insertEntry key o entries) : e = (key, o) ∨ e ∈ entries := by
  induction entries with
  | nil => simpa [insertEntry] using h
  | cons f rest ih =>
    unfold insertEntry at h
    split at h
    · simpa using h
    · split at h <;> grind

theorem sorted_insertEntry {key : String} {o : StoredObject} {entries : List (String × StoredObject)}
    (h : entries.Pairwise (fun a b => a.1 < b.1)) :
    (insertEntry key o entries).Pairwise (fun a b => a.1 < b.1) := by
  induction entries with
  | nil => simp [insertEntry]
  | cons f rest ih =>
    rw [List.pairwise_cons] at h
    unfold insertEntry
    split
    · rename_i before
      refine List.pairwise_cons.2 ⟨?_, List.pairwise_cons.2 h⟩
      intro e he
      rcases List.mem_cons.1 he with rfl | he
      · exact before
      · exact String.lt_trans before (h.1 e he)
    · split
      · rename_i same
        subst same
        exact List.pairwise_cons.2 ⟨h.1, h.2⟩
      · rename_i notBefore different
        refine List.pairwise_cons.2 ⟨?_, ih h.2⟩
        intro e he
        rcases mem_insertEntry he with rfl | he
        · have le : f.1 ≤ key := String.not_lt.1 notBefore
          have ne : key ≠ f.1 := different
          exact Decidable.byContradiction fun no =>
            ne (String.le_antisymm (String.not_lt.1 no) le)
        · exact h.1 e he

def empty : Store := {}

def size (s : Store) : Nat := s.entries.length

def get? (s : Store) (key : String) : Option StoredObject := s.entries.lookup key

def put (key : String) (o : StoredObject) (s : Store) : Store :=
  ⟨insertEntry key o s.entries, sorted_insertEntry s.sorted⟩

def erase (key : String) (s : Store) : Store :=
  ⟨s.entries.filter (·.1 ≠ key), s.sorted.sublist List.filter_sublist⟩

end Store
end ObjectStorage
