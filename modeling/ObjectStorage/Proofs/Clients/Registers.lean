import ObjectStorage.Proofs.Retry.Writes
import ObjectStorage.Store.Faults
import Mathlib.Logic.Function.Basic

/-! # Registers

What a store holds under each key, and what reads and writes of a single key answer and leave behind.
-/
namespace ObjectStorage

/-- The content of each key, if it has one. -/
abbrev Contents : Type := String → Option (List UInt8)

namespace Store
variable (s : Store) (key : String)

def contents : Contents := fun key => (s.get? key).map StoredObject.data

theorem lookup_cons_eq (e : String × StoredObject) (rest : List (String × StoredObject)) (other : String) :
    (e :: rest).lookup other = if other = e.1 then some e.2 else rest.lookup other := by
  obtain ⟨first, content⟩ := e
  by_cases h : other = first
  · simp [h]
  · simp [List.lookup_cons, beq_false_of_ne h, h]

theorem lookup_insertEntry (o : StoredObject) (entries : List (String × StoredObject)) (other : String) :
    (insertEntry key o entries).lookup other = if other = key then some o else entries.lookup other := by
  induction entries with
  | nil => rw [insertEntry, lookup_cons_eq]
  | cons e rest ih =>
    unfold insertEntry
    split
    · rw [lookup_cons_eq]
    · split
      · rename_i hkey
        subst hkey
        rw [lookup_cons_eq, lookup_cons_eq]
        split <;> rfl
      · rename_i hkey
        rw [lookup_cons_eq, lookup_cons_eq, ih]
        by_cases h : other = key
        · simp [h, hkey]
        · simp [h]

theorem lookup_erase (entries : List (String × StoredObject)) (other : String) :
    (entries.filter (·.1 ≠ key)).lookup other = if other = key then none else entries.lookup other := by
  induction entries with
  | nil => simp
  | cons e rest ih =>
    by_cases hfirst : e.1 = key
    · rw [List.filter_cons_of_neg (by simpa using hfirst), ih, lookup_cons_eq, hfirst]
      split <;> rfl
    · rw [List.filter_cons_of_pos (by simpa using hfirst), lookup_cons_eq, lookup_cons_eq, ih]
      by_cases h : other = key
      · simp [h, Ne.symm hfirst]
      · simp [h]

theorem get?_put (o : StoredObject) (other : String) :
    (s.put key o).get? other = if other = key then some o else s.get? other :=
  lookup_insertEntry key o s.entries other

theorem get?_erase (other : String) : (s.erase key).get? other = if other = key then none else s.get? other :=
  lookup_erase key s.entries other

theorem contents_put (o : StoredObject) :
    (s.put key o).contents = Function.update s.contents key (some o.data) := by
  funext other
  simp only [contents, get?_put, Function.update_apply]
  split <;> rfl

theorem contents_erase : (s.erase key).contents = Function.update s.contents key none := by
  funext other
  simp only [contents, get?_erase, Function.update_apply]
  split <;> rfl

theorem insertEntry_twice (o : StoredObject) (entries : List (String × StoredObject)) :
    insertEntry key o (insertEntry key o entries) = insertEntry key o entries := by
  induction entries with
  | nil => simp [insertEntry]
  | cons e rest ih =>
    by_cases hlt : key < e.1
    · simp [insertEntry, hlt]
    · by_cases heq : key = e.1
      · simp [insertEntry, heq]
      · simp [insertEntry, hlt, heq, ih]

theorem put_put (o : StoredObject) : (s.put key o).put key o = s.put key o := by
  simp [put, insertEntry_twice]

theorem erase_erase : (s.erase key).erase key = s.erase key := by
  simp [erase]

end Store

namespace Write

def key : Write → String
  | put key _ => key
  | delete key => key

/-- What a write leaves under its key. -/
def content : Write → Option (List UInt8)
  | put _ data => some data
  | delete _ => none

end Write

/-- What is done with a single key. -/
inductive Access where
  | read (key : String)
  | write (wr : Write)

namespace Access

abbrev Result : Access → Type
  | read _ => Fetched
  | write _ => Unit

def request : Access → Request
  | read key => .get key
  | write wr => wr.request

def IsPut : Access → Prop
  | write (.put _ _) => True
  | _ => False

/-- How a client does it: the single attempts of a read, and all of a write. -/
def work {σ : Type} (c : Client σ) : (a : Access) → Timed (World σ) (Except StorageError a.Result)
  | read key => c.readAttempt key
  | write wr => wr.perform c

end Access

namespace Contents

/-- What a register answers. -/
def reply (f : Contents) : (a : Access) → Except StorageError a.Result
  | .read key =>
    match f key with
    | some data => .ok ⟨data, data.length⟩
    | none => .error (.noSuchKey key)
  | .write _ => .ok ()

def after (f : Contents) : Access → Contents
  | .read _ => f
  | .write wr => Function.update f wr.key wr.content

@[simp] theorem after_read (f : Contents) (key : String) : f.after (.read key) = f := rfl

theorem eq_of_reply_read {f : Contents} {key : String} {r : Fetched} (h : f.reply (.read key) = .ok r) :
    f key = some r.data := by
  cases hf : f key with
  | none => simp [reply, hf] at h
  | some data =>
    obtain rfl : ⟨data, data.length⟩ = r := by simpa [reply, hf] using h
    rfl

theorem errorClass_of_reply {f : Contents} {a : Access} {e : StorageError} (h : f.reply a = .error e) :
    e.errorClass = .notFound := by
  cases a with
  | read key =>
    cases hf : f key with
    | some data => simp [reply, hf] at h
    | none =>
      obtain rfl : .noSuchKey key = e := by simpa [reply, hf] using h
      rfl
  | write wr => cases h

end Contents

def Memory.contents (m : Memory) : Contents := m.store.contents

/-- A request concerns a single key: what answers it and what it changes are those of registers. -/
def Request.Concerns (r : Request) (reply : Contents → Answer r) (after : Contents → Contents) : Prop :=
  (∀ first delimiter token, r ≠ .page first delimiter token) ∧
    ∀ m : Memory, (m.answer r).1 = reply m.contents ∧ (m.answer r).2.contents = after m.contents

theorem Request.get_concerns (key : String) :
    (Request.get key).Concerns (·.reply (.read key)) (·.after (.read key)) := by
  refine ⟨by simp, fun m => ?_⟩
  cases hget : m.store.get? key <;>
    simp [Memory.answer, Contents.reply, Memory.contents, Store.contents, hget]

theorem Request.put_concerns (key : String) (data : List UInt8) :
    (Request.put key data).Concerns (·.reply (.write (.put key data))) (·.after (.write (.put key data))) :=
  ⟨by simp, fun m => ⟨rfl, m.store.contents_put key _⟩⟩

theorem Request.delete_concerns (key : String) :
    (Request.delete key).Concerns (·.reply (.write (.delete key))) (·.after (.write (.delete key))) :=
  ⟨by simp, fun m => ⟨rfl, m.store.contents_erase key⟩⟩

end ObjectStorage
