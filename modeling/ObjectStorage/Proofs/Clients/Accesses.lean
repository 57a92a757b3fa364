import ObjectStorage.Proofs.Clients.Registers
import ObjectStorage.Proofs.Store.FaultyCalls

/-! # Accesses to a faulty store

An attempt at a read or a write has the store answer once at most, and ends as the store answered unless a
fault fails it. A write that is not always repeated is not attempted again once the store carried it out.
-/
namespace ObjectStorage

variable {ρ : Type}

/-- How far an attempt has come: the faults that its calls took, and what the store answered it. -/
structure Stage (ρ : Type) where
  taken : List Fault := []
  answer : Option (Except StorageError ρ) := none

namespace Stage

def Failed (g : Stage ρ) (e : StorageError) : Prop := ∃ f ∈ g.taken, f.error = some e

/-- How an attempt can end: as the store answered it, or failed by a fault; what the store carried out can
fail only in a way that leaves that open. -/
def Ends (reply : Contents → Except StorageError ρ) (lossy : Prop) (g : Stage ρ) (outcome : Except StorageError ρ) :
    Prop :=
  (g.answer = some outcome ∧ ∃ f, outcome = reply f) ∨
    ∃ e, outcome = .error e ∧ g.Failed e ∧ (g.answer ≠ none → lossy ∧ e.isAmbiguous = true)

theorem Ends.mono {reply : Contents → Except StorageError ρ} {lossy weaker : Prop} {g : Stage ρ}
    {outcome : Except StorageError ρ} (h : g.Ends reply lossy outcome) (hlossy : lossy → weaker) :
    g.Ends reply weaker outcome := by
  rcases h with hanswer | ⟨e, he, hfailed, hopen⟩
  · exact .inl hanswer
  · exact .inr ⟨e, he, hfailed, fun hne => ⟨hlossy (hopen hne).1, (hopen hne).2⟩⟩

end Stage

/-- Only puts are carried out before they fail, and in a way that leaves open whether they were. -/
def Fault.Fair (f : Fault) : Prop := f.applied = true → ∃ e, f.error = some e ∧ e.isAmbiguous = true

namespace FaultyMemory

def contents (m : FaultyMemory) : Contents := m.memory.contents

/-- Attempts at an access: they take faults from the script, and once at most they have the store answer,
which changes it as it should. -/
def protocol (reply : Contents → Except StorageError ρ) (after : Contents → Contents) :
    Protocol FaultyMemory (Stage ρ) where
  valid m := ∀ f ∈ m.faults, f.Fair
  step _ g m h m' :=
    (∃ new, m.faults = new ++ m'.faults ∧ h.taken = g.taken ++ new) ∧
    (h.answer = g.answer ∧ m'.contents = m.contents ∨
      g.answer = none ∧ h.answer = some (reply m.contents) ∧ m'.contents = after m.contents)
  refl _ _ _ := ⟨⟨[], by simp, by simp⟩, .inl ⟨rfl, rfl⟩⟩
  trans := by
    rintro n g m h m' k m'' ⟨⟨new, hfaults, htaken⟩, hstep⟩ ⟨⟨more, hmore, htakes⟩, hgoes⟩
    refine ⟨⟨new ++ more, by rw [hfaults, hmore, List.append_assoc], by rw [htakes, htaken, List.append_assoc]⟩, ?_⟩
    rcases hstep with ⟨hanswer, hcontents⟩ | ⟨hnone, hanswer, hcontents⟩
    · rw [← hanswer, ← hcontents]
      exact hgoes
    · rcases hgoes with ⟨hsame, hstays⟩ | ⟨hnone', -, -⟩
      · exact .inr ⟨hnone, hsame.trans hanswer, hstays.trans hcontents⟩
      · rw [hanswer] at hnone'
        cases hnone'

variable {r : Request} {reply : Contents → Answer r} {after : Contents → Contents}

/-- A call has taken its fault and is about to be answered: if the fault fails it, it may have been carried
out all the same. -/
def Received (lossy : Prop) (h : Stage ρ) (f : Fault) : Prop :=
  match f.error with
  | none => h.answer = none
  | some e => h.Failed e ∧ (h.answer ≠ none → lossy ∧ e.isAmbiguous = true)

theorem receive_received (hr : r.Concerns reply after) {n : Nat} {g : Stage r.Reply} (hg : g.answer = none)
    (m : FaultyMemory) (hvalid : (protocol reply after).valid m) : (protocol reply after).valid (receive r m).2 ∧
      ∃ h, (protocol reply after).step n g m h (receive r m).2 ∧
        Received (∃ key data, r = .put key data) h (receive r m).1 := by
  obtain ⟨hfaults, hfault⟩ := receive_faults r m
  have hfair : (receive r m).1.Fair := by
    rcases hfault with hmem | hnone
    · exact hvalid _ (List.mem_of_mem_take hmem)
    · rw [hnone]
      intro happlied
      cases happlied
  have hfailed (e : StorageError) (he : (receive r m).1.error = some e) :
      ∃ f ∈ g.taken ++ m.faults.take 1, f.error = some e := by
    rcases hfault with hmem | hnone
    · exact ⟨_, List.mem_append_right _ hmem, he⟩
    · rw [hnone] at he
      cases he
  refine ⟨fun f hf => hvalid f (by rw [hfaults]; exact List.mem_append_right _ hf), ?_⟩
  rcases receive_memory r m with hmemory | ⟨hput, happlied, hmemory⟩
  · refine ⟨⟨g.taken ++ m.faults.take 1, none⟩,
      ⟨⟨_, hfaults, rfl⟩, .inl ⟨hg.symm, congrArg Memory.contents hmemory⟩⟩, ?_⟩
    unfold Received
    split
    · rfl
    · rename_i e he
      exact ⟨hfailed e he, fun h => absurd rfl h⟩
  · obtain ⟨e, he, hambiguous⟩ := hfair happlied
    have hcontents : (receive r m).2.contents = after m.contents := by
      rw [contents, hmemory]
      exact (hr.2 m.memory).2
    refine ⟨⟨g.taken ++ m.faults.take 1, some (reply m.contents)⟩,
      ⟨⟨_, hfaults, rfl⟩, .inr ⟨hg, rfl, hcontents⟩⟩, ?_⟩
    unfold Received
    rw [he]
    exact ⟨hfailed e he, fun _ => ⟨hput, hambiguous⟩⟩

theorem respond_ends (hr : r.Concerns reply after) {n : Nat} {lossy : Prop} (g : Stage r.Reply) (f : Fault)
    (hg : Received lossy g f) (m : FaultyMemory) (hvalid : (protocol reply after).valid m) :
    (protocol reply after).valid (respond f r m).2 ∧
      ∃ h, (protocol reply after).step n g m h (respond f r m).2 ∧ h.Ends reply lossy (respond f r m).1 := by
  unfold Received at hg
  split at hg
  · rename_i hf
    obtain ⟨hanswer, hcontents⟩ := hr.2 m.memory
    rw [respond_answer hf hr.1]
    refine ⟨hvalid, ⟨g.taken, some (reply m.contents)⟩, ⟨⟨[], rfl, by simp⟩, .inr ⟨hg, rfl, hcontents⟩⟩, .inl ⟨?_, ?_⟩⟩
    · exact congrArg some hanswer.symm
    · exact ⟨m.contents, hanswer⟩
  · rename_i e he
    rw [respond_fault he]
    exact ⟨hvalid, g, ⟨⟨[], rfl, by simp⟩, .inl ⟨rfl, rfl⟩⟩, .inr ⟨e, rfl, hg⟩⟩

theorem follows_call (hr : r.Concerns reply after) {n : Nat} {g : Stage r.Reply} (hg : g.answer = none) :
    (backend.call r).Follows (protocol reply after) n (Stage.Ends reply (∃ key data, r = .put key data)) g :=
  follows_call_of _ (receive_received hr hg) (respond_ends hr)

end FaultyMemory

theorem RetryPolicy.answer_of_retries {p : RetryPolicy} {kind : OperationKind}
    {reply : Contents → Except StorageError ρ} {lossy : Prop} {h : Stage ρ} {e : StorageError} (hreply : ∀ f e, reply f = .error e → e.errorClass = .notFound)
    (hkind : lossy → kind = .write ∧ p.writePolicy ≠ .always) (hends : h.Ends reply lossy (.error e))
    (hretry : p.retries kind e = true) : h.answer = none := by
  rcases hends with ⟨-, f, hf⟩ | ⟨e', he, -, hlossy⟩
  · have hclass := hreply f e hf.symm
    simp [retries, hclass] at hretry
  · cases he
    by_contra hanswer
    obtain ⟨hput, hambiguous⟩ := hlossy hanswer
    obtain ⟨rfl, hp⟩ := hkind hput
    obtain ⟨-, -, code, message, status, rfl⟩ := isRefusal_of_retries hp hretry
    cases hambiguous

theorem Client.follows_request {c : Client FaultyMemory} (hb : c.backend = FaultyMemory.backend) (name : String)
    {kind : OperationKind} {r : Request} {reply : Contents → Answer r} {after : Contents → Contents}
    (hr : r.Concerns reply after) (hreply : ∀ f e, reply f = .error e → e.errorClass = .notFound)
    (hkind : (∃ key data, r = .put key data) → kind = .write ∧ c.retry.writePolicy ≠ .always) (n : Nat) :
    (c.request name kind r).Follows (FaultyMemory.protocol reply after).onStore n
      (Stage.Ends reply (∃ key data, r = .put key data)) {} := by
  refine RetryPolicy.follows_attempts name (fun _ h => h.answer = none)
    (fun _ => Stage.Ends reply (∃ key data, r = .put key data)) ?_ ?_ ?_ c.retry.maxRetries rfl
  · intro left h hh
    rw [hb]
    exact (FaultyMemory.follows_call hr hh).onStore
  · exact fun left h outcome hends => hends
  · exact fun left h e hends hretry => RetryPolicy.answer_of_retries hreply hkind hends hretry

namespace Access

def protocol (a : Access) : Protocol FaultyMemory (Stage a.Result) :=
  FaultyMemory.protocol (·.reply a) (·.after a)

def Ends (a : Access) : Stage a.Result → Except StorageError a.Result → Prop := Stage.Ends (·.reply a) a.IsPut

theorem follows_work {c : Client FaultyMemory} (hb : c.backend = FaultyMemory.backend)
    (hp : c.retry.writePolicy ≠ .always) (a : Access) (n : Nat) :
    (a.work c).Follows a.protocol.onStore n a.Ends {} := by
  have hreply : ∀ (f : Contents) (e : StorageError), f.reply a = .error e → e.errorClass = .notFound :=
    fun f e => Contents.errorClass_of_reply
  rcases a with key | ⟨key, data⟩ | key
  · exact (Client.follows_request hb "get" (Request.get_concerns key) hreply (by simp) n).mono
      fun h outcome hends => hends.mono (by simp)
  · refine (Client.follows_request hb "put" (Request.put_concerns key data) hreply (fun _ => ⟨rfl, hp⟩) n).bind ?_
    exact fun h outcome hends => Client.follows_finish "put" (hends.mono fun _ => trivial)
  · refine (Client.follows_request hb "delete" (Request.delete_concerns key) hreply (by simp) n).bind ?_
    exact fun h outcome hends => Client.follows_finish "delete" (hends.mono (by simp))

end Access
end ObjectStorage
