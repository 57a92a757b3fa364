import ObjectStorage.Proofs.Work.Protocols
import ObjectStorage.Store.Faults

/-! # Calls of a faulty store

A call is received and responded to, and may wait in between. Its fault is the next one of the script, and a
fault with an error fails it.
-/
namespace ObjectStorage.FaultyMemory

variable {γ : Type}

theorem receive_faults (r : Request) (m : FaultyMemory) :
    m.faults = m.faults.take 1 ++ (receive r m).2.faults ∧
      ((receive r m).1 ∈ m.faults.take 1 ∨ (receive r m).1 = {}) := by
  rcases m with ⟨memory, faults, calls⟩
  cases faults <;> simp [receive]

/-- A call that arrives is carried out at once only if it is a put and its fault says so. -/
theorem receive_memory (r : Request) (m : FaultyMemory) :
    (receive r m).2.memory = m.memory ∨
      (∃ key data, r = .put key data) ∧ (receive r m).1.applied = true ∧
        (receive r m).2.memory = (m.memory.answer r).2 := by
  cases r with
  | put key data =>
    by_cases happlied : (receive (.put key data) m).1.applied = true
    · exact .inr ⟨⟨key, data, rfl⟩, happlied, if_pos happlied⟩
    · exact .inl (if_neg happlied)
  | get key => exact .inl rfl
  | delete key => exact .inl rfl
  | page first delimiter token => exact .inl rfl

theorem respond_fault {f : Fault} {e : StorageError} (hf : f.error = some e) (r : Request) (m : FaultyMemory) :
    respond f r m = (.error e, m) := by
  simp [respond, hf]

theorem respond_answer {f : Fault} (hf : f.error = none) {r : Request}
    (hr : ∀ first delimiter token, r ≠ .page first delimiter token) (m : FaultyMemory) :
    respond f r m = ((m.memory.answer r).1, { m with memory := (m.memory.answer r).2 }) := by
  cases r with
  | page first delimiter token => exact absurd rfl (hr first delimiter token)
  | get key => simp [respond, hf]
  | put key data => simp [respond, hf]
  | delete key => simp [respond, hf]

theorem respond_memory (f : Fault) (r : Request) (m : FaultyMemory) :
    (respond f r m).2.memory = m.memory ∨ (respond f r m).2.memory = (m.memory.answer r).2 := by
  cases hf : f.error with
  | some e =>
    rw [respond_fault hf]
    exact .inl rfl
  | none =>
    by_cases hpage : ∃ first delimiter token, r = .page first delimiter token
    · obtain ⟨first, delimiter, token, rfl⟩ := hpage
      left
      cases hpage : f.page <;> simp [respond, hf, hpage, Memory.answer]
    · simp only [not_exists] at hpage
      rw [respond_answer hf hpage]
      exact .inr rfl

theorem run_call (r : Request) (now : Nat) (m : FaultyMemory) : ∃ time, (backend.call r).run now m =
    ((respond (receive r m).1 r (receive r m).2).1, time, (respond (receive r m).1 r (receive r m).2).2) := by
  simp only [backend, Timed.bind_eq, Timed.run_bind]
  split
  · exact ⟨_, rfl⟩
  · exact ⟨_, rfl⟩

variable {P : Protocol FaultyMemory γ} {n : Nat} {g : γ} {r : Request} {post : γ → Answer r → Prop}

/-- A call follows a protocol if receiving it and responding to it do. -/
theorem follows_call_of (received : γ → Fault → Prop)
    (hreceive : ∀ m, P.valid m → P.valid (receive r m).2 ∧
      ∃ h, P.step n g m h (receive r m).2 ∧ received h (receive r m).1)
    (hrespond : ∀ h f, received h f → ∀ m, P.valid m → P.valid (respond f r m).2 ∧
      ∃ k, P.step n h m k (respond f r m).2 ∧ post k (respond f r m).1) :
    (backend.call r).Follows P n post g := by
  have hreceived : (Timed.modifyGet (receive r)).Follows P n received g := Timed.follows_modifyGet hreceive
  refine hreceived.bind fun h f hh => ?_
  have hresponds : (Timed.modifyGet (respond f r)).Follows P n post h := Timed.follows_modifyGet (hrespond h f hh)
  dsimp only
  split
  · exact hresponds
  · exact hresponds

end ObjectStorage.FaultyMemory
