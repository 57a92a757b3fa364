import ObjectStorage.Client

/-! # Recorded stores

A store can be watched: of each call that it answers a note is taken. The calls themselves go on as
they would without it.
-/
namespace ObjectStorage

variable {σ ν : Type}

/-- A store, and the notes of the calls that it answered, in their order. -/
structure Recorded (ν σ : Type) where
  store : σ
  notes : List ν := []

theorem Recorded.run_within {α : Type} (t : Timed σ α) (now : Nat) (m : Recorded ν σ) :
    (t.within Recorded.store fun s (m : Recorded ν σ) => { m with store := s }).run now m =
      ((t.run now m.store).1, (t.run now m.store).2.1, { m with store := (t.run now m.store).2.2 }) := by
  refine Timed.run_within ?_ ?_ ?_ t now m
  · intro s m
    rfl
  · intro r s m
    rfl
  · intro m
    rfl

namespace Backend

def recorded (note : (r : Request) → Answer r → ν) (b : Backend σ) : Backend (Recorded ν σ) where
  call r := do
    let answer ← (b.call r).within Recorded.store fun s m => { m with store := s }
    Timed.modify fun m => { m with notes := m.notes ++ [note r answer] }
    return answer
  steps := b.steps + 1

theorem run_recorded (note : (r : Request) → Answer r → ν) (b : Backend σ) (r : Request) (now : Nat)
    (m : Recorded ν σ) :
    ((b.recorded note).call r).run now m =
      (((b.call r).run now m.store).1, ((b.call r).run now m.store).2.1,
        ⟨((b.call r).run now m.store).2.2, m.notes ++ [note r ((b.call r).run now m.store).1]⟩) := by
  simp only [recorded, Timed.bind_eq, Timed.run_bind, Recorded.run_within]
  rfl

theorem run_onStore_recorded (note : (r : Request) → Answer r → ν) (b : Backend σ) (r : Request) {now : Nat}
    {w : World (Recorded ν σ)} {answer : Answer r} {time : Nat} {store : σ}
    (h : (b.call r).run now w.store.store = (answer, time, store)) :
    (World.onStore ((b.recorded note).call r)).run now w =
      (answer, time, { w with store := ⟨store, w.store.notes ++ [note r answer]⟩ }) := by
  rw [World.run_onStore, run_recorded, h]

def outcomeNote (r : Request) (answer : Answer r) : Request × Except StorageError Unit :=
  (r, answer.map fun _ => ())

end Backend

abbrev Watched (σ : Type) : Type := Recorded (Request × Except StorageError Unit) σ

def Client.recorded (note : (r : Request) → Answer r → ν) (c : Client σ) : Client (Recorded ν σ) :=
  { retry := c.retry, hedging := c.hedging, maxPages := c.maxPages, backend := c.backend.recorded note }

end ObjectStorage
