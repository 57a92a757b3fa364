import ObjectStorage.Duration

/-! # Timed work

Work that acts on a world, waits, and ends with a result. An act is a single step: nothing comes
between the change it makes and the look it takes at the world before it. Other work may come between
any two steps. The clock counts milliseconds, and acts take no time.
-/
namespace ObjectStorage

inductive Timed (σ α : Type) where
  | done (a : α)
  /-- Changes the world and goes on with what the world was before. -/
  | act (change : σ → σ) (next : σ → Timed σ α)
  | wait (d : Duration) (next : Timed σ α)

namespace Timed

variable {σ τ α β : Type}

def bind : Timed σ α → (α → Timed σ β) → Timed σ β
  | done a, k => k a
  | act change next, k => act change fun s => (next s).bind k
  | wait d next, k => wait d (next.bind k)

instance : Monad (Timed σ) where
  pure := done
  bind := bind

@[simp] theorem pure_eq (a : α) : (pure a : Timed σ α) = done a := rfl
@[simp] theorem bind_eq (t : Timed σ α) (k : α → Timed σ β) : t >>= k = t.bind k := rfl
@[simp] theorem done_bind (a : α) (k : α → Timed σ β) : (done a).bind k = k a := rfl

theorem bind_done (t : Timed σ α) : t.bind done = t := by
  induction t with
  | done a => rfl
  | act change next ih => simp only [bind, ih]
  | wait d next ih => simp only [bind, ih]

theorem bind_assoc {γ : Type} (t : Timed σ α) (k : α → Timed σ β) (l : β → Timed σ γ) :
    (t.bind k).bind l = t.bind fun a => (k a).bind l := by
  induction t with
  | done a => rfl
  | act change next ih => simp only [bind, ih]
  | wait d next ih => simp only [bind, ih]

def modify (f : σ → σ) : Timed σ Unit := act f fun _ => done ()

def modifyGet (f : σ → α × σ) : Timed σ α := act (fun s => (f s).2) fun s => done (f s).1

def pause (d : Duration) : Timed σ Unit := wait d (done ())

def within (get : τ → σ) (put : σ → τ → τ) : Timed σ α → Timed τ α
  | done a => done a
  | act change next => act (fun s => put (change (get s)) s) fun s => (next (get s)).within get put
  | wait d next => wait d (next.within get put)

/-- Runs work alone from a point in time: the result, when it is there, and the world then. -/
def run : Timed σ α → Nat → σ → α × Nat × σ
  | done a, now, s => (a, now, s)
  | act change next, now, s => (next s).run now (change s)
  | wait d next, now, s => next.run (now + d.ticks) s

theorem run_bind (t : Timed σ α) (k : α → Timed σ β) (now : Nat) (s : σ) :
    (t.bind k).run now s = (k (t.run now s).1).run (t.run now s).2.1 (t.run now s).2.2 := by
  induction t generalizing now s with
  | done a => rfl
  | act change next ih => simp only [bind, run, ih]
  | wait d next ih => simp only [bind, run, ih]

/-- What comes of work does not depend on when it starts. -/
theorem run_at (t : Timed σ α) (now later : Nat) (s : σ) :
    (t.run later s).1 = (t.run now s).1 ∧ (t.run later s).2.2 = (t.run now s).2.2 := by
  induction t generalizing now later s with
  | done a => exact ⟨rfl, rfl⟩
  | act change next ih => exact ih s now later (change s)
  | wait d next ih => exact ih (now + d.ticks) (later + d.ticks) s

/-- Work on a part runs as it does alone, and the rest of the world stays as it is. -/
theorem run_within {get : τ → σ} {put : σ → τ → τ} (get_put : ∀ s t, get (put s t) = s)
    (put_put : ∀ r s t, put r (put s t) = put r t) (put_get : ∀ t, put (get t) t = t)
    (w : Timed σ α) (now : Nat) (t : τ) :
    (w.within get put).run now t =
      ((w.run now (get t)).1, (w.run now (get t)).2.1, put (w.run now (get t)).2.2 t) := by
  induction w generalizing now t with
  | done a => simp only [within, run, put_get]
  | act change next ih => simp only [within, run, ih, get_put, put_put]
  | wait d next ih => simp only [within, run, ih]

/-- What a single step of work comes to: its end, or more to do after a wait. -/
inductive Progress (σ α : Type) where
  | finished (a : α)
  | waiting (d : Duration) (next : Timed σ α)

/-- A single step. An act is one, and what comes after it does not have to wait. -/
def advance : Timed σ α → σ → Progress σ α × σ
  | done a, s => (.finished a, s)
  | act change next, s => (.waiting ⟨0⟩ (next s), change s)
  | wait d next, s => (.waiting d next, s)

end Timed
end ObjectStorage
