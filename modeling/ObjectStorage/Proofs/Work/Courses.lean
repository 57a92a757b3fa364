import ObjectStorage.Proofs.Work.Keeps
import ObjectStorage.Proofs.Work.Recorded

/-! # Courses of work

What happens while work runs alone, in its order: the notes that are taken, and the waits before, between and
after them.
-/
namespace ObjectStorage

inductive Happening (ν : Type) where
  | noted (note : ν)
  | waited (d : Duration)
deriving DecidableEq, Repr

namespace Timed

variable {σ τ α β ν : Type}

/-- An act takes the notes that are there after it beyond those that were there before. -/
def course (notes : σ → List ν) : Timed σ α → σ → List (Happening ν)
  | done _, _ => []
  | act change next, s =>
    ((notes (change s)).drop (notes s).length).map .noted ++ (next s).course notes (change s)
  | wait d next, s => .waited d :: next.course notes s

def waits : Timed σ α → σ → List Duration
  | done _, _ => []
  | act change next, s => (next s).waits (change s)
  | wait d next, s => d :: next.waits s

theorem course_bind (notes : σ → List ν) (t : Timed σ α) (k : α → Timed σ β) (now : Nat) (s : σ) :
    (t.bind k).course notes s =
      t.course notes s ++ (k (t.run now s).1).course notes (t.run now s).2.2 := by
  induction t generalizing now s with
  | done a => rfl
  | act change next ih => simp only [bind, course, run, ih s now (change s), List.append_assoc]
  | wait d next ih => simp only [bind, course, run, ih (now + d.ticks) s, List.cons_append]

theorem course_within {get : τ → σ} {put : σ → τ → τ} (get_put : ∀ s t, get (put s t) = s) (notes : σ → List ν)
    (w : Timed σ α) (t : τ) : (w.within get put).course (fun t => notes (get t)) t = w.course notes (get t) := by
  induction w generalizing t with
  | done a => rfl
  | act change next ih => simp only [within, course, ih, get_put]
  | wait d next ih => simp only [within, course, ih]

theorem waits_within {get : τ → σ} {put : σ → τ → τ} (get_put : ∀ s t, get (put s t) = s) (w : Timed σ α) (t : τ) :
    (w.within get put).waits t = w.waits (get t) := by
  induction w generalizing t with
  | done a => rfl
  | act change next ih => simp only [within, waits, ih, get_put]
  | wait d next ih => simp only [within, waits, ih]

/-- Work that takes no notes only waits. -/
theorem Keeps.course {notes : σ → List ν} {t : Timed σ α} (ht : t.Keeps notes) (s : σ) :
    t.course notes s = (t.waits s).map .waited := by
  induction t generalizing s with
  | done a => rfl
  | act change next ih =>
    have hnone : (notes (change s)).drop (notes s).length = [] := by rw [ht.1 s, List.drop_length]
    simp only [Timed.course, waits, hnone, List.map_nil, List.nil_append, ih s (ht.2 s)]
  | wait d next ih => simp only [Timed.course, waits, List.map_cons, ih ht]

theorem course_note (note : ν) (m : Recorded ν σ) :
    (modify fun m : Recorded ν σ => { m with notes := m.notes ++ [note] }).course Recorded.notes m =
      [.noted note] := by
  simp [modify, course]

end Timed

theorem Recorded.course_within {σ ν α : Type} (t : Timed σ α) (m : Recorded ν σ) :
    (t.within Recorded.store fun s (m : Recorded ν σ) => { m with store := s }).course Recorded.notes m =
      (t.waits m.store).map .waited := by
  have hkeeps : (t.within Recorded.store fun s (m : Recorded ν σ) => { m with store := s }).Keeps
      Recorded.notes := by
    apply Timed.keeps_within
    intro s m
    rfl
  rw [hkeeps.course, Timed.waits_within]
  intro s m
  rfl

end ObjectStorage
