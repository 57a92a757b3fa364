import ObjectStorage.Metrics
import ObjectStorage.Timed

/-! # The world of a client

What the work of a client acts on: the store behind it, the counters, and the random numbers it is
going to draw.
-/
namespace ObjectStorage

structure World (σ : Type) where
  store : σ
  metrics : Metrics := {}
  /-- The random numbers to come; zeros follow. -/
  draws : List Nat := []

namespace World

variable {σ α : Type}

def onStore (t : Timed σ α) : Timed (World σ) α :=
  t.within World.store fun s w => { w with store := s }

theorem run_onStore (t : Timed σ α) (now : Nat) (w : World σ) :
    (onStore t).run now w =
      ((t.run now w.store).1, (t.run now w.store).2.1, { w with store := (t.run now w.store).2.2 }) := by
  refine Timed.run_within ?_ ?_ ?_ t now w
  · intro s w
    rfl
  · intro r s w
    rfl
  · intro w
    rfl

def count (f : Metrics → Metrics) : Timed (World σ) Unit :=
  .modify fun w => { w with metrics := f w.metrics }

def draw : Timed (World σ) Nat :=
  .modifyGet fun w => (w.draws.headD 0, { w with draws := w.draws.tail })

end World
end ObjectStorage
