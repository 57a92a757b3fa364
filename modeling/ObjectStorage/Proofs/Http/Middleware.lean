import Mathlib.Algebra.BigOperators.Group.List.Defs
import Mathlib.Algebra.Order.Ring.Nat
import ObjectStorage.Http.Script
import ObjectStorage.Proofs.Work.Recorded

/-! # Chains of decorators

A chain around a chain is one chain. Decorators that forward once are passed in the order of the chain by a
request, and in the opposite order by its answer. How often each of them is asked is the product of what those
before it forward.
-/
namespace ObjectStorage.Http

variable {σ α β : Type}

namespace Chain

theorem wrap_append (xs ys : List (Decorator σ)) (base : Executor σ) :
    (Chain.mk (xs ++ ys)).wrap base = (Chain.mk xs).wrap ((Chain.mk ys).wrap base) :=
  List.foldr_append

theorem wrap_cons (d : Decorator σ) (ds : List (Decorator σ)) (base : Executor σ) :
    (Chain.mk (d :: ds)).wrap base = d ((Chain.mk ds).wrap base) := rfl

theorem foldl_push (ds : List (Decorator σ)) (c : Chain σ) :
    ds.foldl (fun c d => c.push d) c = ⟨c.decorators ++ ds⟩ := by
  induction ds generalizing c with
  | nil => simp
  | cons d ds ih =>
    rw [List.foldl_cons, ih]
    simp [push]

end Chain

/-! ## Decorators that forward once -/

/-- What acts on a request, and then on the answer to what it forwards. The second act may depend on all that
the first one has seen. -/
abbrev Layer (σ : Type) : Type := Request → Timed σ (Request × (Outcome → Timed σ Outcome))

namespace Layer

def decorator (l : Layer σ) : Decorator σ := fun next r => do
  let (sent, receive) ← l r
  let answer ← next sent
  receive answer

/-- A request passes a layer. What the layer is going to do with the answer is left behind, in front of what
others have left. -/
def pass (p : Request × List (Outcome → Timed σ Outcome)) (l : Layer σ) :
    Timed σ (Request × List (Outcome → Timed σ Outcome)) := do
  let (sent, receive) ← l p.1
  return (sent, receive :: p.2)

def leave (pending : List (Outcome → Timed σ Outcome)) (answer : Outcome) : Timed σ Outcome :=
  pending.foldlM (fun answer receive => receive answer) answer

theorem wrap_bind_leave (ls : List (Layer σ)) (base : Executor σ) (r : Request)
    (pending : List (Outcome → Timed σ Outcome)) :
    ((Chain.mk (ls.map decorator)).wrap base r).bind (leave pending) =
      (ls.foldlM pass (r, pending)).bind fun p => (base p.1).bind (leave p.2) := by
  induction ls generalizing r pending with
  | nil => rfl
  | cons l ls ih =>
    rw [List.map_cons, Chain.wrap_cons, List.foldlM_cons]
    simp only [decorator, pass, Timed.bind_eq, Timed.bind_assoc, Timed.pure_eq, Timed.done_bind]
    congr 1
    funext p
    -- what this layer leaves behind comes after the answer has left the layers inside it
    exact ih p.1 (p.2 :: pending)

theorem wrap_eq (ls : List (Layer σ)) (base : Executor σ) (r : Request) :
    (Chain.mk (ls.map decorator)).wrap base r =
      (ls.foldlM pass (r, [])).bind fun p => (base p.1).bind (leave p.2) := by
  have hnothing : leave ([] : List (Outcome → Timed σ Outcome)) = Timed.done := rfl
  have hpassed := wrap_bind_leave ls base r []
  rw [hnothing, Timed.bind_done] at hpassed
  exact hpassed

end Layer

/-! ## Decorators that forward any number of times -/

/-- What a decorator does with a request: its own acts and waits, and what it forwards. -/
inductive Relay (σ α : Type) where
  | done (a : α)
  | act (change : σ → σ) (next : σ → Relay σ α)
  | wait (d : Duration) (next : Relay σ α)
  | forward (r : Request) (next : Outcome → Relay σ α)

namespace Relay

def through (next : Executor σ) : Relay σ α → Timed σ α
  | done a => .done a
  | act change t => .act change fun s => (t s).through next
  | wait d t => .wait d (t.through next)
  | forward r t => (next r).bind fun answer => (t answer).through next

def forwards (next : Executor σ) : Relay σ α → Nat → σ → Nat
  | done _, _, _ => 0
  | act change t, now, s => (t s).forwards next now (change s)
  | wait d t, now, s => t.forwards next (now + d.ticks) s
  | forward r t, now, s =>
    let answered := (next r).run now s
    (t answered.1).forwards next answered.2.1 answered.2.2 + 1

def after : Timed σ α → (α → Relay σ β) → Relay σ β
  | .done a, k => k a
  | .act change t, k => act change fun s => after (t s) k
  | .wait d t, k => wait d (after t k)

theorem through_after (next : Executor σ) (t : Timed σ α) (k : α → Relay σ β) :
    (after t k).through next = t.bind fun a => (k a).through next := by
  induction t with
  | done a => rfl
  | act change t ih => simp only [after, through, Timed.bind, ih]
  | wait d t ih => simp only [after, through, Timed.bind, ih]

theorem forwards_after (next : Executor σ) (t : Timed σ α) (k : α → Relay σ β) (now : Nat) (s : σ) :
    (after t k).forwards next now s = (k (t.run now s).1).forwards next (t.run now s).2.1 (t.run now s).2.2 := by
  induction t generalizing now s with
  | done a => rfl
  | act change t ih => exact ih s now (change s)
  | wait d t ih => exact ih (now + d.ticks) s

def recorded {ν : Type} : Relay σ α → Relay (Recorded ν σ) α
  | done a => done a
  | act change t => act (fun m => { m with store := change m.store }) fun m => (t m.store).recorded
  | wait d t => wait d t.recorded
  | forward r t => forward r fun answer => (t answer).recorded

end Relay

abbrev Plan (σ : Type) : Type := Request → Relay σ Outcome

namespace Plan

def decorator (p : Plan σ) : Decorator σ := fun next r => (p r).through next

def recorded {ν : Type} (p : Plan σ) : Plan (Recorded ν σ) := fun r => (p r).recorded

def twice : Plan σ := fun r => .forward r fun _ => .forward r .done

theorem decorator_twice : (twice : Plan σ).decorator = .twice := by
  funext next r
  have hlast : (next r).bind Timed.done = next r := Timed.bind_done (next r)
  exact congrArg (fun last => (next r).bind fun _ => last) hlast

/-- Around what comes after them, the decorators forward so many requests for each that they receive. -/
inductive Forward (base : Executor σ) : List (Plan σ) → List Nat → Prop
  | nil : Forward base [] []
  | cons {p : Plan σ} {k : Nat} {ps : List (Plan σ)} {ks : List Nat}
      (times : ∀ r now s, (p r).forwards ((Chain.mk (ps.map decorator)).wrap base) now s = k)
      (later : Forward base ps ks) : Forward base (p :: ps) (k :: ks)

end Plan

namespace Layer

def plan (l : Layer σ) : Plan σ := fun r =>
  .after (l r) fun p => .forward p.1 fun answer => .after (p.2 answer) .done

theorem decorator_plan (l : Layer σ) : l.plan.decorator = l.decorator := by
  funext next r
  have hreceive (t : Timed σ Outcome) : (Relay.after t .done).through next = t := by
    rw [Relay.through_after]
    exact Timed.bind_done t
  simp only [Plan.decorator, plan, Relay.through_after, Relay.through, hreceive]
  rfl

theorem forwards_plan (l : Layer σ) (next : Executor σ) (r : Request) (now : Nat) (s : σ) :
    (l.plan r).forwards next now s = 1 := by
  simp only [plan, Relay.forwards_after, Relay.forwards]

end Layer

def Executor.recorded {ν : Type} (e : Executor σ) : Executor (Recorded ν σ) := fun r =>
  (e r).within Recorded.store fun s m => { m with store := s }

def Decorator.noting (place : Nat) : Decorator (Recorded Nat σ) := fun next r => do
  Timed.modify fun m => { m with notes := m.notes ++ [place] }
  next r

def Plan.watched : List (Plan σ) → Nat → List (Decorator (Recorded Nat σ))
  | [], place => [.noting place]
  | p :: ps, place => .noting place :: p.recorded.decorator :: watched ps (place + 1)

/-- How often a place is asked for one request at the first of them. -/
def load : List Nat → Nat → Nat → Nat
  | [], first, place => if place = first then 1 else 0
  | k :: ks, first, place => (if place = first then 1 else 0) + k * load ks (first + 1) place

theorem load_of_lt (ks : List Nat) {first place : Nat} (h : place < first) : load ks first place = 0 := by
  induction ks generalizing first with
  | nil => simp [load, Nat.ne_of_lt h]
  | cons k ks ih => simp [load, Nat.ne_of_lt h, ih (Nat.lt_succ_of_lt h)]

theorem load_add {ks : List Nat} {j : Nat} (hj : j ≤ ks.length) (first : Nat) :
    load ks first (first + j) = (ks.take j).prod := by
  induction ks generalizing j first with
  | nil =>
    obtain rfl : j = 0 := by simpa using hj
    simp [load]
  | cons k ks ih =>
    cases j with
    | zero => simp [load, load_of_lt ks (Nat.lt_succ_self first)]
    | succ j =>
      have hlater := ih (Nat.le_of_succ_le_succ hj) (first + 1)
      rw [Nat.add_assoc, Nat.add_comm 1 j] at hlater
      simp [load, hlater]

/-- A watched executor answers as the executor does, and each request costs so many notes of each place. -/
def Costs (watched : Executor (Recorded Nat σ)) (next : Executor σ) (cost : Nat → Nat) : Prop :=
  ∀ r now m, ∃ notes, (watched r).run now m =
      (((next r).run now m.store).1, ((next r).run now m.store).2.1,
        ⟨((next r).run now m.store).2.2, m.notes ++ notes⟩) ∧
    ∀ place, notes.count place = cost place

variable {watched : Executor (Recorded Nat σ)} {next base : Executor σ} {cost : Nat → Nat}

theorem costs_recorded (base : Executor σ) : Costs base.recorded base fun _ => 0 := by
  intro r now m
  refine ⟨[], ?_, fun place => rfl⟩
  rw [List.append_nil]
  exact Recorded.run_within (base r) now m

theorem Costs.noting (h : Costs watched next cost) (first : Nat) :
    Costs (Decorator.noting first watched) next fun place => (if place = first then 1 else 0) + cost place := by
  intro r now m
  obtain ⟨notes, hrun, hcount⟩ := h r now { m with notes := m.notes ++ [first] }
  refine ⟨first :: notes, ?_, fun place => ?_⟩
  · simpa [Decorator.noting, Timed.modify, Timed.bind, Timed.run] using hrun
  · rw [List.count_cons, hcount, Nat.add_comm]
    by_cases heq : place = first
    · simp [heq]
    · simp [heq, Ne.symm heq]

theorem Costs.through (h : Costs watched next cost) (t : Relay σ α) (now : Nat) (m : Recorded Nat σ) :
    ∃ notes, (t.recorded.through watched).run now m =
        (((t.through next).run now m.store).1, ((t.through next).run now m.store).2.1,
          ⟨((t.through next).run now m.store).2.2, m.notes ++ notes⟩) ∧
      ∀ place, notes.count place = t.forwards next now m.store * cost place := by
  induction t generalizing now m with
  | done a => exact ⟨[], by simp [Relay.recorded, Relay.through, Timed.run], by simp [Relay.forwards]⟩
  | act change t ih => exact ih m.store now { m with store := change m.store }
  | wait d t ih => exact ih (now + d.ticks) m
  | forward r t ih =>
    obtain ⟨first, hrun, hcount⟩ := h r now m
    obtain ⟨later, hlater, hrest⟩ := ih ((next r).run now m.store).1 ((next r).run now m.store).2.1
      ⟨((next r).run now m.store).2.2, m.notes ++ first⟩
    refine ⟨first ++ later, ?_, fun place => ?_⟩
    · simp only [Relay.recorded, Relay.through, Timed.run_bind, hrun]
      rw [hlater, List.append_assoc]
    · rw [List.count_append, hcount, hrest, Relay.forwards, Nat.add_one_mul, Nat.add_comm]

theorem Costs.decorator (h : Costs watched next cost) {p : Plan σ} {k : Nat}
    (hp : ∀ r now s, (p r).forwards next now s = k) :
    Costs (p.recorded.decorator watched) (p.decorator next) fun place => k * cost place := by
  intro r now m
  obtain ⟨notes, hrun, hcount⟩ := h.through (p r) now m
  refine ⟨notes, hrun, fun place => ?_⟩
  rw [hcount, hp]

theorem costs_watched {ps : List (Plan σ)} {ks : List Nat} (h : Plan.Forward base ps ks) (first : Nat) :
    Costs ((Chain.mk (Plan.watched ps first)).wrap base.recorded) ((Chain.mk (ps.map Plan.decorator)).wrap base)
      (load ks first) := by
  induction h generalizing first with
  | nil => exact (costs_recorded base).noting first
  | cons times later ih => exact ((ih (first + 1)).decorator times).noting first

theorem Plan.Forward.length_eq {ps : List (Plan σ)} {ks : List Nat} (h : Plan.Forward base ps ks) :
    ks.length = ps.length := by
  induction h with
  | nil => rfl
  | cons times later ih => simp [ih]

/-- Chains of decorators around any base. A chain of two parts is the first part around the second. Layers are
passed by every request in the order of the chain and by its answer in the opposite order. One request makes each
decorator receive the product of the numbers before it. -/
theorem Chain.wrap_laws (base : Executor σ) :
    (∀ xs ys : List (Decorator σ),
      (Chain.mk (xs ++ ys)).wrap base = (Chain.mk xs).wrap ((Chain.mk ys).wrap base)) ∧
    ({} : Chain σ).wrap base = base ∧
    (∀ ds : List (Decorator σ), ds.foldl (fun c d => c.push d) {} = Chain.mk ds) ∧
    (∀ (ls : List (Layer σ)) (r : Request), (Chain.mk (ls.map Layer.decorator)).wrap base r = do
      let (sent, pending) ← ls.foldlM Layer.pass (r, [])
      let answer ← base sent
      Layer.leave pending answer) ∧
    ∀ (ps : List (Plan σ)) (ks : List Nat), Plan.Forward base ps ks → ∀ (r : Request) (now : Nat) (s : σ),
      let run := ((Chain.mk (ps.map Plan.decorator)).wrap base r).run now s
      ∃ notes, ((Chain.mk (Plan.watched ps 0)).wrap base.recorded r).run now { store := s } =
          (run.1, run.2.1, ⟨run.2.2, notes⟩) ∧
        ∀ j ≤ ps.length, notes.count j = (ks.take j).prod := by
  refine ⟨fun xs ys => wrap_append xs ys base, rfl, fun ds => foldl_push ds {},
    fun ls r => Layer.wrap_eq ls base r, ?_⟩
  intro ps ks hforward r now s run
  obtain ⟨notes, hrun, hcount⟩ := costs_watched hforward 0 r now { store := s }
  refine ⟨notes, hrun, fun j hj => ?_⟩
  have hload : load ks 0 (0 + j) = (ks.take j).prod := by
    apply load_add
    rw [hforward.length_eq]
    exact hj
  rw [Nat.zero_add] at hload
  rw [hcount, hload]

def Script.tracing (name : String) : Layer Script := fun r => do
  Timed.modify (record (.note (name ++ "-out")))
  return (r, fun answer => do
    Timed.modify (record (.note (name ++ "-in")))
    return answer)

/-- Two decorators that forward twice, with one between them that forwards once: the base is asked four times. -/
theorem doubled_laws :
    let ps : List (Plan Script) := [.twice, (Script.tracing "a").plan, .twice]
    ps.map Plan.decorator = [.twice, Script.trace "a", .twice] ∧
    Plan.Forward Script.executor ps [2, 1, 2] ∧ ∃ outcome time script notes,
      ((Chain.mk (ps.map Plan.decorator)).wrap Script.executor { uri := {} }).run 0 {} = (outcome, time, script) ∧
      ((Chain.mk (Plan.watched ps 0)).wrap (Executor.recorded Script.executor) { uri := {} }).run 0 { store := {} } =
        (outcome, time, ⟨script, notes⟩) ∧
      [0, 1, 2, 3].map (fun place => notes.count place) = [1, 2, 2, 4] := by
  intro ps
  have hdecorators : ps.map Plan.decorator = [.twice, Script.trace "a", .twice] := by
    simp only [ps, List.map_cons, List.map_nil, Plan.decorator_twice, Layer.decorator_plan]
    rfl
  have hforward : Plan.Forward Script.executor ps [2, 1, 2] :=
    .cons (fun _ _ _ => rfl) (.cons ((Script.tracing "a").forwards_plan _) (.cons (fun _ _ _ => rfl) .nil))
  obtain ⟨-, -, -, -, hcounts⟩ := Chain.wrap_laws Script.executor
  obtain ⟨notes, hrun, hcount⟩ := hcounts ps [2, 1, 2] hforward { uri := {} } 0 {}
  have hone : notes.count 0 = 1 := hcount 0 (by decide)
  have htwo : notes.count 1 = 2 := hcount 1 (by decide)
  have hbetween : notes.count 2 = 2 := hcount 2 (by decide)
  have hbase : notes.count 3 = 4 := hcount 3 (by decide)
  refine ⟨hdecorators, hforward, _, _, _, notes, rfl, hrun, ?_⟩
  simp [hone, htwo, hbetween, hbase]

end ObjectStorage.Http
