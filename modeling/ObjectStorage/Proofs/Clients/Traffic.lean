import ObjectStorage.Proofs.Clients.Accesses
import ObjectStorage.Proofs.Hedging.Outcomes

/-! # Traffic of clients

Any number of clients read and write one store, each access with a call of its own, and the events of all
calls come in any order. Every access that takes effect does so at one moment while it is under way, and what
a client reads or is told of a write is what the store held at that moment, or a fault.
-/
namespace ObjectStorage
open Hedging (Call Shared Event)

/-- A client of a store that others use too. What it has for itself, its limiter and its counters, is at its desk. -/
structure Patron where
  retry : RetryPolicy := {}
  hedging : HedgePolicy := {}
  cautious : retry.writePolicy ≠ .always := by decide
  desk : Nat := 0

def Patron.client (p : Patron) : Client FaultyMemory :=
  { retry := p.retry, hedging := p.hedging, backend := FaultyMemory.backend }

/-- An access that a client is called for: when it starts, and how long its caller waits. -/
structure Order where
  patron : Patron
  access : Access
  start : Nat := 0
  patience : Option Nat := none

namespace Order

/-- Only reads are hedged. -/
def policy (o : Order) : HedgePolicy :=
  match o.access with
  | .read _ => o.patron.hedging
  | .write _ => {}

def call (o : Order) : Call FaultyMemory o.access.Result :=
  { start := o.start, patience := o.patience, attempt := fun _ => o.access.work o.patron.client }

end Order

structure Operation where
  order : Order
  call : Call FaultyMemory order.access.Result

namespace Operation

def handle (now : Nat) (e : Event) (op : Operation) (s : Shared FaultyMemory) : Operation × Shared FaultyMemory :=
  let (call, s) := op.call.handle op.order.policy now e s
  (⟨op.order, call⟩, s)

def outcome? (op : Operation) : Option (Except StorageError op.order.access.Result) :=
  op.call.result?.bind Prod.snd

end Operation

structure Traffic where
  operations : List Operation
  desks : Nat → Shared Unit
  store : FaultyMemory

namespace Traffic

def opening (orders : List Order) (desks : Nat → Shared Unit) (store : FaultyMemory) : Traffic where
  operations := orders.map fun o => ⟨o, o.call⟩
  desks := desks
  store := store

def handle (t : Traffic) : Nat × Nat × Event → Traffic
  | (now, k, e) =>
    match t.operations[k]? with
    | none => t
    | some op =>
      let (after, s) := op.handle now e ((t.desks op.order.patron.desk).mapStore fun _ => t.store)
      { operations := t.operations.set k after
        desks := Function.update t.desks op.order.patron.desk (s.mapStore fun _ => ())
        store := s.world.store }

def play (t : Traffic) (es : Nat → Nat × Nat × Event) : Nat → Traffic
  | 0 => t
  | n + 1 => (t.play es n).handle (es n)

section Events
variable (t : Traffic) (es : Nat → Nat × Nat × Event)

def contents (n : Nat) : Contents := (t.play es n).store.contents

/-- The event of a number happens to an operation that is under way. -/
def Active (k n : Nat) : Prop :=
  (es n).2.1 = k ∧ ∃ op, (t.play es n).operations[k]? = some op ∧ op.call.IsRacing

/-- One of the calls that an operation has made took a fault. -/
def Took (k n : Nat) (f : Fault) : Prop :=
  ∃ j < n, t.Active es k j ∧ ∃ new, (t.play es j).store.faults = new ++ (t.play es (j + 1)).store.faults ∧ f ∈ new

/-- One of the calls that an operation has made was failed by a fault. -/
def Failed (k n : Nat) (e : StorageError) : Prop := ∃ f, t.Took es k n f ∧ f.error = some e

/-- How the attempts of an operation took effect: each at one moment at most, at which it was answered as it should
be. Nothing else that happens to the operation changes what the store holds. -/
structure Traced (k n : Nat) (a : Access) (stages : Nat → Stage a.Result) (moments : Nat → Option Nat) : Prop where
  answered : ∀ i j, moments i = some j → j < n ∧ t.Active es k j ∧
    (stages i).answer = some ((t.contents es j).reply a) ∧ t.contents es (j + 1) = (t.contents es j).after a
  unanswered : ∀ i, moments i = none → (stages i).answer = none
  quiet : ∀ j < n, (es j).2.1 = k → (∀ i, moments i ≠ some j) → t.contents es (j + 1) = t.contents es j
  taken : ∀ i, ∀ f ∈ (stages i).taken, t.Took es k n f

end Events

variable {t : Traffic} {es : Nat → Nat × Nat × Event} {k n : Nat}

theorem Took.mono {f : Fault} (h : t.Took es k n f) : t.Took es k (n + 1) f := by
  obtain ⟨j, hj, htook⟩ := h
  exact ⟨j, Nat.lt_succ_of_lt hj, htook⟩

section Traced
variable {a : Access} {stages : Nat → Stage a.Result} {moments : Nat → Option Nat}

theorem traced_zero (t : Traffic) (es : Nat → Nat × Nat × Event) (k : Nat) (a : Access) :
    t.Traced es k 0 a (fun _ => {}) fun _ => none where
  answered i j h := by cases h
  unanswered i h := rfl
  quiet j hj := absurd hj (Nat.not_lt_zero j)
  taken i f hf := by cases hf

theorem Traced.idle (h : t.Traced es k n a stages moments)
    (hquiet : (es n).2.1 = k → t.contents es (n + 1) = t.contents es n) :
    t.Traced es k (n + 1) a stages moments where
  answered i j hj := by
    obtain ⟨hlt, hanswered⟩ := h.answered i j hj
    exact ⟨Nat.lt_succ_of_lt hlt, hanswered⟩
  unanswered := h.unanswered
  quiet j hj hk hne := by
    rcases Nat.lt_succ_iff_lt_or_eq.1 hj with hlt | rfl
    · exact h.quiet j hlt hk hne
    · exact hquiet hk
  taken i f hf := (h.taken i f hf).mono

variable {i : Nat} {g : Stage a.Result}

theorem Traced.taken_update (h : t.Traced es k n a stages moments) (hactive : t.Active es k n) {new : List Fault}
    (hfaults : (t.play es n).store.faults = new ++ (t.play es (n + 1)).store.faults)
    (htaken : g.taken = (stages i).taken ++ new) :
    ∀ j, ∀ f ∈ (Function.update stages i g j).taken, t.Took es k (n + 1) f := by
  intro j f hf
  by_cases hji : j = i
  · subst hji
    rw [Function.update_self, htaken] at hf
    rcases List.mem_append.1 hf with hf | hf
    · exact (h.taken j f hf).mono
    · exact ⟨n, Nat.lt_succ_self n, hactive, new, hfaults, hf⟩
  · rw [Function.update_of_ne hji] at hf
    exact (h.taken j f hf).mono

theorem Traced.goes_on (h : t.Traced es k n a stages moments)
    (htaken : ∀ j, ∀ f ∈ (Function.update stages i g j).taken, t.Took es k (n + 1) f)
    (hanswer : g.answer = (stages i).answer) (hcontents : t.contents es (n + 1) = t.contents es n) :
    t.Traced es k (n + 1) a (Function.update stages i g) moments := by
  have hidle := h.idle fun _ => hcontents
  have hsame (j : Nat) : (Function.update stages i g j).answer = (stages j).answer := by
    by_cases hji : j = i
    · subst hji
      rw [Function.update_self, hanswer]
    · rw [Function.update_of_ne hji]
  refine ⟨?_, ?_, hidle.quiet, htaken⟩
  · intro j m hm
    rw [hsame]
    exact hidle.answered j m hm
  · intro j hj
    rw [hsame]
    exact hidle.unanswered j hj

theorem Traced.takes_effect (h : t.Traced es k n a stages moments) (hactive : t.Active es k n)
    (htaken : ∀ j, ∀ f ∈ (Function.update stages i g j).taken, t.Took es k (n + 1) f)
    (hnone : (stages i).answer = none) (hanswer : g.answer = some ((t.contents es n).reply a))
    (hcontents : t.contents es (n + 1) = (t.contents es n).after a) :
    t.Traced es k (n + 1) a (Function.update stages i g) (Function.update moments i (some n)) := by
  -- The attempt had no moment so far, since nothing answered it.
  have hfirst : ∀ m, moments i ≠ some m := by
    intro m hm
    have hsome := (h.answered i m hm).2.2.1
    rw [hnone] at hsome
    cases hsome
  refine ⟨?_, ?_, ?_, htaken⟩
  · intro j m hm
    by_cases hji : j = i
    · subst hji
      rw [Function.update_self] at hm ⊢
      cases hm
      exact ⟨Nat.lt_succ_self n, hactive, hanswer, hcontents⟩
    · rw [Function.update_of_ne hji] at hm ⊢
      obtain ⟨hlt, hanswered⟩ := h.answered j m hm
      exact ⟨Nat.lt_succ_of_lt hlt, hanswered⟩
  · intro j hj
    by_cases hji : j = i
    · subst hji
      rw [Function.update_self] at hj
      cases hj
    · rw [Function.update_of_ne hji] at hj ⊢
      exact h.unanswered j hj
  · intro j hj hk hne
    rcases Nat.lt_succ_iff_lt_or_eq.1 hj with hlt | rfl
    · refine h.quiet j hlt hk fun i' hi' => ?_
      by_cases hii : i' = i
      · subst hii
        exact hfirst j hi'
      · exact hne i' (by rwa [Function.update_of_ne hii])
    · exact absurd (Function.update_self i (some j) moments) (hne i)

theorem Traced.moved (h : t.Traced es k n a stages moments) (hactive : t.Active es k n)
    (hstep : a.protocol.step i (stages i) (t.play es n).store g (t.play es (n + 1)).store) :
    ∃ moments', t.Traced es k (n + 1) a (Function.update stages i g) moments' ∧
      ∀ j, j ≠ i → moments' j = moments j := by
  obtain ⟨⟨new, hfaults, htaken⟩, hchange⟩ := hstep
  have htook := h.taken_update hactive hfaults htaken
  rcases hchange with ⟨hanswer, hcontents⟩ | ⟨hnone, hanswer, hcontents⟩
  · exact ⟨moments, h.goes_on htook hanswer hcontents, fun j _ => rfl⟩
  · exact ⟨_, h.takes_effect hactive htook hnone hanswer hcontents, fun j hj => Function.update_of_ne hj _ _⟩

end Traced

/-- An operation accords with its history, and it is known how its attempts took effect. -/
def Sound (t : Traffic) (es : Nat → Nat × Nat × Event) (k n : Nat) (op : Operation) : Prop :=
  ∃ stages x moments,
    op.call.Accords op.order.policy op.order.access.protocol op.order.access.Ends stages x ∧
    t.Traced es k n op.order.access stages moments ∧
    ∀ i, op.call.attempts.length ≤ i → moments i = none

theorem handle_of_none {t : Traffic} {ev : Nat × Nat × Event} (h : t.operations[ev.2.1]? = none) :
    t.handle ev = t := by
  simp only [handle, h]

theorem handle_of_getElem? {t : Traffic} {ev : Nat × Nat × Event} {op : Operation}
    (h : t.operations[ev.2.1]? = some op) : ∃ s : Shared FaultyMemory, s.world.store = t.store ∧
      (t.handle ev).operations = t.operations.set ev.2.1 (op.handle ev.1 ev.2.2 s).1 ∧
      (t.handle ev).store = (op.handle ev.1 ev.2.2 s).2.world.store := by
  refine ⟨(t.desks op.order.patron.desk).mapStore fun _ => t.store, rfl, ?_, ?_⟩ <;> simp only [handle, h]

theorem Sound.idle {op : Operation} (h : t.Sound es k n op)
    (hquiet : (es n).2.1 = k → t.contents es (n + 1) = t.contents es n) : t.Sound es k (n + 1) op := by
  obtain ⟨stages, x, moments, haccords, htraced, hlate⟩ := h
  exact ⟨stages, x, moments, haccords, htraced.idle hquiet, hlate⟩

theorem Sound.handle {op : Operation} (h : t.Sound es k n op) (hop : (t.play es n).operations[k]? = some op)
    (hk : (es n).2.1 = k) {s : Shared FaultyMemory} (hs : s.world.store = (t.play es n).store)
    (hvalid : ∀ f ∈ (t.play es n).store.faults, f.Fair)
    (hstore : (t.play es (n + 1)).store = (op.handle (es n).1 (es n).2.2 s).2.world.store) :
    t.Sound es k (n + 1) (op.handle (es n).1 (es n).2.2 s).1 ∧
      ∀ f ∈ (t.play es (n + 1)).store.faults, f.Fair := by
  obtain ⟨stages, x, moments, haccords, htraced, hlate⟩ := h
  have hvalid' : op.order.access.protocol.valid s.world.store := by
    rw [hs]
    exact hvalid
  obtain ⟨later, hlater, hstep⟩ := haccords.handle (es n).1 (es n).2.2 hvalid'
  have hlength := Call.length_le_handle op.order.policy (es n).1 (es n).2.2 op.call s
  have hafter : (t.play es (n + 1)).store =
      (op.call.handle op.order.policy (es n).1 (es n).2.2 s).2.world.store := hstore
  rw [hs, ← hafter] at hstep
  generalize hrecord : op.call.record op.order.policy (es n).1 (es n).2.2 s = y at hlater hstep
  generalize hnext : (t.play es (n + 1)).store = store at hstep hafter ⊢
  cases hstep with
  | quiet _ =>
    refine ⟨⟨stages, x ++ y, moments, hlater, htraced.idle fun _ => ?_, fun i hi => hlate i (hlength.trans hi)⟩, hvalid⟩
    exact congrArg FaultyMemory.contents hnext
  | @moved i g after y racing running valid step _ =>
    subst hnext
    obtain ⟨moments', htraced', hothers⟩ := htraced.moved ⟨hk, op, hop, racing⟩ step
    refine ⟨⟨_, x ++ y, moments', hlater, htraced', ?_⟩, valid⟩
    intro j hj
    have hlt := running.lt
    have hji : j ≠ i := by
      rintro rfl
      exact absurd (hlength.trans hj) (Nat.not_le.2 hlt)
    rw [hothers j hji]
    exact hlate j (hlength.trans hj)

theorem sound_succ (hvalid : ∀ f ∈ (t.play es n).store.faults, f.Fair)
    (hsound : ∀ k op, (t.play es n).operations[k]? = some op → t.Sound es k n op) :
    (∀ f ∈ (t.play es (n + 1)).store.faults, f.Fair) ∧
      ∀ k op, (t.play es (n + 1)).operations[k]? = some op → t.Sound es k (n + 1) op := by
  cases hev : (t.play es n).operations[(es n).2.1]? with
  | none =>
    have hsame : t.play es (n + 1) = t.play es n := handle_of_none hev
    refine ⟨by rwa [hsame], fun k op hop => (hsound k op (by rwa [← hsame])).idle fun _ => ?_⟩
    exact congrArg (fun u => u.store.contents) hsame
  | some op =>
    obtain ⟨s, hs, hoperations, hstore⟩ := handle_of_getElem? hev
    obtain ⟨hnew, hfaults⟩ := (hsound _ op hev).handle hev rfl hs hvalid hstore
    refine ⟨hfaults, fun k op' hop' => ?_⟩
    rw [play, hoperations] at hop'
    by_cases hk : (es n).2.1 = k
    · subst hk
      obtain ⟨hlt, -⟩ := List.getElem?_eq_some_iff.1 hev
      obtain rfl : (op.handle (es n).1 (es n).2.2 s).1 = op' := by simpa [hlt] using hop'
      exact hnew
    · rw [List.getElem?_set_ne hk] at hop'
      exact (hsound k op' hop').idle fun heq => absurd heq hk

theorem opening_sound (orders : List Order) (desks : Nat → Shared Unit) {store : FaultyMemory}
    (hfair : ∀ f ∈ store.faults, f.Fair) (es : Nat → Nat × Nat × Event) (n : Nat) :
    (∀ f ∈ ((opening orders desks store).play es n).store.faults, f.Fair) ∧
      ∀ k op, ((opening orders desks store).play es n).operations[k]? = some op →
        (opening orders desks store).Sound es k n op := by
  induction n with
  | zero =>
    refine ⟨hfair, fun k op hop => ?_⟩
    simp only [play, opening, List.getElem?_map, Option.map_eq_some_iff] at hop
    obtain ⟨o, -, rfl⟩ := hop
    exact ⟨_, {}, _, .of_fresh o.policy ⟨rfl, rfl⟩ fun n => o.access.follows_work rfl o.patron.cautious n,
      traced_zero _ es k o.access, fun _ _ => rfl⟩
  | succ n ih => exact sound_succ ih.1 ih.2

end Traffic
end ObjectStorage
