import ObjectStorage.Proofs.Hedging.Calls

/-! # What is due

The clock plays the events that are due, the soonest first. A schedule that the clock plays is told by
this alone, so a hall that runs plays it whatever the fuel is counted for.
-/
namespace ObjectStorage.Hedging

variable {σ α ε : Type}

namespace Call

theorem sooner_eq (a b : Option (Nat × ε)) : sooner a b = a ∨ sooner a b = b := by
  unfold sooner
  split
  · exact .inr rfl
  · exact .inl rfl
  · split
    · exact .inr rfl
    · exact .inl rfl

theorem sooner_eq_none {a b : Option (Nat × ε)} : sooner a b = none ↔ a = none ∧ b = none := by
  cases a with
  | none => simp [sooner]
  | some a =>
    cases b with
    | none => simp [sooner]
    | some b => by_cases hlt : b.1 < a.1 <;> simp [sooner, hlt]

theorem foldl_sooner {a b : Option (Nat × ε)} {events : List (Option (Nat × ε))}
    (h : events.foldl sooner a = b) : b = a ∨ b ∈ events := by
  induction events generalizing a with
  | nil => exact .inl h.symm
  | cons event events ih =>
    rcases ih h with rfl | hmem
    · exact (sooner_eq a event).imp_right fun heq => by simp [heq]
    · exact .inr (List.mem_cons_of_mem _ hmem)

theorem mem_of_soonest {events : List (Option (Nat × ε))} {event : Nat × ε} (h : soonest events = some event) :
    some event ∈ events :=
  (foldl_sooner h).resolve_left (by simp)

theorem exists_sooner {a b : Option (Nat × ε)} {event : Nat × ε} (hevent : a = some event ∨ b = some event) :
    ∃ first, sooner a b = some first ∧ first.1 ≤ event.1 := by
  unfold sooner
  split
  · exact ⟨event, hevent.resolve_left (by simp), Nat.le_refl _⟩
  · exact ⟨event, hevent.resolve_right (by simp), Nat.le_refl _⟩
  · split
    · rename_i hlt
      refine ⟨_, rfl, ?_⟩
      rcases hevent with ⟨⟨⟩⟩ | ⟨⟨⟩⟩
      · exact Nat.le_of_lt hlt
      · exact Nat.le_refl _
    · rename_i hge
      refine ⟨_, rfl, ?_⟩
      rcases hevent with ⟨⟨⟩⟩ | ⟨⟨⟩⟩
      · exact Nat.le_refl _
      · exact Nat.not_lt.1 hge

theorem exists_foldl_sooner {a : Option (Nat × ε)} {events : List (Option (Nat × ε))} {event : Nat × ε}
    (hevent : a = some event ∨ some event ∈ events) :
    ∃ first, events.foldl sooner a = some first ∧ first.1 ≤ event.1 := by
  induction events generalizing a event with
  | nil => exact ⟨event, hevent.resolve_right List.not_mem_nil, Nat.le_refl _⟩
  | cons next events ih =>
    rw [List.mem_cons, ← or_assoc] at hevent
    rcases hevent with hhead | hlater
    · obtain ⟨kept, hkept, hle⟩ := exists_sooner (hhead.imp_right Eq.symm)
      obtain ⟨first, hfirst, hle'⟩ := ih (.inl hkept)
      exact ⟨first, hfirst, Nat.le_trans hle' hle⟩
    · exact ih (.inr hlater)

theorem soonest_le {events : List (Option (Nat × ε))} {event first : Nat × ε} (h : soonest events = some first)
    (hevent : some event ∈ events) : first.1 ≤ event.1 := by
  obtain ⟨_, hfirst, hle⟩ := exists_foldl_sooner (a := none) (.inr hevent)
  cases h.symm.trans hfirst
  exact hle

theorem soonest_eq_none {events : List (Option (Nat × ε))} :
    soonest events = none ↔ ∀ event ∈ events, event = none := by
  have hfold (a : Option (Nat × ε)) :
      events.foldl sooner a = none ↔ a = none ∧ ∀ event ∈ events, event = none := by
    induction events generalizing a with
    | nil => simp
    | cons event events ih => simp [ih, sooner_eq_none, and_assoc]
  simp [soonest, hfold]

def IsUnseen (c : Call σ α) (i : Nat) : Prop :=
  ∃ started time outcome, c.attempts[i]? = some ⟨started, .unseen time outcome⟩

/-- What a call goes on by: its start, what is next for its attempts, and its timer while rounds are left. -/
def Due (p : HedgePolicy) (e : Event) (c : Call σ α) : Prop :=
  match e with
  | .start => c.phase = .upcoming
  | .advance i => (∃ race timer, c.phase = .racing race timer) ∧ c.IsRunning i
  | .observe i => p.enabled = true ∧ (∃ race timer, c.phase = .racing race timer) ∧ c.IsUnseen i
  | .timer => p.enabled = true ∧ ∃ race timer, c.phase = .racing race timer ∧ race.rounds < p.upTo
  | .drop => False

theorem next?_eq_some {p : HedgePolicy} {a : Attempt σ α} {i now : Nat} {e : Event} :
    a.next? p i = some (now, e) ↔ e = .advance i ∧ (∃ rest, a.standing = .running now rest) ∨
      e = .observe i ∧ p.enabled = true ∧ ∃ outcome, a.standing = .unseen now outcome := by
  rcases a with ⟨started, standing⟩
  cases standing with
  | running due rest =>
    simp only [Attempt.next?, Option.some.injEq, Prod.mk.injEq, Standing.running.injEq]
    grind
  | unseen time outcome =>
    simp only [Attempt.next?, Standing.unseen.injEq]
    grind
  | completed | panicked | aborted => simp [Attempt.next?]

theorem due_of_next? {p : HedgePolicy} {c : Call σ α} {now : Nat} {e : Event} (hpatience : c.patience = none)
    (h : c.next? p = some (now, e)) : c.Due p e := by
  unfold next? at h
  split at h
  · rename_i hph
    cases h
    exact hph
  · rename_i race timer hph
    have hmem := mem_of_soonest h
    simp only [hpatience, Option.map_none, List.mem_append, List.mem_map, Prod.exists, List.mem_zipIdx_iff_getElem?,
      List.mem_cons, reduceCtorEq, List.not_mem_nil, or_false] at hmem
    rcases hmem with ⟨a, i, hat, hdue⟩ | htimer
    · rcases next?_eq_some.1 hdue with ⟨rfl, rest, hstanding⟩ | ⟨rfl, hp, outcome, hstanding⟩
      · exact ⟨⟨race, timer, hph⟩, a.started, now, rest, by rw [hat, ← hstanding]⟩
      · exact ⟨hp, ⟨race, timer, hph⟩, a.started, now, outcome, by rw [hat, ← hstanding]⟩
    · split at htimer
      · rename_i hmore
        cases htimer
        simp only [Bool.and_eq_true, decide_eq_true_eq] at hmore
        exact ⟨hmore.1, race, _, hph, hmore.2⟩
      · cases htimer
  · cases h

theorem next?_ne_none {p : HedgePolicy} {c : Call σ α} {e : Event} (h : c.Due p e) : c.next? p ≠ none := by
  intro hnone
  have hidle {race : Race} {timer i : Nat} {a : Attempt σ α} (hph : c.phase = .racing race timer)
      (hat : c.attempts[i]? = some a) : a.next? p i = none := by
    simp only [next?, hph, soonest_eq_none] at hnone
    exact hnone (a.next? p i) (List.mem_append_left _ (List.mem_map.2
      ⟨(a, i), List.mem_zipIdx_iff_getElem?.2 hat, rfl⟩))
  cases e with
  | start =>
    have hph : c.phase = .upcoming := h
    simp [next?, hph] at hnone
  | advance i =>
    obtain ⟨⟨race, timer, hph⟩, started, due, rest, hat⟩ := h
    cases hidle hph hat
  | observe i =>
    obtain ⟨hp, ⟨race, timer, hph⟩, started, time, outcome, hat⟩ := h
    have hseen := hidle hph hat
    simp [Attempt.next?, hp] at hseen
  | timer =>
    obtain ⟨hp, race, timer, hph, hmore⟩ := h
    simp only [next?, hph, soonest_eq_none, hp, hmore] at hnone
    have hevent := hnone (some (timer, .timer)) (by simp)
    cases hevent
  | drop => exact h

end Call

namespace Hall

/-- Each event of the schedule is due when it happens, before all others. -/
def Timely : List (Nat × Nat × Event) → Hall σ α → Prop
  | [], _ => True
  | (now, i, e) :: es, h => h.next? = some (now, i, e) ∧ Timely es (h.handle now i e)

theorem run_of_next?_eq_none {h : Hall σ α} (hnone : h.next? = none) (fuel : Nat) : Hall.run fuel h = h := by
  cases fuel with
  | zero => rfl
  | succ fuel => rw [run, hnone]

theorem run_of_timely {es : List (Nat × Nat × Event)} {h : Hall σ α} (hes : Timely es h) (more : Nat) :
    Hall.run (more + es.length) h = Hall.run more (h.play es) := by
  induction es generalizing h with
  | nil => rfl
  | cons ev es ih =>
    obtain ⟨now, i, e⟩ := ev
    obtain ⟨hnext, hrest⟩ := hes
    rw [List.length_cons, ← Nat.add_assoc, run, hnext, play_cons]
    exact ih hrest

theorem exists_timely (fuel : Nat) (h : Hall σ α) :
    ∃ es : List (Nat × Nat × Event), Timely es h ∧ Hall.run fuel h = h.play es := by
  induction fuel generalizing h with
  | zero => exact ⟨[], trivial, rfl⟩
  | succ fuel ih =>
    unfold run
    cases hn : h.next? with
    | none => exact ⟨[], trivial, rfl⟩
    | some ev =>
      obtain ⟨now, i, e⟩ := ev
      obtain ⟨es, hes, hrun⟩ := ih (h.handle now i e)
      exact ⟨(now, i, e) :: es, ⟨hn, hes⟩, hrun⟩

/-- What is due next in a hall is due next for one of its calls. -/
theorem next?_call {h : Hall σ α} {now i : Nat} {e : Event} (hn : h.next? = some (now, i, e)) :
    ∃ c, h.calls[i]? = some c ∧ c.next? h.policy = some (now, e) := by
  have hmem := Call.mem_of_soonest hn
  simp only [List.mem_map, Prod.exists, List.mem_zipIdx_iff_getElem?] at hmem
  obtain ⟨c, j, hc, hevent⟩ := hmem
  obtain ⟨⟨time, event⟩, hnext, heq⟩ := Option.map_eq_some_iff.1 hevent
  cases heq
  exact ⟨c, hc, hnext⟩

theorem next?_eq_none {h : Hall σ α} : h.next? = none ↔ ∀ c ∈ h.calls, c.next? h.policy = none := by
  constructor
  · intro hnone c hc
    obtain ⟨i, hi⟩ := List.getElem?_of_mem hc
    have hevent := Call.soonest_eq_none.1 hnone _
      (List.mem_map.2 ⟨(c, i), List.mem_zipIdx_iff_getElem?.2 hi, rfl⟩)
    simpa using hevent
  · intro hnone
    refine Call.soonest_eq_none.2 ?_
    rintro _ hevent
    obtain ⟨⟨c, i⟩, hci, rfl⟩ := List.mem_map.1 hevent
    simp [hnone c (List.mem_of_getElem? (List.mem_zipIdx_iff_getElem?.1 hci))]

theorem next?_alone {h : Hall σ α} {c : Call σ α} (hc : h.calls = [c]) :
    h.next? = (c.next? h.policy).map fun (now, e) => (now, 0, e) := by
  have hsoonest : h.next? = Call.sooner none ((c.next? h.policy).map fun (now, e) => (now, 0, e)) := by
    rw [next?, hc]
    rfl
  rw [hsoonest]
  cases c.next? h.policy <;> rfl

end Hall
end ObjectStorage.Hedging
