import ObjectStorage.Proofs.Hedging.Progress

/-! # Punctual schedules

A punctual schedule leaves nothing undone for longer than the clock lets it: each event is due when it happens,
and nothing was due before. Of what is due at one time anything may happen first. The clock is punctual, and no
punctual schedule goes on for ever.
-/
namespace ObjectStorage.Hedging
open Race (Step History)

variable {σ α : Type}

namespace Call
variable {p : HedgePolicy} {c : Call σ α} {now t : Nat} {e : Event}

/-- When an event is due for a call. -/
def DueAt (p : HedgePolicy) (now : Nat) (e : Event) (c : Call σ α) : Prop :=
  match e with
  | .start => c.phase = .upcoming ∧ now = c.start
  | .advance i => (∃ race timer, c.phase = .racing race timer) ∧
      ∃ started rest, c.attempts[i]? = some ⟨started, .running now rest⟩
  | .observe i => p.enabled = true ∧ (∃ race timer, c.phase = .racing race timer) ∧
      ∃ started outcome, c.attempts[i]? = some ⟨started, .unseen now outcome⟩
  | .timer => p.enabled = true ∧ ∃ race, c.phase = .racing race now ∧ race.rounds < p.upTo
  | .drop => (∃ race timer, c.phase = .racing race timer) ∧
      ∃ patience, c.patience = some patience ∧ now = c.start + patience

theorem eq_start_of_dueAt (hph : c.phase = .upcoming) (hdue : c.DueAt p now e) : e = .start ∧ now = c.start := by
  cases e with
  | start => exact ⟨rfl, hdue.2⟩
  | advance i => simp [DueAt, hph] at hdue
  | observe i => simp [DueAt, hph] at hdue
  | timer => simp [DueAt, hph] at hdue
  | drop => simp [DueAt, hph] at hdue

theorem dueAt_iff_mem {race : Race} {timer : Nat} (hph : c.phase = .racing race timer) :
    c.DueAt p now e ↔ some (now, e) ∈ (c.attempts.zipIdx.map fun (a, i) => a.next? p i) ++
      [if p.enabled && race.rounds < p.upTo then some (timer, .timer) else none,
        c.patience.map fun patience => (c.start + patience, .drop)] := by
  simp only [List.mem_append, List.mem_map, Prod.exists, List.mem_zipIdx_iff_getElem?, List.mem_cons,
    List.not_mem_nil, or_false, next?_eq_some]
  cases e with
  | start =>
    simp only [DueAt, hph, reduceCtorEq, false_and, false_iff, not_or, not_exists]
    refine ⟨by simp, by split <;> simp, by simp⟩
  | advance i =>
    simp only [DueAt, hph]
    constructor
    · rintro ⟨-, started, rest, hat⟩
      exact .inl ⟨_, i, hat, .inl ⟨rfl, rest, rfl⟩⟩
    · rintro (⟨⟨started, standing⟩, j, hat, ⟨⟨⟩, rest, rfl⟩ | ⟨⟨⟩, -⟩⟩ | hevent | hevent)
      · exact ⟨⟨race, timer, rfl⟩, started, rest, hat⟩
      · split at hevent <;> cases hevent
      · simp at hevent
  | observe i =>
    simp only [DueAt, hph]
    constructor
    · rintro ⟨hp, -, started, outcome, hat⟩
      exact .inl ⟨_, i, hat, .inr ⟨rfl, hp, outcome, rfl⟩⟩
    · rintro (⟨⟨started, standing⟩, j, hat, ⟨⟨⟩, -⟩ | ⟨⟨⟩, hp, outcome, rfl⟩⟩ | hevent | hevent)
      · exact ⟨hp, ⟨race, timer, rfl⟩, started, outcome, hat⟩
      · split at hevent <;> cases hevent
      · simp at hevent
  | timer =>
    simp only [DueAt, hph]
    constructor
    · rintro ⟨hp, race', ⟨rfl, rfl⟩, hmore⟩
      exact .inr (.inl (by simp [hp, hmore]))
    · rintro (⟨a, j, -, ⟨⟨⟩, -⟩ | ⟨⟨⟩, -⟩⟩ | hevent | hevent)
      · split at hevent
        · rename_i hcond
          cases hevent
          simp only [Bool.and_eq_true, decide_eq_true_eq] at hcond
          exact ⟨hcond.1, race, rfl, hcond.2⟩
        · cases hevent
      · simp at hevent
  | drop =>
    simp only [DueAt, hph]
    constructor
    · rintro ⟨-, patience, hpatience, rfl⟩
      exact .inr (.inr (by simp [hpatience]))
    · rintro (⟨a, j, -, ⟨⟨⟩, -⟩ | ⟨⟨⟩, -⟩⟩ | hevent | hevent)
      · split at hevent <;> cases hevent
      · obtain ⟨patience, hpatience, heq⟩ := Option.map_eq_some_iff.1 hevent.symm
        cases heq
        exact ⟨⟨race, timer, rfl⟩, patience, hpatience, rfl⟩

theorem not_dueAt_of_ended {time : Nat} {closing : Closing α} (hph : c.phase = .ended time closing) :
    ¬c.DueAt p now e := by
  cases e <;> simp [DueAt, hph]

theorem dueAt_of_next? (h : c.next? p = some (now, e)) : c.DueAt p now e := by
  unfold next? at h
  split at h
  · rename_i hph
    cases h
    exact ⟨hph, rfl⟩
  · rename_i race timer hph
    exact (dueAt_iff_mem hph).2 (mem_of_soonest h)
  · cases h

/-- The clock comes to what is due no later than it is due. -/
theorem exists_next? (hdue : c.DueAt p t e) : ∃ now e', c.next? p = some (now, e') ∧ now ≤ t := by
  unfold next?
  split
  · rename_i hph
    exact ⟨_, _, rfl, Nat.le_of_eq (eq_start_of_dueAt hph hdue).2.symm⟩
  · rename_i race timer hph
    obtain ⟨⟨now, e'⟩, hfirst, hle⟩ := exists_foldl_sooner (a := none) (.inr ((dueAt_iff_mem hph).1 hdue))
    exact ⟨now, e', hfirst, hle⟩
  · rename_i hph
    exact absurd hdue (not_dueAt_of_ended hph)

theorem handle_declines_of_dueAt (hdue : c.DueAt p now e) (t : Nat) (s : Shared σ) :
    (c.handle p t e s).1.Declines p c := by
  cases e with
  | start => exact handle_declines (e := .start) hdue.1 t s
  | advance i =>
    obtain ⟨hracing, started, rest, hat⟩ := hdue
    exact handle_declines (e := .advance i) ⟨hracing, started, now, rest, hat⟩ t s
  | observe i =>
    obtain ⟨hp, hracing, started, outcome, hat⟩ := hdue
    exact handle_declines (e := .observe i) ⟨hp, hracing, started, now, outcome, hat⟩ t s
  | timer =>
    obtain ⟨hp, race, hph, hmore⟩ := hdue
    exact handle_declines (e := .timer) ⟨hp, race, now, hph, hmore⟩ t s
  | drop =>
    obtain ⟨⟨race, timer, hph⟩, -⟩ := hdue
    simp only [handle, hph]
    exact declines_finish hph c t .dropped

end Call

namespace Hall
variable {h : Hall σ α} {now i k : Nat} {e : Event}

/-- Each event of the schedule is due for its call when it happens, and nothing is due before. -/
def Punctual : List (Nat × Nat × Event) → Hall σ α → Prop
  | [], _ => True
  | (now, i, e) :: es, h =>
    (∃ c, h.calls[i]? = some c ∧ c.DueAt h.policy now e) ∧
      (∀ c ∈ h.calls, ∀ t e', c.DueAt h.policy t e' → now ≤ t) ∧ Punctual es (h.handle now i e)

theorem punctual_append {es more : List (Nat × Nat × Event)} :
    Punctual (es ++ more) h ↔ Punctual es h ∧ Punctual more (h.play es) := by
  induction es generalizing h with
  | nil => simp [Punctual, play]
  | cons ev es ih =>
    obtain ⟨now, i, e⟩ := ev
    simp only [List.cons_append, Punctual, play_cons, ih, and_assoc]

theorem dueAt_of_next? (hn : h.next? = some (now, i, e)) :
    (∃ c, h.calls[i]? = some c ∧ c.DueAt h.policy now e) ∧
      ∀ c ∈ h.calls, ∀ t e', c.DueAt h.policy t e' → now ≤ t := by
  obtain ⟨c, hc, hnext⟩ := next?_call hn
  refine ⟨⟨c, hc, Call.dueAt_of_next? hnext⟩, ?_⟩
  intro d hd t e' hdue
  obtain ⟨t', e'', hnext', hle⟩ := Call.exists_next? hdue
  obtain ⟨j, hj⟩ := List.getElem?_of_mem hd
  have hsooner := Call.soonest_le hn
    (List.mem_map.2 ⟨(d, j), List.mem_zipIdx_iff_getElem?.2 hj, congrArg (Option.map _) hnext'⟩)
  exact Nat.le_trans hsooner hle

theorem Timely.punctual {es : List (Nat × Nat × Event)} (hes : Timely es h) : Punctual es h := by
  induction es generalizing h with
  | nil => trivial
  | cons ev es ih =>
    obtain ⟨now, i, e⟩ := ev
    obtain ⟨hdue, hfirst⟩ := dueAt_of_next? hes.1
    exact ⟨hdue, hfirst, ih hes.2⟩

/-! ## The end of a hall -/

def Declines (later h : Hall σ α) : Prop :=
  later.policy = h.policy ∧ Relation.CutExpand (Call.Declines h.policy) (.ofList later.calls) (.ofList h.calls)

theorem wellFounded_declines : WellFounded (Declines : Hall σ α → Hall σ α → Prop) := by
  refine ⟨fun h => ?_⟩
  obtain ⟨p, hp⟩ : ∃ p, h.policy = p := ⟨_, rfl⟩
  generalize hcalls : (Multiset.ofList h.calls) = calls
  induction calls using (Call.wellFounded_declines p).cutExpand.induction generalizing h with
  | _ calls ih =>
    subst hp hcalls
    refine ⟨_, fun later hless => ?_⟩
    exact ih _ hless.2 later hless.1 rfl

theorem handle_declines {c : Call σ α} (hc : h.calls[i]? = some c) (hdue : c.DueAt h.policy now e) :
    (h.handle now i e).Declines h := by
  refine ⟨handle_policy h now i e, ?_⟩
  obtain ⟨hlt, rfl⟩ := List.getElem?_eq_some_iff.1 hc
  rw [handle_of_getElem? hc]
  -- The calls are the same but for one, which makes room for a call of which less is left.
  have hbefore : Multiset.ofList h.calls = h.calls[i] ::ₘ .ofList (h.calls.eraseIdx i) :=
    (Multiset.coe_eq_coe.2 (List.getElem_cons_eraseIdx_perm hlt)).symm
  have hafter (d : Call σ α) : Multiset.ofList (h.calls.set i d) = d ::ₘ .ofList (h.calls.eraseIdx i) :=
    Multiset.coe_eq_coe.2 (List.set_perm_cons_eraseIdx hlt d)
  refine ⟨{(h.calls[i].handle h.policy now e h.shared).1}, h.calls[i], ?_, ?_⟩
  · intro d hd
    rw [Multiset.mem_singleton.1 hd]
    exact Call.handle_declines_of_dueAt hdue now h.shared
  · rw [hafter, hbefore, Multiset.add_comm, Multiset.singleton_add, Multiset.add_comm, Multiset.singleton_add,
      Multiset.cons_swap]

/-- The clock comes to an end, whatever is going on. -/
theorem run_stops (h : Hall σ α) : ∃ N, ∀ fuel ≥ N, (Hall.run fuel h).next? = none := by
  induction h using wellFounded_declines.induction with
  | _ h ih =>
    cases hnext : h.next? with
    | none =>
      refine ⟨0, fun fuel _ => ?_⟩
      rw [run_of_next?_eq_none hnext]
      exact hnext
    | some event =>
      obtain ⟨now, i, e⟩ := event
      obtain ⟨⟨c, hc, hdue⟩, -⟩ := dueAt_of_next? hnext
      obtain ⟨N, hN⟩ := ih _ (handle_declines hc hdue)
      refine ⟨N + 1, fun fuel hfuel => ?_⟩
      obtain ⟨fuel, rfl⟩ : ∃ n, fuel = n + 1 := ⟨fuel - 1, by omega⟩
      rw [run, hnext]
      exact hN fuel (by omega)

/-- No punctual schedule goes on for ever. -/
theorem exists_not_punctual (h : Hall σ α) (f : Nat → Nat × Nat × Event) :
    ∃ n, ¬Punctual ((List.range n).map f) h := by
  by_contra hall
  push Not at hall
  refine (wellFounded_iff_isEmpty_descending_chain.1 (wellFounded_declines (σ := σ) (α := α))).false
    ⟨fun n => h.after f n, fun n => ?_⟩
  have hnext := hall (n + 1)
  rw [List.range_succ, List.map_append, punctual_append, ← after_eq_play] at hnext
  obtain ⟨⟨c, hc, hdue⟩, -⟩ := hnext.2
  exact handle_declines hc hdue

end Hall
end ObjectStorage.Hedging
