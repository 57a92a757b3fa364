import ObjectStorage.Proofs.Hedging.Workload
import ObjectStorage.Proofs.Work.Accounts

/-! # The books of a hedged call

One call of the store is due to each attempt when it is launched. An attempt that runs owes what it still has to
make, one that came to its end owes nothing, and one that was aborted owes what it owed where it stood: the hedges
issued and the retries counted may have announced calls that were never made.
-/
namespace ObjectStorage.Hedging
open Race (Step History)

variable {σ α : Type}

namespace Attempt

def Ended (a : Attempt σ α) : Prop :=
  match a.standing with
  | .unseen _ _ | .completed _ | .panicked => True
  | .running _ _ | .aborted => False

def isAborted (a : Attempt σ α) : Bool :=
  match a.standing with
  | .aborted => true
  | _ => false

theorem ended_abort {a : Attempt σ α} (h : a.abort.Ended) : a.Ended := by
  rcases a with ⟨started, standing⟩
  cases standing with
  | unseen => trivial
  | running | completed | panicked | aborted => exact h

end Attempt

theorem sum_range_update (f : Nat → Nat) {i n : Nat} (hi : i < n) (g : Nat) :
    (∑ j ∈ Finset.range n, Function.update f i g j) + f i = (∑ j ∈ Finset.range n, f j) + g := by
  have hmem := Finset.mem_range.2 hi
  have hsplit := Finset.add_sum_erase _ f hmem
  rw [Finset.sum_update_of_mem hmem, Finset.sdiff_singleton_eq_erase]
  omega

/-- What holds of a call that runs alone, of its history and of what it works on is kept by every schedule, if
every event that happens to the call keeps it. -/
theorem Hall.play_alone {p : HedgePolicy} {P : Call σ α → History α → Shared σ → Prop}
    (step : ∀ c x s now e, P c x s → P (c.handle p now e s).1 (x ++ c.record p now e s) (c.handle p now e s).2)
    {c : Call σ α} {x : History α} {s : Shared σ} (hx : P c x s) (es : List (Nat × Nat × Event)) :
    ∃ d, (Hall.play ⟨p, [c], s⟩ es).calls = [d] ∧
      P d (x ++ Hall.history 0 es ⟨p, [c], s⟩) (Hall.play ⟨p, [c], s⟩ es).shared := by
  induction es generalizing c x s with
  | nil =>
    refine ⟨c, rfl, ?_⟩
    rwa [history, History.append_empty]
  | cons ev es ih =>
    obtain ⟨now, i, e⟩ := ev
    rw [play_cons]
    cases i with
    | zero =>
      rw [history_cons_self rfl, ← History.append_assoc]
      exact ih (step c x s now e hx)
    | succ i =>
      rw [history_cons_of_ne (Nat.succ_ne_zero i), handle_of_none rfl]
      exact ih hx

namespace Call

variable {operation : String} {owed : Nat → Nat} {c : Call (Recorded Request σ) α} {x y : History α}
variable {w : World (Recorded Request σ)} {s : Shared (Recorded Request σ)}

/-- What the attempts of a call owe, by number: one call when they are launched, and nothing once they have ended. -/
structure Owes (operation : String) (c : Call (Recorded Request σ) α) (owed : Nat → Nat) : Prop where
  work : c.Holds fun n t => t.Follows (account operation) n Cleared (owed n)
  upcoming : ∀ n, c.attempts.length ≤ n → owed n = 1
  ended : ∀ (i : Nat) (a : Attempt (Recorded Request σ) α), c.attempts[i]? = some a → a.Ended → owed i = 0

section Owes

theorem Fresh.owes (h : c.Fresh) (hwork : ∀ n, (c.attempt n).Follows (account operation) n Cleared 1) :
    c.Owes operation fun _ => 1 :=
  ⟨h.holds hwork, fun _ _ => rfl, fun i a ha => by simp [h.attempts] at ha⟩

theorem Owes.launch (h : c.Owes operation owed) (now : Nat) : (c.launch now).Owes operation owed := by
  refine ⟨h.work.launch now, fun n hn => h.upcoming n (by rw [length_launch] at hn; omega), ?_⟩
  intro i a ha hended
  rcases Nat.lt_or_ge i c.attempts.length with hlt | hge
  · rw [Call.launch, List.getElem?_append_left hlt] at ha
    exact h.ended i a ha hended
  · rw [Call.launch, List.getElem?_append_right hge] at ha
    obtain rfl := List.mem_singleton.1 (List.mem_of_getElem? ha)
    exact hended.elim

theorem Owes.phase (h : c.Owes operation owed) (phase : Phase α) : Owes operation { c with phase := phase } owed :=
  ⟨h.work.phase phase, h.upcoming, h.ended⟩

theorem Owes.finish (h : c.Owes operation owed) (now : Nat) (closing : Closing α) :
    (c.finish now closing).Owes operation owed := by
  refine ⟨h.work.finish now closing, fun n hn => h.upcoming n (by rwa [length_finish] at hn), ?_⟩
  intro i b hb hended
  simp only [Call.finish, List.getElem?_map, Option.map_eq_some_iff] at hb
  obtain ⟨a, ha, rfl⟩ := hb
  exact h.ended i a ha (Attempt.ended_abort hended)

theorem Owes.stand (h : c.Owes operation owed) {i g : Nat} {standing : Standing (Recorded Request σ) α}
    (hi : i < c.attempts.length)
    (hrunning : ∀ due rest, standing = .running due rest → rest.Follows (account operation) i Cleared g)
    (hended : ∀ started, (Attempt.mk started standing).Ended → g = 0) :
    (c.stand i standing).Owes operation (Function.update owed i g) := by
  refine ⟨h.work.stand hi ?_ ?_, ?_, ?_⟩
  · intro j hji t ht
    rwa [Function.update_of_ne hji]
  · intro due rest hrest
    rw [Function.update_self]
    exact hrunning due rest hrest
  · intro n hn
    rw [length_stand] at hn
    rw [Function.update_of_ne (by omega)]
    exact h.upcoming n hn
  · intro j a ha hover
    by_cases hij : i = j
    · subst hij
      simp only [Call.stand, List.getElem?_modify_eq, Option.map_eq_map, Option.map_eq_some_iff] at ha
      obtain ⟨b, -, rfl⟩ := ha
      rw [Function.update_self]
      exact hended b.started hover
    · rw [Call.stand, List.getElem?_modify_ne _ _ hij] at ha
      rw [Function.update_of_ne (Ne.symm hij)]
      exact h.ended j a ha hover

theorem Owes.sum_eq_zero (h : c.Owes operation owed) (hidle : ∀ i, ¬c.IsPending i)
    (haborted : ∀ a ∈ c.attempts, a.isAborted = false) : ∑ i ∈ Finset.range c.attempts.length, owed i = 0 := by
  refine Finset.sum_eq_zero fun i hi => ?_
  have hlt := Finset.mem_range.1 hi
  rcases hget : c.attempts[i] with ⟨started, standing⟩
  have hat : c.attempts[i]? = some ⟨started, standing⟩ := by rw [List.getElem?_eq_getElem hlt, hget]
  have hnot := haborted _ (List.mem_of_getElem? hat)
  refine h.ended i _ hat ?_
  cases standing with
  | running due rest => exact absurd ⟨_, hat, trivial⟩ (hidle i)
  | unseen | completed | panicked => trivial
  | aborted => cases hnot

end Owes

/-- The books of a call since it was fresh: one call was due to each attempt, and what the attempts owe is left. -/
structure Accounted (operation : String) (w : World (Recorded Request σ)) (c : Call (Recorded Request σ) α)
    (x : History α) (s : Shared (Recorded Request σ)) (owed : Nat → Nat) : Prop where
  owes : c.Owes operation owed
  books : World.Booked (x.answers.map Series.ofAnswer) (Pi.single operation c.attempts.length) w
    (Pi.single operation (∑ i ∈ Finset.range c.attempts.length, owed i)) s.world

section Accounted

theorem Fresh.accounted (h : c.Fresh) (hwork : ∀ n, (c.attempt n).Follows (account operation) n Cleared 1)
    (s : Shared (Recorded Request σ)) : c.Accounted operation s.world {} s fun _ => 1 := by
  refine ⟨h.owes hwork, ?_⟩
  simpa [h.attempts] using World.booked_of_eq (w := s.world) rfl rfl 0

theorem Accounted.congr (h : c.Accounted operation w x s owed) (hy : y.answers = x.answers) :
    c.Accounted operation w y s owed :=
  ⟨h.owes, by rw [hy]; exact h.books⟩

theorem Accounted.launch (h : c.Accounted operation w x s owed) (now : Nat) :
    (c.launch now).Accounted operation w x s owed := by
  refine ⟨h.owes.launch now, ?_⟩
  rw [length_launch, Finset.sum_range_succ, h.owes.upcoming _ (Nat.le_refl _)]
  exact h.books.balance_single (by omega)

theorem Accounted.phase (h : c.Accounted operation w x s owed) (phase : Phase α) :
    Accounted operation w { c with phase := phase } x s owed :=
  ⟨h.owes.phase phase, h.books⟩

theorem Accounted.finish (h : c.Accounted operation w x s owed) (now : Nat) (closing : Closing α) :
    (c.finish now closing).Accounted operation w x s owed :=
  ⟨h.owes.finish now closing, by rw [length_finish]; exact h.books⟩

theorem Accounted.ask (h : c.Accounted operation w x s owed) (now : Nat) :
    c.Accounted operation w (x ++ { answers := [s.limiter.ask.1] }) (s.ask now).2 owed := by
  refine ⟨h.owes, ?_⟩
  have hcounted : ∀ name, Series.ofAnswer s.limiter.ask.1 ≠ .retries name := by
    cases s.limiter.ask.1 <;> simp [Series.ofAnswer]
  rw [History.answers_append, List.map_append]
  exact h.books.trans (World.booked_record hcounted _ s.world)

theorem Accounted.follow (h : c.Accounted operation w x s owed) (p : HedgePolicy) (now timer : Nat) (step : Step α) :
    (c.follow p now timer step s).1.Accounted operation w (x ++ heard step s) (c.follow p now timer step s).2
      owed := by
  have hheard : c.Accounted operation w (x ++ heard step s) (c.follow p now timer step s).2 owed := by
    rw [follow_shared]
    cases step with
    | settled outcome => exact h.congr (by simp [heard])
    | running race => exact h.congr (by simp [heard])
    | asking race => exact h.ask now
  exact follow_keeps (P := fun d => d.Accounted operation w (x ++ heard step s) _ owed) hheard (hheard.launch now)
    (fun _ closing h => h.finish now closing) (fun _ phase h => h.phase phase) p timer step s

theorem Accounted.stand (h : c.Accounted operation w x s owed) {i g : Nat} {world : World (Recorded Request σ)}
    {standing : Standing (Recorded Request σ) α} (hi : i < c.attempts.length)
    (hbooks : World.Booked [] (Pi.single operation (owed i)) s.world (Pi.single operation g) world)
    (hrunning : ∀ due rest, standing = .running due rest → rest.Follows (account operation) i Cleared g)
    (hended : ∀ started, (Attempt.mk started standing).Ended → g = 0) :
    (c.stand i standing).Accounted operation w x { s with world := world } (Function.update owed i g) := by
  refine ⟨h.owes.stand hi hrunning hended, ?_⟩
  have hboth := h.books.append_single hbooks
  have hsum := sum_range_update owed hi g
  rw [List.append_nil] at hboth
  rw [length_stand]
  exact hboth.balance_single (by omega)

theorem Accounted.waits (h : c.Accounted operation w x s owed) {i started due later : Nat}
    {rest next : Timed (World (Recorded Request σ)) (Except StorageError α)} {d : Duration}
    {world : World (Recorded Request σ)} (hat : c.attempts[i]? = some ⟨started, .running due rest⟩)
    (hwaits : rest.advance s.world = (.waiting d next, world)) : ∃ owed,
      (c.stand i (.running later next)).Accounted operation w x { s with world := world } owed := by
  obtain ⟨g, -, hbooks, -, hnext⟩ := (h.owes.work.running i started due rest hat).advance (s := s.world) trivial
  rw [hwaits] at hbooks hnext
  refine ⟨_, h.stand (IsRunning.lt ⟨_, _, _, hat⟩) hbooks ?_ fun _ hended => hended.elim⟩
  rintro _ _ ⟨⟩
  exact hnext d next rfl

theorem Accounted.ends (h : c.Accounted operation w x s owed) {i started due : Nat} (now : Nat)
    {rest : Timed (World (Recorded Request σ)) (Except StorageError α)} {outcome : Except StorageError α}
    {world : World (Recorded Request σ)} (hat : c.attempts[i]? = some ⟨started, .running due rest⟩)
    (hends : rest.advance s.world = (.finished outcome, world)) : ∃ owed,
      (c.stand i (.unseen now outcome)).Accounted operation w x { s with world := world } owed := by
  obtain ⟨g, -, hbooks, hcleared, -⟩ := (h.owes.work.running i started due rest hat).advance (s := s.world) trivial
  rw [hends] at hbooks hcleared
  exact ⟨_, h.stand (IsRunning.lt ⟨_, _, _, hat⟩) hbooks (by simp) fun _ _ => hcleared outcome rfl⟩

theorem Accounted.sees (h : c.Accounted operation w x s owed) {i started time : Nat} {outcome : Except StorageError α}
    (hat : c.attempts[i]? = some ⟨started, .unseen time outcome⟩) :
    (c.stand i (.ofOutcome time outcome)).Accounted operation w x s owed := by
  have hnothing : owed i = 0 := h.owes.ended i _ hat trivial
  have hbooks : World.Booked [] (Pi.single operation (owed i)) s.world (Pi.single operation 0) s.world := by
    rw [hnothing]
    exact World.booked_of_eq rfl rfl _
  have hstand := h.stand (isPending_of_unseen hat).lt hbooks
    (fun due rest heq => absurd heq (Standing.ofOutcome_ne_running time due outcome rest)) fun _ _ => rfl
  rwa [← hnothing, Function.update_eq_self] at hstand

theorem Accounted.handle (h : c.Accounted operation w x s owed) (p : HedgePolicy) (now : Nat) (e : Event) :
    ∃ owed, (c.handle p now e s).1.Accounted operation w (x ++ c.record p now e s) (c.handle p now e s).2 owed := by
  have hmove := move_handle p now e c s
  generalize c.record p now e s = y at hmove ⊢
  generalize c.handle p now e s = r at hmove ⊢
  cases hmove with
  | idle => exact ⟨owed, h.congr (by simp)⟩
  | started _ => exact ⟨owed, ((h.launch now).phase _).congr (by simp)⟩
  | continued _ hat hwaits =>
    obtain ⟨owed, hwaits⟩ := h.waits hat hwaits
    exact ⟨owed, hwaits.congr (by simp)⟩
  | finished _ _ hat hends =>
    obtain ⟨owed, hover⟩ := h.ends now hat hends
    exact ⟨owed, hover.congr (by simp)⟩
  | @observed race timer i time started outcome _ _ hat =>
    exact ⟨owed, ((h.sees hat).follow p now timer (race.finished p i outcome)).congr (by simp)⟩
  | returned _ _ hat hends =>
    obtain ⟨owed, hover⟩ := h.ends now hat hends
    exact ⟨owed, (hover.finish now _).congr (by simp)⟩
  | @fired race timer _ _ => exact ⟨owed, (h.follow p now timer (race.timerFired p)).congr (by simp)⟩
  | dropped _ => exact ⟨owed, (h.finish now .dropped).congr (by simp)⟩

end Accounted

theorem Single.not_aborted {c : Call σ α} {x : History α} (h : c.Single x) (hfits : c.Fits x) (hreturns : c.Returns x)
    {time : Nat} {o : Except StorageError α} (hresult : c.result? = some (time, some o)) :
    ∀ a ∈ c.attempts, a.isAborted = false := by
  intro a ha
  obtain ⟨i, hi⟩ := List.getElem?_of_mem ha
  obtain ⟨y, hy, -⟩ := hreturns time o hresult
  have hended : y.attempt ∈ x.ended := List.mem_map_of_mem hy
  -- The attempt that was observed to end is the only one there is.
  have hone := h.length_le_one
  have hlt := hfits.observed hended
  have hlt' := (List.getElem?_eq_some_iff.1 hi).1
  obtain rfl : i = y.attempt := by omega
  have hfit := hfits.attempts _ a hi
  rcases a with ⟨started, standing⟩
  cases standing with
  | aborted => exact absurd (hfits.mem_finished hended) hfit
  | running | unseen | completed | panicked => rfl

end Call

/-- The books of a call that runs alone and returned: a call of the store was due to its first attempt and to each
hedge that was granted. All were made if no attempt was aborted. -/
theorem Hall.play_books {operation : String} {c : Call (Recorded Request σ) α} (hfresh : c.Fresh)
    (hwork : ∀ n, (c.attempt n).Follows (account operation) n Cleared 1) (p : HedgePolicy)
    (s : Shared (Recorded Request σ)) (es : List (Nat × Nat × Event)) {d : Call (Recorded Request σ) α}
    (hd : (Hall.play ⟨p, [c], s⟩ es).calls[0]? = some d) {time : Nat} {o : Except StorageError α}
    (hresult : d.result? = some (time, some o)) : ∃ (answers : List Bool) (left : Nat),
      World.Booked (answers.map Series.ofAnswer) (Pi.single operation (1 + answers.count true)) s.world
        (Pi.single operation left) (Hall.play ⟨p, [c], s⟩ es).shared.world ∧
      (p.enabled = false → answers = [] ∧ left = 0) ∧
      ((∀ a ∈ d.attempts, a.isAborted = false) → left = 0) := by
  have hall : ∀ call ∈ (Hall.mk p [c] s).calls, call.Fresh := by simpa using hfresh
  have hover := Call.result?_eq_returned.1 hresult
  obtain ⟨d', hd', ⟨owed, haccounted⟩, hrests, hreturns⟩ := play_alone (p := p) (c := c) (x := {}) (s := s)
    (P := fun c x t => (∃ owed, c.Accounted operation s.world x t owed) ∧ c.Rests ∧ (p.enabled = false → c.Returns x))
    (by
      rintro c x t now e ⟨⟨owed, haccounted⟩, hrests, hreturns⟩
      exact ⟨haccounted.handle p now e, hrests.handle p now e t, fun hp => (hreturns hp).handle hp now e t⟩)
    ⟨⟨_, hfresh.accounted hwork s⟩, fun time outcome hph => (by cases hfresh.phase.symm.trans hph),
      fun _ time o hr => (by cases hfresh.phase.symm.trans (Call.result?_eq_returned.1 hr))⟩ es
  obtain rfl : d' = d := by simpa [hd'] using hd
  rw [History.empty_append] at haccounted hreturns
  obtain ⟨hon, hoff⟩ := play_budget hall es hd
  have hlength : d'.attempts.length = 1 + ((Hall.mk p [c] s).history 0 es).answers.count true := by
    cases hp : p.enabled with
    | true => exact (hon hp).issued (by simp [hover])
    | false => simpa [(hoff hp).answers] using (hoff hp).issued (by simp [hover])
  have hcleared := haccounted.owes.sum_eq_zero (hrests time _ hover)
  refine ⟨_, _, hlength ▸ haccounted.books, fun hp => ⟨(hoff hp).answers, ?_⟩, hcleared⟩
  exact hcleared ((hoff hp).not_aborted (play_fits hall es hd) (hreturns hp) hresult)

end ObjectStorage.Hedging
