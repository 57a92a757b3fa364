import ObjectStorage.Proofs.Hedging.Winner

/-! # How attempts end

How an attempt stands is told by what became of it: it runs or was aborted if it did not come to its end, and
else it completed or panicked as it ended, once its call saw it or was over. A call sees the ends that there
are, and returns an outcome that it saw. Once it is over nothing of it is left, and nothing happens to it any more.
-/
namespace ObjectStorage.Hedging
open Race (Step History Ending)

variable {σ α : Type}

namespace Attempt
variable {x : History α} {i : Nat} {a : Attempt σ α}

/-- The attempt of a number came to its end, and stands as it ended. -/
def EndedBy (x : History α) (i : Nat) (standing : Standing σ α) : Prop :=
  ∃ y ∈ x.finishes, y.attempt = i ∧ standing = .ofOutcome y.time y.outcome

/-- How the attempt of a number stands by a history. -/
def Fits (x : History α) (i : Nat) (a : Attempt σ α) : Prop :=
  match a.standing with
  | .running _ _ | .aborted => i ∉ x.finished
  | .unseen time outcome => ⟨time, i, outcome⟩ ∈ x.finishes ∧ i ∉ x.ended
  | standing => EndedBy x i standing

theorem fits_ofOutcome {time : Nat} {outcome : Except StorageError α} (h : ⟨time, i, outcome⟩ ∈ x.finishes)
    (started : Nat) : (⟨started, .ofOutcome time outcome⟩ : Attempt σ α).Fits x i := by
  have hended : EndedBy x i (.ofOutcome time outcome : Standing σ α) := ⟨_, h, rfl, rfl⟩
  have hover := Standing.not_isOpen_ofOutcome (σ := σ) time outcome
  have hnot : (Standing.ofOutcome time outcome : Standing σ α) ≠ .aborted := by
    unfold Standing.ofOutcome
    split <;> simp
  unfold Fits
  revert hended hover hnot
  generalize (Standing.ofOutcome time outcome : Standing σ α) = standing
  intro hended hover hnot
  cases standing with
  | running | unseen => exact absurd trivial hover
  | aborted => exact absurd rfl hnot
  | completed | panicked => exact hended

theorem Fits.abort (h : a.Fits x i) : a.abort.Fits x i := by
  rcases a with ⟨started, standing⟩
  cases standing with
  | unseen time outcome => exact fits_ofOutcome h.1 started
  | running | completed | panicked | aborted => exact h

theorem Fits.append (h : a.Fits x i) {y : History α} (hfinished : i ∉ y.finished) (hended : i ∉ y.ended) :
    a.Fits (x ++ y) i := by
  have hopen (hi : i ∉ x.finished) : i ∉ (x ++ y).finished := by simp [hi, hfinished]
  have hover {standing : Standing σ α} (hs : EndedBy x i standing) : EndedBy (x ++ y) i standing := by
    obtain ⟨z, hz, hs⟩ := hs
    exact ⟨z, List.mem_append_left _ hz, hs⟩
  rcases a with ⟨started, standing⟩
  cases standing with
  | running | aborted => exact hopen h
  | unseen time outcome => exact ⟨List.mem_append_left _ h.1, by simp [h.2, hended]⟩
  | completed | panicked => exact hover h

end Attempt

namespace Call

/-- All attempts of a call fit its history, the history tells of no others, and the ends that the call saw are ends
that attempts came to. -/
structure Fits (c : Call σ α) (x : History α) : Prop where
  attempts : ∀ i a, c.attempts[i]? = some a → Attempt.Fits x i a
  finished : ∀ i ∈ x.finished, i < c.attempts.length
  seen : ∀ y ∈ x.endings, ∃ z ∈ x.finishes, z.attempt = y.attempt ∧ z.outcome = y.outcome

section Fits
variable {c : Call σ α} {x : History α}

theorem Fits.mem_finished (h : Fits c x) {i : Nat} (hi : i ∈ x.ended) : i ∈ x.finished := by
  obtain ⟨y, hy, rfl⟩ := List.mem_map.1 hi
  obtain ⟨z, hz, hattempt, -⟩ := h.seen y hy
  exact List.mem_map.2 ⟨z, hz, hattempt⟩

theorem Fits.observed (h : Fits c x) {i : Nat} (hi : i ∈ x.ended) : i < c.attempts.length :=
  h.finished i (h.mem_finished hi)

theorem Fits.launch (h : Fits c x) (now : Nat) : Fits (c.launch now) x := by
  refine ⟨?_, fun i hi => by rw [length_launch]; exact Nat.lt_succ_of_lt (h.finished i hi), h.seen⟩
  intro i a ha
  rcases Nat.lt_or_ge i c.attempts.length with hlt | hge
  · rw [Call.launch, List.getElem?_append_left hlt] at ha
    exact h.attempts i a ha
  · rw [Call.launch, List.getElem?_append_right hge] at ha
    obtain rfl := List.mem_singleton.1 (List.mem_of_getElem? ha)
    exact fun hi => absurd (h.finished i hi) (Nat.not_lt.2 hge)

theorem Fits.phase (h : Fits c x) (phase : Phase α) : Fits { c with phase := phase } x :=
  ⟨h.attempts, h.finished, h.seen⟩

theorem Fits.finish (h : Fits c x) (now : Nat) (closing : Closing α) : Fits (c.finish now closing) x := by
  refine ⟨?_, fun i hi => by rw [length_finish]; exact h.finished i hi, h.seen⟩
  intro i b hb
  simp only [Call.finish, List.getElem?_map, Option.map_eq_some_iff] at hb
  obtain ⟨a, ha, rfl⟩ := hb
  exact (h.attempts i a ha).abort

theorem Fits.append (h : Fits c x) {y : History α} (hfinishes : y.finishes = []) (hendings : y.endings = []) :
    Fits c (x ++ y) := by
  refine ⟨fun i a ha => (h.attempts i a ha).append (by simp [History.finished, hfinishes])
    (by simp [History.ended, hendings]), ?_, ?_⟩
  · simpa [History.finished, hfinishes] using h.finished
  · simpa [hfinishes, hendings] using h.seen

theorem Fits.stand (h : Fits c x) {i : Nat} {standing : Standing σ α} {y : History α}
    (hothers : ∀ j, j ≠ i → j ∉ y.finished ∧ j ∉ y.ended)
    (hnew : ∀ started, Attempt.Fits (x ++ y) i ⟨started, standing⟩)
    (hfinished : ∀ j ∈ y.finished, j < c.attempts.length)
    (hseen : ∀ z ∈ y.endings, ∃ w ∈ (x ++ y).finishes, w.attempt = z.attempt ∧ w.outcome = z.outcome) :
    Fits (c.stand i standing) (x ++ y) := by
  refine ⟨?_, ?_, ?_⟩
  · intro j a ha
    by_cases hij : i = j
    · subst hij
      simp only [Call.stand, List.getElem?_modify_eq, Option.map_eq_map, Option.map_eq_some_iff] at ha
      obtain ⟨b, -, rfl⟩ := ha
      exact hnew b.started
    · rw [Call.stand, List.getElem?_modify_ne _ _ hij] at ha
      obtain ⟨hfinished, hended⟩ := hothers j (Ne.symm hij)
      exact (h.attempts j a ha).append hfinished hended
  · intro j hj
    rw [length_stand]
    rw [History.finished_append, List.mem_append] at hj
    exact hj.elim (h.finished j) (hfinished j)
  · intro z hz
    rw [History.endings_append, List.mem_append] at hz
    rcases hz with hz | hz
    · obtain ⟨w, hw, hsame⟩ := h.seen z hz
      exact ⟨w, List.mem_append_left _ hw, hsame⟩
    · exact hseen z hz

theorem Fits.waits (h : Fits c x) {i started due : Nat} {rest next : Timed (World σ) (Except StorageError α)}
    (hat : c.attempts[i]? = some ⟨started, .running due rest⟩) (later : Nat) :
    Fits (c.stand i (.running later next)) x := by
  have hrunning : i ∉ x.finished := h.attempts i _ hat
  rw [← History.append_empty x]
  exact h.stand (by simp [History.finished, History.ended]) (fun _ => by simpa [Attempt.Fits] using hrunning)
    (by simp [History.finished]) (by simp)

theorem Fits.ends (h : Fits c x) {i started due : Nat} {rest : Timed (World σ) (Except StorageError α)}
    (hat : c.attempts[i]? = some ⟨started, .running due rest⟩) (now : Nat) (outcome : Except StorageError α) :
    Fits (c.stand i (.unseen now outcome)) (x ++ { finishes := [⟨now, i, outcome⟩] }) := by
  have hrunning : i ∉ x.finished := h.attempts i _ hat
  have hunseen : i ∉ x.ended := fun hi => hrunning (h.mem_finished hi)
  refine h.stand (fun j hji => by simp [History.finished, History.ended, hji]) (fun _ => ?_) ?_ (by simp)
  · exact ⟨by simp, by simpa [History.ended] using hunseen⟩
  · have hlt := IsRunning.lt ⟨_, _, _, hat⟩
    simpa [History.finished] using hlt

theorem Fits.sees (h : Fits c x) {i started time : Nat} {outcome : Except StorageError α}
    (hat : c.attempts[i]? = some ⟨started, .unseen time outcome⟩) (now : Nat) :
    Fits (c.stand i (.ofOutcome time outcome)) (x ++ { endings := [⟨now, i, outcome⟩] }) := by
  have hended : ⟨time, i, outcome⟩ ∈ x.finishes := (h.attempts i _ hat).1
  refine h.stand (fun j hji => by simp [History.finished, History.ended, hji]) (fun started => ?_)
    (by simp [History.finished]) ?_
  · exact Attempt.fits_ofOutcome (by simpa using hended) started
  · intro z hz
    obtain rfl := List.mem_singleton.1 hz
    exact ⟨_, List.mem_append_left _ hended, rfl, rfl⟩

/-- At the end of a call it makes no difference whether it has seen the end of an attempt. -/
theorem finish_stand_ofOutcome {i started time : Nat} {outcome : Except StorageError α}
    (hat : c.attempts[i]? = some ⟨started, .unseen time outcome⟩) (now : Nat) (closing : Closing α) :
    (c.stand i (.ofOutcome time outcome)).finish now closing = c.finish now closing := by
  have habort : (⟨started, .ofOutcome time outcome⟩ : Attempt σ α).abort =
      (⟨started, .unseen time outcome⟩ : Attempt σ α).abort := by
    have hover := Standing.not_isOpen_ofOutcome (σ := σ) time outcome
    simp only [Attempt.abort]
    revert hover
    generalize (Standing.ofOutcome time outcome : Standing σ α) = standing
    cases standing <;> simp [Standing.IsOpen]
  simp only [Call.finish, Call.stand, Call.mk.injEq, and_true, true_and]
  refine List.ext_getElem? fun j => ?_
  rw [List.getElem?_map, List.getElem?_map]
  by_cases hij : i = j
  · subst hij
    simp [hat, habort]
  · rw [List.getElem?_modify_ne _ _ hij]

theorem Fits.returns (h : Fits c x) {i started due : Nat} {rest : Timed (World σ) (Except StorageError α)}
    (hat : c.attempts[i]? = some ⟨started, .running due rest⟩) (now : Nat) (outcome : Except StorageError α) :
    Fits ((c.stand i (.unseen now outcome)).finish now (.returned outcome))
      (x ++ { endings := [⟨now, i, outcome⟩], finishes := [⟨now, i, outcome⟩] }) := by
  have hunseen : (c.stand i (.unseen now outcome)).attempts[i]? = some ⟨started, .unseen now outcome⟩ := by
    simp [Call.stand, hat]
  have hsees := ((h.ends hat now outcome).sees hunseen now).finish now (.returned outcome)
  rw [finish_stand_ofOutcome hunseen, History.append_assoc] at hsees
  exact hsees

theorem Fits.follow (h : Fits c x) (p : HedgePolicy) (now timer : Nat) (step : Step α) (s : Shared σ) :
    Fits (c.follow p now timer step s).1 x :=
  follow_keeps (P := fun d => Fits d x) h (h.launch now) (fun _ closing h => h.finish now closing)
    (fun _ phase h => h.phase phase) p timer step s

@[simp] theorem heard_endings (step : Step α) (s : Shared σ) : (heard step s).endings = [] := by
  cases step <;> rfl

@[simp] theorem heard_finishes (step : Step α) (s : Shared σ) : (heard step s).finishes = [] := by
  cases step <;> rfl

theorem Fits.handle (h : Fits c x) (p : HedgePolicy) (now : Nat) (e : Event) (s : Shared σ) :
    Fits (c.handle p now e s).1 (x ++ c.record p now e s) := by
  have hmove := move_handle p now e c s
  generalize c.record p now e s = y at hmove ⊢
  generalize c.handle p now e s = r at hmove ⊢
  cases hmove with
  | idle => exact h.append rfl rfl
  | started _ => exact ((h.launch now).phase _).append rfl rfl
  | continued _ hat _ => exact (h.waits hat _).append rfl rfl
  | finished _ _ hat _ => exact h.ends hat now _
  | @observed race timer i time started outcome _ _ hat =>
    rw [← History.append_assoc, ← History.append_assoc]
    have hseen := (h.sees hat now).append (y := { rounds := (race.finished p i outcome).rounds }) rfl rfl
    exact (hseen.append (heard_finishes _ s) (heard_endings _ s)).follow p now timer _ _
  | returned _ _ hat _ => exact h.returns hat now _
  | fired _ _ => exact (h.append (by simp) (by simp)).follow p now _ _ s
  | dropped _ => exact (h.finish now .dropped).append rfl rfl

end Fits

/-! ## The end of a call -/

variable {c : Call σ α} {x : History α}

/-- Nothing of a call runs or is to be seen once it is over. -/
def Rests (c : Call σ α) : Prop := ∀ time closing, c.phase = .ended time closing → ∀ i, ¬c.IsPending i

theorem rests_follow (p : HedgePolicy) (now timer : Nat) (step : Step α) (c : Call σ α) (s : Shared σ) :
    (c.follow p now timer step s).1.Rests := by
  obtain ⟨d, -, hfollow⟩ := follow_cases p now timer step c s
  rcases hfollow with ⟨closing, heq, -⟩ | ⟨race, timer', heq⟩ <;> rw [heq]
  · exact fun _ _ _ i => not_isPending_finish
  · intro time closing hph
    cases hph

theorem Rests.handle (h : c.Rests) (p : HedgePolicy) (now : Nat) (e : Event) (s : Shared σ) :
    (c.handle p now e s).1.Rests := by
  have hmove := move_handle p now e c s
  generalize c.record p now e s = y at hmove
  generalize c.handle p now e s = r at hmove ⊢
  cases hmove with
  | idle => exact h
  | started _ =>
    intro time closing hph
    cases hph
  | continued hph _ _ | finished _ hph _ _ =>
    intro time closing hph'
    cases hph.symm.trans hph'
  | observed _ _ _ => exact rests_follow p now _ _ _ _
  | returned _ _ _ _ => exact fun _ _ _ i => not_isPending_finish
  | fired _ _ => exact rests_follow p now _ _ _ s
  | dropped _ => exact fun _ _ _ i => not_isPending_finish

theorem handle_of_ended {time : Nat} {closing : Closing α} (h : c.phase = .ended time closing)
    (p : HedgePolicy) (now : Nat) (e : Event) (s : Shared σ) :
    c.handle p now e s = (c, s) ∧ c.record p now e s = {} := by
  have hh : c.handle p now e s = (c, s) := by simp [handle, h]
  exact ⟨hh, record_of_handle_eq hh rfl (by simp [finish?, h]) (by simp [sight?, h]) (by simp [verdict?, h])⟩

theorem upcoming_of_handle {p : HedgePolicy} {now : Nat} {e : Event} {s : Shared σ}
    (h : (c.handle p now e s).1.phase = .upcoming) : c.phase = .upcoming := by
  have hfollow (timer : Nat) (step : Step α) (c : Call σ α) (s : Shared σ) :
      (c.follow p now timer step s).1.phase ≠ .upcoming := by
    obtain ⟨d, -, ⟨closing, heq, -⟩ | ⟨race, timer', heq⟩⟩ := follow_cases p now timer step c s <;> rw [heq] <;>
      exact fun h => (by cases h)
  have hmove := move_handle p now e c s
  generalize c.record p now e s = y at hmove
  generalize c.handle p now e s = r at hmove h
  cases hmove with
  | idle => exact h
  | started _ => cases h
  | continued _ _ _ | finished _ _ _ _ => exact h
  | observed _ _ _ => exact absurd h (hfollow _ _ _ _)
  | returned _ _ _ _ => cases h
  | fired _ _ => exact absurd h (hfollow _ _ _ _)
  | dropped _ => cases h

/-- What a call returned is an outcome that it saw. -/
def Returns (c : Call σ α) (x : History α) : Prop :=
  ∀ time o, c.result? = some (time, some o) → ∃ y ∈ x.endings, y.outcome = o

theorem Stands.returns {p : HedgePolicy} (h : c.Stands p x) : c.Returns x := by
  intro time o hr
  obtain ⟨y, hy, ho⟩ := Option.map_eq_some_iff.1 (h.last_of_result hr)
  exact ⟨y, List.mem_of_getLast? hy, ho⟩

theorem Returns.handle {p : HedgePolicy} (hp : p.enabled = false) (h : c.Returns x) (now : Nat) (e : Event)
    (s : Shared σ) : (c.handle p now e s).1.Returns (x ++ c.record p now e s) := by
  have hmove := move_handle p now e c s
  generalize c.record p now e s = y at hmove ⊢
  generalize c.handle p now e s = r at hmove ⊢
  cases hmove with
  | idle => simpa using h
  | started _ =>
    intro time o hr
    cases result?_eq_returned.1 hr
  | continued hph _ _ =>
    intro time o hr
    cases hph.symm.trans (result?_eq_returned.1 hr)
  | finished hon _ _ _ => rw [hp] at hon; cases hon
  | observed hon _ _ => rw [hp] at hon; cases hon
  | @returned race timer i due started rest outcome world _ _ _ _ =>
    intro time o hr
    cases result?_eq_returned.1 hr
    exact ⟨⟨now, i, outcome⟩, by simp, rfl⟩
  | fired hon _ => rw [hp] at hon; cases hon
  | dropped _ =>
    intro time o hr
    cases result?_eq_returned.1 hr

end Call
end ObjectStorage.Hedging
