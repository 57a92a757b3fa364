import ObjectStorage.Proofs.Hedging.Punctual

/-! # Prompt attempts

An attempt is prompt if it is never put off for longer than some time after it was issued, so that it ends within
that time. Work whose waits come to no more than that is prompt under every punctual schedule.
-/
namespace ObjectStorage

variable {σ α : Type}

namespace Timed

/-- Work that waits for no longer than some time altogether, whatever the world is between its steps. -/
def Lasts : Timed σ α → Nat → Prop
  | done _, _ => True
  | act _ next, most => ∀ s, (next s).Lasts most
  | wait d next, most => d.ticks ≤ most ∧ next.Lasts (most - d.ticks)

theorem Lasts.advance {t next : Timed σ α} {most : Nat} (h : t.Lasts most) {s : σ} {d : Duration}
    (hwaits : (t.advance s).1 = .waiting d next) : d.ticks ≤ most ∧ next.Lasts (most - d.ticks) := by
  cases t with
  | done a => cases hwaits
  | act change later =>
    cases hwaits
    exact ⟨Nat.zero_le _, h s⟩
  | wait d later =>
    cases hwaits
    exact h

end Timed

namespace Hedging
open Race (Step)

namespace Call
variable {p : HedgePolicy} {now within : Nat} {e : Event} {c : Call σ α}

/-- Every attempt that is not over is to go on within some time after it was issued, or came to its end by then. -/
def Prompt (within : Nat) (c : Call σ α) : Prop := ∀ a ∈ c.attempts, ∀ due ∈ a.due?, due ≤ a.started + within

/-- The attempts of a call last for some time at most, and what is left of them for what is left of it. -/
structure Lasting (within : Nat) (c : Call σ α) : Prop where
  attempt : ∀ n, (c.attempt n).Lasts within
  running : ∀ (i started due : Nat) (rest : Timed (World σ) (Except StorageError α)),
    c.attempts[i]? = some ⟨started, .running due rest⟩ →
    due ≤ started + within ∧ rest.Lasts (started + within - due)
  unseen : ∀ (i started time : Nat) (outcome : Except StorageError α),
    c.attempts[i]? = some ⟨started, .unseen time outcome⟩ → time ≤ started + within

theorem Fresh.lasting (h : c.Fresh) (hlasts : ∀ n, (c.attempt n).Lasts within) : c.Lasting within :=
  ⟨hlasts, fun _ _ _ _ hat => by simp [h.attempts] at hat, fun _ _ _ _ hat => by simp [h.attempts] at hat⟩

theorem Lasting.prompt (h : c.Lasting within) : c.Prompt within := by
  rintro ⟨started, standing⟩ ha due hdue
  obtain ⟨i, hi⟩ := List.getElem?_of_mem ha
  cases standing with
  | running due' rest =>
    cases hdue
    exact (h.running i started due rest hi).1
  | unseen time outcome =>
    cases hdue
    exact h.unseen i started due outcome hi
  | completed | panicked | aborted => cases hdue

theorem Lasting.launch (h : c.Lasting within) (now : Nat) : (c.launch now).Lasting within := by
  have hget {i : Nat} {a : Attempt σ α} (hat : (c.launch now).attempts[i]? = some a) :
      c.attempts[i]? = some a ∨ a = ⟨now, .running now (c.attempt c.attempts.length)⟩ := by
    rcases Nat.lt_or_ge i c.attempts.length with hlt | hge
    · rw [Call.launch, List.getElem?_append_left hlt] at hat
      exact .inl hat
    · rw [Call.launch, List.getElem?_append_right hge] at hat
      exact .inr (List.mem_singleton.1 (List.mem_of_getElem? hat))
  refine ⟨h.attempt, fun i started due rest hat => ?_, fun i started time outcome hat => ?_⟩
  · rcases hget hat with hat | ⟨⟨⟩⟩
    · exact h.running i started due rest hat
    · exact ⟨Nat.le_add_right _ _, by simpa using h.attempt _⟩
  · rcases hget hat with hat | ⟨⟨⟩⟩
    exact h.unseen i started time outcome hat

theorem Lasting.finish (h : c.Lasting within) (now : Nat) (closing : Closing α) :
    (c.finish now closing).Lasting within :=
  ⟨h.attempt, fun _ _ _ _ hat => absurd ⟨_, hat, trivial⟩ not_isPending_finish,
    fun _ _ _ _ hat => absurd ⟨_, hat, trivial⟩ not_isPending_finish⟩

theorem Lasting.phase (h : c.Lasting within) (phase : Phase α) : Lasting within { c with phase := phase } :=
  ⟨h.attempt, h.running, h.unseen⟩

theorem Lasting.stand {i started : Nat} {was standing : Standing σ α} (h : c.Lasting within)
    (hat : c.attempts[i]? = some ⟨started, was⟩)
    (hruns : ∀ later next, standing = .running later next →
      later ≤ started + within ∧ next.Lasts (started + within - later))
    (hends : ∀ time outcome, standing = .unseen time outcome → time ≤ started + within) :
    (c.stand i standing).Lasting within := by
  have hget {j started' : Nat} {standing' : Standing σ α}
      (hj : (c.stand i standing).attempts[j]? = some ⟨started', standing'⟩) :
      started = started' ∧ standing = standing' ∨ c.attempts[j]? = some ⟨started', standing'⟩ := by
    by_cases hij : i = j
    · subst hij
      simp only [Call.stand, List.getElem?_modify_eq, hat, Option.map_eq_map, Option.map_some, Option.some.injEq,
        Attempt.mk.injEq] at hj
      exact .inl hj
    · rw [Call.stand, List.getElem?_modify_ne _ _ hij] at hj
      exact .inr hj
  refine ⟨h.attempt, fun j _ due rest hj => ?_, fun j _ time outcome hj => ?_⟩
  · rcases hget hj with ⟨rfl, hstanding⟩ | hj
    · exact hruns due rest hstanding
    · exact h.running j _ due rest hj
  · rcases hget hj with ⟨rfl, hstanding⟩ | hj
    · exact hends time outcome hstanding
    · exact h.unseen j _ time outcome hj

theorem Lasting.follow (h : c.Lasting within) (p : HedgePolicy) (now timer : Nat) (step : Step α) (s : Shared σ) :
    (c.follow p now timer step s).1.Lasting within :=
  follow_keeps (P := fun d => d.Lasting within) h (h.launch now) (fun _ closing h => h.finish now closing)
    (fun _ phase h => h.phase phase) p timer step s

theorem Lasting.handle (h : c.Lasting within) (hdue : c.DueAt p now e) (s : Shared σ) :
    (c.handle p now e s).1.Lasting within := by
  cases e with
  | start =>
    obtain ⟨hph, -⟩ := hdue
    simpa only [Call.handle, hph] using (h.launch now).phase _
  | timer =>
    obtain ⟨hp, race, hph, -⟩ := hdue
    simpa only [Call.handle, hph, hp, ↓reduceIte] using h.follow p now now _ s
  | drop =>
    obtain ⟨⟨race, timer, hph⟩, -⟩ := hdue
    simpa only [Call.handle, hph] using h.finish now .dropped
  | advance i =>
    obtain ⟨⟨race, timer, hph⟩, started, rest, hat⟩ := hdue
    obtain ⟨hle, hrest⟩ := h.running i started now rest hat
    rcases hadvance : rest.advance s.world with ⟨progress, world⟩
    simp only [Call.handle, hph, Call.advance, hat, hadvance]
    cases progress with
    | waiting d next =>
      obtain ⟨hwait, hnext⟩ := hrest.advance (congrArg Prod.fst hadvance)
      refine h.stand hat ?_ (by simp)
      rintro _ _ ⟨⟩
      exact ⟨by omega, by rwa [Nat.sub_add_eq]⟩
    | finished outcome =>
      have hends : (c.stand i (.unseen now outcome)).Lasting within := by
        refine h.stand hat (by simp) ?_
        rintro _ _ ⟨⟩
        exact hle
      cases p.enabled with
      | true => exact hends
      | false => exact hends.finish now _
  | observe i =>
    obtain ⟨hp, ⟨race, timer, hph⟩, started, outcome, hat⟩ := hdue
    have hover := Standing.not_isOpen_ofOutcome (σ := σ) now outcome
    have hseen : (c.stand i (.ofOutcome now outcome)).Lasting within := by
      refine h.stand hat (fun due rest heq => ?_) (fun time outcome' heq => ?_) <;> rw [heq] at hover <;>
        exact absurd trivial hover
    simpa only [Call.handle, hph, hp, Call.observe, hat, ↓reduceIte] using hseen.follow p now timer _ s

end Call

namespace Hall
variable {h : Hall σ α} {k within : Nat} {c : Call σ α}

def Prompt (within k : Nat) : List (Nat × Nat × Event) → Hall σ α → Prop
  | [], h => ∀ c ∈ h.calls[k]?, c.Prompt within
  | (now, i, e) :: es, h => (∀ c ∈ h.calls[k]?, c.Prompt within) ∧ Prompt within k es (h.handle now i e)

theorem prompt_append {es more : List (Nat × Nat × Event)} (hprompt : Prompt within k (es ++ more) h) :
    Prompt within k es h ∧ Prompt within k more (h.play es) := by
  induction es generalizing h with
  | nil =>
    refine ⟨?_, hprompt⟩
    cases more with
    | nil => exact hprompt
    | cons ev more => exact hprompt.1
  | cons ev es ih =>
    obtain ⟨now, i, e⟩ := ev
    obtain ⟨hrest, hmore⟩ := ih hprompt.2
    exact ⟨⟨hprompt.1, hrest⟩, hmore⟩

theorem Prompt.last {es : List (Nat × Nat × Event)} (hprompt : Prompt within k es h) {d : Call σ α}
    (hd : (h.play es).calls[k]? = some d) : d.Prompt within := by
  rw [← List.append_nil es] at hprompt
  exact (prompt_append hprompt).2 d hd

/-- Attempts that last for some time at most are prompt under every punctual schedule. -/
theorem prompt_of_lasting (hc : h.calls[k]? = some c) (hlasting : c.Lasting within)
    {es : List (Nat × Nat × Event)} (hes : Punctual es h) : Prompt within k es h := by
  have hnow : ∀ d ∈ h.calls[k]?, d.Prompt within := by
    intro d hd
    cases hc.symm.trans hd
    exact hlasting.prompt
  induction es generalizing h c with
  | nil => exact hnow
  | cons ev es ih =>
    obtain ⟨now, i, e⟩ := ev
    obtain ⟨⟨own, hown, hdue⟩, -, hrest⟩ := hes
    have hnext := getElem?_handle h now i e k
    have hlater : ∃ d, (h.handle now i e).calls[k]? = some d ∧ d.Lasting within := by
      rw [hnext, hc]
      by_cases hik : i = k
      · subst hik
        cases hc.symm.trans hown
        exact ⟨_, by rw [if_pos rfl]; rfl, hlasting.handle hdue h.shared⟩
      · exact ⟨c, by rw [if_neg hik], hlasting⟩
    obtain ⟨d, hd, hd'⟩ := hlater
    refine ⟨hnow, ih hd hd' hrest fun d' hd'' => ?_⟩
    cases hd.symm.trans hd''
    exact hd'.prompt

end Hall
end Hedging
end ObjectStorage
