import ObjectStorage.Proofs.Hedging.Budget

/-! # Calls that meet the same

What an event makes of a call depends on the call itself, on what its attempts see of the world, and on
what the limiter answers if it is asked. Where these are alike, the call comes out alike and goes through
the same, whatever else differs.
-/
namespace ObjectStorage

variable {σ α ω : Type}

namespace Limiter

/-- The limiter gives these answers to the asks to come. -/
def Gives (answers : List Bool) (l : Limiter) : Prop := l.asks answers.length = answers

instance (answers : List Bool) (l : Limiter) : Decidable (l.Gives answers) := decEq (l.asks answers.length) answers

def after : Nat → Limiter → Limiter
  | 0, l => l
  | n + 1, l => after n l.ask.2

@[simp] theorem gives_nil (l : Limiter) : l.Gives [] := rfl

theorem gives_cons {answer : Bool} {answers : List Bool} {l : Limiter} :
    l.Gives (answer :: answers) ↔ l.ask.1 = answer ∧ l.ask.2.Gives answers := by
  simp [Gives, asks]

theorem gives_append {xs ys : List Bool} {l : Limiter} :
    l.Gives (xs ++ ys) ↔ l.Gives xs ∧ (l.after xs.length).Gives ys := by
  induction xs generalizing l with
  | nil => simp [after]
  | cons x xs ih => simp only [List.cons_append, gives_cons, ih, List.length_cons, after, and_assoc]

theorem after_unlimited (n : Nat) : unlimited.after n = unlimited := by
  induction n with
  | zero => rfl
  | succ n ih => exact ih

end Limiter

def World.hedged (granted : Bool) (w : World σ) : World σ := { w with metrics := w.metrics.recordHedge granted }

namespace Hedging
open Race (Step History)

namespace Call

theorem record_answers (p : HedgePolicy) (now : Nat) (e : Event) (c : Call σ α) (s : Shared σ) :
    (c.record p now e s).answers = ((c.verdict? p e).map fun step => (heard step s).answers).getD [] := by
  -- Where the rules of the race have no say nothing is asked.
  have hquiet (hasks : (c.handle p now e s).2.asks = s.asks) (hv : c.verdict? p e = none) :
      (c.record p now e s).answers = ((c.verdict? p e).map fun step => (heard step s).answers).getD [] := by
    simp [record, hv, Shared.asksSince_of_eq hasks]
  cases hph : c.phase with
  | upcoming => cases e <;> exact hquiet (by simp [handle, hph]) (by simp [verdict?, hph])
  | ended time closing => exact hquiet (by simp [handle, hph]) (by simp [verdict?, hph])
  | racing race timer =>
    cases e with
    | start => exact hquiet (by simp [handle, hph]) (by simp [verdict?, hph])
    | drop => exact hquiet (by simp [handle, hph]) (by simp [verdict?, hph])
    | advance i => exact hquiet (by simp [handle, hph, advance_asks]) (verdict?_advance p i c)
    | timer =>
      cases hp : p.enabled with
      | false => exact hquiet (by simp [handle, hph, hp]) (by simp [verdict?, hp])
      | true => simp [record, handle, verdict?, hph, hp, follow_asksSince]
    | observe i =>
      cases hp : p.enabled with
      | false => exact hquiet (by simp [handle, hph, hp]) (by simp [verdict?, hp])
      | true =>
        cases hat : c.attempts[i]? with
        | none => exact hquiet (by simp [handle, hph, hp, observe, hat]) (by simp [verdict?, sight?, hph, hat])
        | some a =>
          obtain ⟨started, standing⟩ := a
          cases standing with
          | running | completed | panicked | aborted =>
            exact hquiet (by simp [handle, hph, hp, observe, hat]) (by simp [verdict?, sight?, hph, hat])
          | unseen time outcome => simp [record, handle, observe, verdict?, sight?, hph, hp, hat, follow_asksSince]

theorem handle_limiter (p : HedgePolicy) (now : Nat) (e : Event) (c : Call σ α) (s : Shared σ) :
    s.limiter.Gives (c.record p now e s).answers ∧
      (c.handle p now e s).2.limiter = s.limiter.after (c.record p now e s).answers.length := by
  rcases handle_shared p now e c s with ⟨hanswers, world, -, hshared⟩ | ⟨hanswers, hshared⟩
  · rw [hanswers, hshared]
    exact ⟨rfl, rfl⟩
  · rw [hanswers, hshared]
    exact ⟨rfl, rfl⟩

/-- A call whose attempts leave a view alone changes it only by what it asks. -/
theorem handle_view {view : World σ → ω} (hblind : ∀ w g, view (w.hedged g) = view w) {c : Call σ α}
    (h : c.Keeps view) (p : HedgePolicy) (now : Nat) (e : Event) (s : Shared σ) :
    view (c.handle p now e s).2.world = view s.world := by
  rcases handle_shared p now e c s with ⟨-, world, hworld, hshared⟩ | ⟨-, hshared⟩ <;> rw [hshared]
  · exact h.advanced hworld
  · exact hblind s.world s.limiter.ask.1

section Alike
variable {view : World σ → ω} {c : Call σ α} {r s : Shared σ}

theorem finish?_alike (h : c.Holds fun _ t => t.Minds view) (hview : view r.world = view s.world) (e : Event) :
    c.finish? e r = c.finish? e s := by
  cases hph : c.phase with
  | upcoming => simp [finish?, hph]
  | ended time closing => simp [finish?, hph]
  | racing race timer =>
    cases e with
    | start | timer | drop | observe => simp [finish?, hph]
    | advance i =>
      cases hat : c.attempts[i]? with
      | none => simp [finish?, hph, hat]
      | some a =>
        obtain ⟨started, standing⟩ := a
        cases standing with
        | unseen | completed | panicked | aborted => simp [finish?, hph, hat]
        | running due rest =>
          have halike := ((h.running i started due rest hat).advance hview).1
          cases hr : rest.advance r.world with
          | mk progress world =>
            cases hs : rest.advance s.world with
            | mk progress' world' =>
              rw [hr, hs] at halike
              obtain rfl : progress = progress' := halike
              cases progress <;> simp [finish?, hph, hat, hr, hs]

theorem heard_alike {step : Step α} (hgives : r.limiter.Gives (heard step s).answers) :
    heard step r = heard step s := by
  cases step with
  | settled outcome => rfl
  | running race => rfl
  | asking race => simp only [heard, (Limiter.gives_cons.1 hgives).1]

/-- Where the limiter gives the same answers, a call goes through the same. -/
theorem record_alike (h : c.Holds fun _ t => t.Minds view) (hview : view r.world = view s.world) {p : HedgePolicy}
    {now : Nat} {e : Event} (hgives : r.limiter.Gives (c.record p now e s).answers) :
    c.record p now e r = c.record p now e s := by
  have hfinish := finish?_alike h hview e
  ext1
  · simp only [record, ending?, hfinish]
  · rfl
  · rw [record_answers] at hgives
    rw [record_answers, record_answers]
    cases hstep : c.verdict? p e with
    | none => rfl
    | some step =>
      rw [hstep] at hgives
      exact congrArg History.answers (heard_alike hgives)
  · simp only [record, hfinish]

theorem follow_alike (hhedged : ∀ v w g, view v = view w → view (v.hedged g) = view (w.hedged g))
    (hview : view r.world = view s.world) (hhorizon : r.horizon = s.horizon) {step : Step α}
    (hgives : r.limiter.Gives (heard step s).answers) (p : HedgePolicy) (now timer : Nat) (c : Call σ α) :
    (c.follow p now timer step r).1 = (c.follow p now timer step s).1 ∧
      view (c.follow p now timer step r).2.world = view (c.follow p now timer step s).2.world := by
  cases step with
  | settled outcome => exact ⟨rfl, hview⟩
  | running race => exact ⟨rfl, hview⟩
  | asking race =>
    have hask : r.limiter.ask.1 = s.limiter.ask.1 := (Limiter.gives_cons.1 hgives).1
    have hreaches : r.reaches now p.after = s.reaches now p.after := by simp only [Shared.reaches, hhorizon]
    refine ⟨?_, ?_⟩
    · rw [follow_asking, follow_asking, hask, hreaches]
      split
      · cases race.answered (α := α) p s.limiter.ask.1 <;> rfl
      · rfl
    · rw [follow_shared, follow_shared]
      change view (r.world.hedged r.limiter.ask.1) = view (s.world.hedged s.limiter.ask.1)
      rw [hask]
      exact hhedged _ _ _ hview

theorem advance_alike (h : c.Holds fun _ t => t.Minds view) (hview : view r.world = view s.world) (p : HedgePolicy)
    (now i : Nat) : (c.advance p now i r).1 = (c.advance p now i s).1 ∧
      view (c.advance p now i r).2.world = view (c.advance p now i s).2.world := by
  cases hat : c.attempts[i]? with
  | none => simp [advance, hat, hview]
  | some a =>
    obtain ⟨started, standing⟩ := a
    cases standing with
    | unseen | completed | panicked | aborted => simp [advance, hat, hview]
    | running due rest =>
      obtain ⟨hprogress, hworld⟩ := (h.running i started due rest hat).advance hview
      cases hr : rest.advance r.world with
      | mk progress world =>
        cases hs : rest.advance s.world with
        | mk progress' world' =>
          rw [hr, hs] at hprogress hworld
          obtain rfl : progress = progress' := hprogress
          cases progress <;> simpa [advance, hat, hr, hs] using hworld

/-- Where the limiter gives the same answers and the clock goes as far, an event makes the same of a call and of
what its attempts see of the world. -/
theorem handle_alike (hhedged : ∀ v w g, view v = view w → view (v.hedged g) = view (w.hedged g))
    (h : c.Holds fun _ t => t.Minds view) (hview : view r.world = view s.world) (hhorizon : r.horizon = s.horizon)
    {p : HedgePolicy} {now : Nat} {e : Event} (hgives : r.limiter.Gives (c.record p now e s).answers) :
    (c.handle p now e r).1 = (c.handle p now e s).1 ∧
      view (c.handle p now e r).2.world = view (c.handle p now e s).2.world := by
  rw [record_answers] at hgives
  cases hph : c.phase with
  | upcoming => cases e <;> simp [handle, hph, hview]
  | ended time closing => simp [handle, hph, hview]
  | racing race timer =>
    cases e with
    | start => simp [handle, hph, hview]
    | drop => simp [handle, hph, hview]
    | advance i => simpa only [handle, hph] using advance_alike h hview p now i
    | timer =>
      cases hp : p.enabled with
      | false => simp [handle, hph, hp, hview]
      | true =>
        simp only [verdict?, hph, hp, if_true, Option.map_some, Option.getD_some] at hgives
        simpa only [handle, hph, hp, if_true] using follow_alike hhedged hview hhorizon hgives p now timer c
    | observe i =>
      cases hp : p.enabled with
      | false => simp [handle, hph, hp, hview]
      | true =>
        cases hat : c.attempts[i]? with
        | none => simp [handle, hph, hp, observe, hat, hview]
        | some a =>
          obtain ⟨started, standing⟩ := a
          cases standing with
          | running | completed | panicked | aborted => simp [handle, hph, hp, observe, hat, hview]
          | unseen time outcome =>
            simp only [verdict?, sight?, hph, hp, hat, if_true, Option.map_some, Option.getD_some] at hgives
            simpa only [handle, hph, hp, observe, hat, if_true] using
              follow_alike hhedged hview hhorizon hgives p now timer (c.stand i (.ofOutcome time outcome))

end Alike
end Call
end Hedging
end ObjectStorage
