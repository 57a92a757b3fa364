import ObjectStorage.Proofs.Hedging.Conduct
import ObjectStorage.Proofs.Work.Keeps
import Mathlib.Algebra.BigOperators.Fin
import Mathlib.Algebra.Order.BigOperators.Group.Finset

/-! # The budget of hedges

Each round of a hedged call is one ask of the limiter, and each grant is one attempt more. What all
calls of a hall were granted is what the limiter granted and what the counters tell.
-/
namespace ObjectStorage.Hedging
open Race (Step History)

variable {σ α : Type}

def Shared.answers (s : Shared σ) : List Bool := s.asks.map Prod.snd

@[simp] theorem Shared.answers_ask (s : Shared σ) (now : Nat) :
    (s.ask now).2.answers = s.limiter.ask.1 :: s.answers := rfl

theorem Shared.hedgeCounts_ask (s : Shared σ) (now : Nat) (g : Bool) :
    (s.ask now).2.world.hedgeCounts g = s.world.hedgeCounts g + [s.limiter.ask.1].count g := by
  have hask : (s.ask now).2.world.hedgeCounts g =
      (s.world.metrics.record (.ofAnswer s.limiter.ask.1)).count (.ofAnswer g) := rfl
  rw [hask, Metrics.count_record]
  cases g <;> cases s.limiter.ask.1 <;> simp [World.hedgeCounts, Series.ofAnswer]

namespace Call

/-- How a hedged call keeps to its budget: it asked once for each round, and beyond its first attempt issued what it
was granted. -/
structure KeepsBudget (p : HedgePolicy) (c : Call σ α) (x : History α) : Prop where
  asks : x.answers.length = x.rounds
  rounds_le : x.rounds ≤ p.upTo
  counter : ∀ race timer, c.phase = .racing race timer → race.rounds = x.rounds
  upcoming : c.phase = .upcoming → c.attempts = [] ∧ x.answers = []
  issued : c.phase ≠ .upcoming → c.attempts.length = 1 + x.answers.count true
  issued_le : c.attempts.length ≤ 1 + p.upTo

theorem Stands.keepsBudget {p : HedgePolicy} {c : Call σ α} {x : History α} (h : c.Stands p x) :
    c.KeepsBudget p x := by
  have hcount : x.answers.count true ≤ x.answers.length := List.count_le_length
  cases h with
  | upcoming phase attempts history =>
    subst history
    exact ⟨rfl, Nat.zero_le _, by simp [phase], fun _ => ⟨attempts, rfl⟩, fun hne => absurd phase hne,
      by simp [attempts]⟩
  | racing phase stands runs =>
    have hissued : c.attempts.length = 1 + x.answers.count true :=
      runs.issued.trans stands.tallies.issued
    have hle := stands.rounds_le
    have hans := stands.answered
    refine ⟨hans.symm, hle, ?_, by simp [phase], fun _ => hissued, by omega⟩
    intro race timer hph
    rw [phase] at hph
    cases hph
    exact stands.tallies.rounds
  | ended phase isOver =>
    have hissued : c.attempts.length = 1 + x.answers.count true := isOver.issued
    have hle := isOver.rounds_le
    have hans := isOver.answered
    exact ⟨hans.symm, hle, by simp [phase], by simp [phase], fun _ => hissued, by omega⟩

/-- A call without hedging has the one attempt it started with and was answered nothing. -/
structure Single (c : Call σ α) (x : History α) : Prop where
  answers : x.answers = []
  upcoming : c.phase = .upcoming → c.attempts = []
  issued : c.phase ≠ .upcoming → c.attempts.length = 1

theorem Single.length_le_one {c : Call σ α} {x : History α} (h : c.Single x) : c.attempts.length ≤ 1 := by
  by_cases hph : c.phase = .upcoming
  · simp [h.upcoming hph]
  · exact Nat.le_of_eq (h.issued hph)

theorem handle_single {p : HedgePolicy} (hp : p.enabled = false) {c : Call σ α} {x : History α}
    (h : c.Single x) (now : Nat) (e : Event) (s : Shared σ) :
    (c.handle p now e s).1.Single (x ++ c.record p now e s) := by
  have hmove := move_handle p now e c s
  generalize c.record p now e s = y at hmove ⊢
  generalize c.handle p now e s = r at hmove ⊢
  have hone {race : Race} {timer : Nat} (hph : c.phase = .racing race timer) : c.attempts.length = 1 :=
    h.issued (by simp [hph])
  cases hmove with
  | idle => simpa using h
  | started hph => exact ⟨by simpa using h.answers, by simp, fun _ => by simp [launch, h.upcoming hph]⟩
  | continued hph _ _ =>
    have hph' := hph
    exact ⟨by simpa using h.answers, by simp [stand, hph], fun _ => by simpa using hone hph'⟩
  | finished hon _ _ _ => rw [hp] at hon; cases hon
  | observed hon _ _ => rw [hp] at hon; cases hon
  | returned _ hph _ _ =>
    exact ⟨by simpa using h.answers, by simp [finish], fun _ => by simpa using hone hph⟩
  | fired hon _ => rw [hp] at hon; cases hon
  | dropped hph => exact ⟨by simpa using h.answers, by simp [finish], fun _ => by simpa using hone hph⟩

theorem length_attempts_le {p : HedgePolicy} {c : Call σ α} {x : History α}
    (hon : p.enabled = true → c.KeepsBudget p x) (hoff : p.enabled = false → c.Single x) :
    c.attempts.length ≤ 1 + x.answers.count true := by
  cases hp : p.enabled with
  | true =>
    by_cases hph : c.phase = .upcoming
    · simp [((hon hp).upcoming hph).1]
    · exact Nat.le_of_eq ((hon hp).issued hph)
  | false => exact (hoff hp).length_le_one.trans (Nat.le_add_right 1 _)

/-! ## The shared accounts -/

theorem handle_answers (p : HedgePolicy) (now : Nat) (e : Event) (c : Call σ α) (s : Shared σ) (g : Bool) :
    (c.handle p now e s).2.answers.count g = s.answers.count g + (c.record p now e s).answers.count g := by
  rcases handle_shared p now e c s with ⟨hanswers, world, -, hshared⟩ | ⟨hanswers, hshared⟩
  · rw [hanswers, hshared]
    rfl
  · rw [hanswers, hshared, Shared.answers_ask, List.count_cons, List.count_singleton]

/-- The work of a call leaves what a view shows of the world alone: that of its attempts to come and
what is left of those that run. -/
structure Keeps {ω : Type} (view : World σ → ω) (c : Call σ α) : Prop where
  attempt : ∀ n, (c.attempt n).Keeps view
  running : ∀ (i started due : Nat) (rest : Timed (World σ) (Except StorageError α)),
    c.attempts[i]? = some ⟨started, .running due rest⟩ → rest.Keeps view

theorem Keeps.handle {ω : Type} {view : World σ → ω} {c : Call σ α} (h : c.Keeps view) (p : HedgePolicy) (now : Nat)
    (e : Event) (s : Shared σ) : (c.handle p now e s).1.Keeps view := by
  have hholds : c.Holds fun _ t => t.Keeps view := ⟨fun n _ => h.attempt n, h.running⟩
  refine ⟨by rw [handle_attempt]; exact h.attempt, (hholds.handle ?_ p now e s).running⟩
  intro i t w d next ht hwaits
  exact (ht.advance w).2 d next hwaits

theorem Keeps.advanced {ω : Type} {view : World σ → ω} {c : Call σ α} (h : c.Keeps view) {w world : World σ}
    (hworld : c.Advanced w world) : view world = view w := by
  rcases hworld with rfl | ⟨i, started, due, rest, hat, rfl⟩
  · rfl
  · exact ((h.running i started due rest hat).advance w).1

theorem handle_hedgeCounts {c : Call σ α} (h : c.Keeps World.hedgeCounts) (p : HedgePolicy) (now : Nat)
    (e : Event) (s : Shared σ) (g : Bool) :
    (c.handle p now e s).2.world.hedgeCounts g =
      s.world.hedgeCounts g + (c.record p now e s).answers.count g := by
  rcases handle_shared p now e c s with ⟨hanswers, world, hworld, hshared⟩ | ⟨hanswers, hshared⟩
  · rw [hanswers, hshared]
    exact congrFun (h.advanced hworld) g
  · rw [hanswers, hshared, Shared.hedgeCounts_ask]

end Call

namespace Hall

@[simp] theorem length_handle (h : Hall σ α) (now i : Nat) (e : Event) :
    (h.handle now i e).calls.length = h.calls.length := by
  cases hi : h.calls[i]? with
  | none => rw [handle_of_none hi]
  | some c => rw [handle_of_getElem? hi, List.length_set]

@[simp] theorem length_play (h : Hall σ α) (es : List (Nat × Nat × Event)) :
    (h.play es).calls.length = h.calls.length := by
  induction es generalizing h with
  | nil => rfl
  | cons ev es ih =>
    obtain ⟨now, i, e⟩ := ev
    rw [play_cons, ih, length_handle]

theorem sum_record {h : Hall σ α} {i : Nat} {c : Call σ α} (hi : h.calls[i]? = some c) (now : Nat) (e : Event)
    (g : Bool) : ∑ k ∈ Finset.range h.calls.length, (h.record k now i e).answers.count g =
      (c.record h.policy now e h.shared).answers.count g := by
  obtain ⟨hlt, -⟩ := List.getElem?_eq_some_iff.1 hi
  rw [Finset.sum_eq_single_of_mem i (Finset.mem_range.2 hlt)]
  · simp [record, hi]
  · intro k _ hki
    unfold record
    split <;> simp [Ne.symm hki]

/-- An account that every event raises by the answers of its call is raised by a schedule by the answers of all
calls. -/
theorem play_account {m : Shared σ → Nat} {g : Bool} {P : Call σ α → Prop} {h : Hall σ α}
    (step : ∀ c now e s, P c → P (c.handle h.policy now e s).1 ∧
      m (c.handle h.policy now e s).2 = m s + (c.record h.policy now e s).answers.count g)
    (hP : ∀ c ∈ h.calls, P c) (es : List (Nat × Nat × Event)) :
    m (h.play es).shared =
      m h.shared + ∑ k ∈ Finset.range h.calls.length, (h.history k es).answers.count g := by
  induction es generalizing h with
  | nil => simp [history, play]
  | cons ev es ih =>
    obtain ⟨now, i, e⟩ := ev
    simp only [play_cons, history, History.answers_append, List.count_append, Finset.sum_add_distrib]
    cases hi : h.calls[i]? with
    | none =>
      have hzero : ∑ k ∈ Finset.range h.calls.length, (h.record k now i e).answers.count g = 0 := by
        refine Finset.sum_eq_zero ?_
        intro k hk
        have hki : i ≠ k := by
          rintro rfl
          exact absurd hi (by simp [Finset.mem_range.1 hk])
        unfold record
        split <;> simp [hki]
      rw [handle_of_none hi, ih step hP, hzero, Nat.zero_add]
    | some c =>
      have hc : c ∈ h.calls := List.mem_of_getElem? hi
      obtain ⟨hkeep, hraise⟩ := step c now e h.shared (hP c hc)
      have hall : ∀ d ∈ (h.handle now i e).calls, P d := by
        rw [handle_of_getElem? hi]
        intro d hd
        rcases List.mem_or_eq_of_mem_set hd with hd | rfl
        · exact hP d hd
        · exact hkeep
      have hshared : (h.handle now i e).shared = (c.handle h.policy now e h.shared).2 := by
        rw [handle_of_getElem? hi]
      rw [ih (by simpa using step) hall, length_handle, hshared, hraise, sum_record hi]
      exact Nat.add_assoc _ _ _

def attempts (h : Hall σ α) : Nat := (h.calls.map fun c => c.attempts.length).sum

theorem attempts_le {h : Hall σ α} {f : Nat → Nat}
    (hf : ∀ k c, h.calls[k]? = some c → c.attempts.length ≤ 1 + f k) :
    h.attempts ≤ h.calls.length + ∑ k ∈ Finset.range h.calls.length, f k := by
  have hsum : h.attempts = ∑ k : Fin h.calls.length, h.calls[k].attempts.length :=
    (Fin.sum_univ_fun_getElem h.calls fun c => c.attempts.length).symm
  calc h.attempts
      _ = ∑ k : Fin h.calls.length, h.calls[k].attempts.length := hsum
      _ ≤ ∑ k : Fin h.calls.length, (1 + f k) :=
        Finset.sum_le_sum fun k _ => hf k h.calls[k] (by simp)
      _ = h.calls.length + ∑ k ∈ Finset.range h.calls.length, f k := by
        rw [Finset.sum_add_distrib, Finset.sum_range]
        simp

theorem handle_start_shared (h : Hall σ α) (now k : Nat) : (h.handle now k .start).shared = h.shared := by
  cases hk : h.calls[k]? with
  | none => rw [handle_of_none hk]
  | some c =>
    rw [handle_of_getElem? hk]
    cases hph : c.phase <;> simp [Call.handle, hph]

theorem play_single {h : Hall σ α} (hp : h.policy.enabled = false) {k : Nat} {c : Call σ α}
    (hc : h.calls[k]? = some c) (hfresh : c.Fresh) (es : List (Nat × Nat × Event)) :
    ∃ d, (h.play es).calls[k]? = some d ∧ d.Single (h.history k es) := by
  have hstart : c.Single ({} : History α) := ⟨rfl, fun _ => hfresh.attempts, fun hne => absurd hfresh.phase hne⟩
  obtain ⟨d, hd, hsingle⟩ := play_induction (P := fun c x => c.Single x)
    (fun c x now e s hx => Call.handle_single hp hx now e s) hc hstart es
  exact ⟨d, hd, by simpa using hsingle⟩

theorem play_budget {h : Hall σ α} (hfresh : ∀ c ∈ h.calls, c.Fresh) (es : List (Nat × Nat × Event)) {k : Nat}
    {d : Call σ α} (hd : (h.play es).calls[k]? = some d) :
    (h.policy.enabled = true → d.KeepsBudget h.policy (h.history k es)) ∧
    (h.policy.enabled = false → d.Single (h.history k es)) := by
  obtain ⟨hlt, -⟩ := List.getElem?_eq_some_iff.1 hd
  rw [length_play] at hlt
  have hc : h.calls[k]? = some h.calls[k] := List.getElem?_eq_getElem hlt
  have hck := hfresh h.calls[k] (List.getElem_mem hlt)
  constructor
  · intro hp
    obtain ⟨d', hd', hstands⟩ := play_stands hp hc hck es
    rw [hd] at hd'
    cases hd'
    exact hstands.keepsBudget
  · intro hp
    obtain ⟨d', hd', hsingle⟩ := play_single hp hc hck es
    rw [hd] at hd'
    cases hd'
    exact hsingle

/-- The budget of hedges, for any number of calls under one policy and one limiter. With hedging each call asked
once for each round it used, and issued one attempt more than it was granted; without it, it issues one attempt and
asks nothing. The limiter's answers are those the calls got, and so are the counters. -/
theorem hedge_budget {h : Hall σ α} (hfresh : ∀ c ∈ h.calls, c.Fresh) (es : List (Nat × Nat × Event)) :
    (∀ (k : Nat) (d : Call σ α), (h.play es).calls[k]? = some d →
      (h.policy.enabled = true → d.KeepsBudget h.policy (h.history k es)) ∧
      (h.policy.enabled = false → d.Single (h.history k es))) ∧
    (∀ now k, ((h.play es).handle now k .start).shared = (h.play es).shared) ∧
    (∀ g, (h.play es).shared.answers.count g = h.shared.answers.count g +
      ∑ k ∈ Finset.range h.calls.length, (h.history k es).answers.count g) ∧
    ((∀ c ∈ h.calls, ∀ n, (c.attempt n).Keeps World.hedgeCounts) →
      ∀ g, (h.play es).shared.world.hedgeCounts g = h.shared.world.hedgeCounts g +
        ∑ k ∈ Finset.range h.calls.length, (h.history k es).answers.count g) ∧
    ∀ N, (h.play es).shared.answers.count true ≤ h.shared.answers.count true + N →
      (h.play es).attempts ≤ h.calls.length + N := by
  have hanswers (g : Bool) : (h.play es).shared.answers.count g = h.shared.answers.count g +
      ∑ k ∈ Finset.range h.calls.length, (h.history k es).answers.count g :=
    play_account (m := fun s => s.answers.count g) (P := fun _ => True)
      (fun c now e s _ => ⟨trivial, Call.handle_answers h.policy now e c s g⟩) (fun _ _ => trivial) es
  refine ⟨fun k d hd => play_budget hfresh es hd, fun now k => handle_start_shared _ now k, hanswers, ?_, ?_⟩
  · intro hkeeps g
    refine play_account (m := fun s => s.world.hedgeCounts g) (P := fun c => c.Keeps World.hedgeCounts)
      (fun c now e s hc => ⟨hc.handle _ now e s, Call.handle_hedgeCounts hc _ now e s g⟩) ?_ es
    intro c hc
    exact ⟨hkeeps c hc, fun i started due rest hi => by simp [(hfresh c hc).attempts] at hi⟩
  · intro N hN
    have hle : (h.play es).attempts ≤ (h.play es).calls.length +
        ∑ k ∈ Finset.range (h.play es).calls.length, (h.history k es).answers.count true := by
      refine attempts_le ?_
      intro k d hd
      obtain ⟨hon, hoff⟩ := play_budget hfresh es hd
      exact Call.length_attempts_le hon hoff
    have htrue := hanswers true
    rw [length_play] at hle
    omega

end Hall

def resetting : Client Unit where
  retry := { maxRetries := 0 }
  backend := { call := fun _ => .wait (.ofMillis 100) (.done (.error (.network "reset"))), steps := 2 }

/-- Two reads that share a limiter with one permit. -/
def sharing : Hall Unit Fetched where
  policy := { after := .ofMillis 1, upTo := 3, maxPerSecond := 1 }
  calls := [0, 0].map fun start => { start := start, attempt := fun _ => resetting.readAttempt "k" }
  shared := { world := { store := () }, limiter := .permits 1 }

def sharingSchedule : List (Nat × Nat × Event) :=
  [(0, 0, .start), (0, 1, .start), (0, 1, .advance 0), (0, 0, .advance 0), (1, 1, .timer), (1, 0, .timer),
    (1, 1, .advance 1), (2, 0, .timer), (100, 0, .advance 0), (100, 1, .drop), (101, 0, .observe 0)]

theorem sharing_budget : (∀ c ∈ sharing.calls, c.Fresh) ∧
    (sharing.play sharingSchedule).shared.world.hedgeCounts true = 1 ∧
    (sharing.play sharingSchedule).shared.world.hedgeCounts false = 3 ∧
    (sharing.play sharingSchedule).attempts ≤ 2 + 1 := by
  have hfresh : ∀ c ∈ sharing.calls, c.Fresh := by
    intro c hc
    obtain ⟨start, -, rfl⟩ := List.mem_map.1 hc
    exact ⟨rfl, rfl⟩
  have hkeeps : ∀ c ∈ sharing.calls, ∀ n, (c.attempt n).Keeps World.hedgeCounts := by
    intro c hc n
    obtain ⟨start, -, rfl⟩ := List.mem_map.1 hc
    exact resetting.keeps_readAttempt "k"
  obtain ⟨-, -, -, hcounts, hbound⟩ := Hall.hedge_budget hfresh sharingSchedule
  exact ⟨hfresh, hcounts hkeeps true, hcounts hkeeps false, hbound 1 (by decide)⟩

end ObjectStorage.Hedging
