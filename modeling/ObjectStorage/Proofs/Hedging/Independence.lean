import ObjectStorage.Proofs.Hedging.Clock
import ObjectStorage.Proofs.Hedging.Likeness

/-! # Calls beside each other

Calls that race under one policy share a limiter and the world, and nothing else. What one of them goes
through is what it would go through alone, if alone the limiter gave it the same answers and its attempts
found of the world what they look at. Under a limiter that grants everything the other calls are not seen at
all.
-/
namespace ObjectStorage.Hedging
open Race (History)

variable {σ α ω : Type}

/-- What a call comes to and goes through alone: it has a limiter of its own, and each of its events finds the
world as given. -/
def Call.alone (p : HedgePolicy) (horizon : Option Nat) :
    List (World σ × Nat × Event) → Call σ α → Limiter → Call σ α × History α
  | [], c, _ => (c, {})
  | (world, now, e) :: events, c, l =>
    let s : Shared σ := { world := world, limiter := l, horizon := horizon }
    let (d, x) := alone p horizon events (c.handle p now e s).1 (c.handle p now e s).2.limiter
    (d, c.record p now e s ++ x)

theorem Call.handle_own {p : HedgePolicy} {now : Nat} {e : Event} {c : Call σ α} {s : Shared σ} {l : Limiter}
    (hl : l.Gives (c.record p now e s).answers) :
    let own : Shared σ := { world := s.world, limiter := l, horizon := s.horizon }
    (c.handle p now e own).1 = (c.handle p now e s).1 ∧ c.record p now e own = c.record p now e s ∧
      (c.handle p now e own).2.limiter = l.after (c.record p now e s).answers.length := by
  intro own
  have hholds : c.Holds fun _ t => t.Minds (id : World σ → World σ) :=
    ⟨fun n _ => Timed.minds_id _, fun _ _ _ _ _ => Timed.minds_id _⟩
  have hhedged (v w : World σ) (g : Bool) (hvw : id v = id w) : id (v.hedged g) = id (w.hedged g) := by
    obtain rfl : v = w := hvw
    rfl
  have hview : id own.world = id s.world := rfl
  have hrecord := record_alike hholds hview hl
  refine ⟨(handle_alike hhedged hholds hview rfl hl).1, hrecord, ?_⟩
  rw [(handle_limiter p now e c _).2, hrecord]

namespace Hall

def own (k : Nat) (es : List (Nat × Nat × Event)) : List (Nat × Nat × Event) :=
  es.filterMap fun (now, i, e) => if i = k then some (now, 0, e) else none

@[simp] theorem own_cons_self (k now : Nat) (e : Event) (es : List (Nat × Nat × Event)) :
    own k ((now, k, e) :: es) = (now, 0, e) :: own k es := by
  simp [own]

theorem own_cons_of_ne {i k : Nat} (hik : i ≠ k) (now : Nat) (e : Event) (es : List (Nat × Nat × Event)) :
    own k ((now, i, e) :: es) = own k es := by
  simp [own, hik]

/-- What a call meets: its own events, and the world as each of them finds it. -/
def met (k : Nat) : List (Nat × Nat × Event) → Hall σ α → List (World σ × Nat × Event)
  | [], _ => []
  | (now, i, e) :: es, h =>
    if i = k then (h.shared.world, now, e) :: met k es (h.handle now i e) else met k es (h.handle now i e)

theorem handle_self {h : Hall σ α} {k : Nat} {c : Call σ α} (hc : h.calls[k]? = some c) (now : Nat) (e : Event) :
    (h.handle now k e).calls[k]? = some (c.handle h.policy now e h.shared).1 ∧
      (h.handle now k e).shared = (c.handle h.policy now e h.shared).2 := by
  refine ⟨?_, by rw [handle_of_getElem? hc]⟩
  rw [getElem?_handle, if_pos rfl, hc]
  rfl

theorem handle_other {h : Hall σ α} {i k : Nat} (hik : i ≠ k) (now : Nat) (e : Event) :
    (h.handle now i e).calls[k]? = h.calls[k]? := by
  rw [getElem?_handle, if_neg hik]

theorem alone_met {h : Hall σ α} {k : Nat} {c : Call σ α} (hc : h.calls[k]? = some c) (es : List (Nat × Nat × Event))
    {l : Limiter} (hl : l.Gives (h.history k es).answers) :
    ∃ d, (h.play es).calls[k]? = some d ∧
      Call.alone h.policy h.shared.horizon (h.met k es) c l = (d, h.history k es) := by
  induction es generalizing h c l with
  | nil => exact ⟨c, hc, rfl⟩
  | cons ev es ih =>
    obtain ⟨now, i, e⟩ := ev
    have hpolicy := handle_policy h now i e
    rw [play_cons]
    by_cases hik : i = k
    · subst hik
      rw [history_cons_self hc] at hl ⊢
      obtain ⟨hheard, hlater⟩ := Limiter.gives_append.1 hl
      obtain ⟨hcall, hrecord, hlimiter⟩ := Call.handle_own hheard
      obtain ⟨d, hd, halone⟩ := ih (handle_self hc now e).1 hlater
      refine ⟨d, hd, ?_⟩
      rw [hpolicy, handle_horizon] at halone
      rw [met, if_pos rfl, Call.alone, hcall, hlimiter, halone, hrecord]
    · rw [history_cons_of_ne hik] at hl ⊢
      rw [met, if_neg hik, ← hpolicy, ← handle_horizon h now i e]
      exact ih (by rwa [handle_other hik]) hl

/-- One call goes by a view of the world, and the other calls leave alone what it shows. -/
structure Apart (view : World σ → ω) (k : Nat) (h : Hall σ α) : Prop where
  blind : ∀ w g, view (w.hedged g) = view w
  own : ∀ c, h.calls[k]? = some c → c.Holds fun _ t => t.Minds view
  others : ∀ i c, i ≠ k → h.calls[i]? = some c → c.Keeps view

variable {view : World σ → ω} {k : Nat} {h alone : Hall σ α}

theorem Apart.handle (ha : Apart view k h) (now i : Nat) (e : Event) : Apart view k (h.handle now i e) := by
  refine ⟨ha.blind, ?_, ?_⟩
  · intro d hd
    rw [getElem?_handle] at hd
    split at hd
    · obtain ⟨c, hc, rfl⟩ := Option.map_eq_some_iff.1 hd
      refine (ha.own c hc).handle ?_ h.policy now e h.shared
      intro _ t w wait next ht hwaits
      exact ht.waiting hwaits
    · exact ha.own d hd
  · intro j d hjk hd
    rw [getElem?_handle] at hd
    split at hd
    · obtain ⟨c, hc, rfl⟩ := Option.map_eq_some_iff.1 hd
      exact (ha.others j c hjk hc).handle h.policy now e h.shared
    · exact ha.others j d hjk hd

/-- The call of one hall stands as it does in another one, and sees the same of the world. -/
structure Rehearses (view : World σ → ω) (k : Nat) (h alone : Hall σ α) : Prop where
  calls : ∃ c, h.calls[k]? = some c ∧ alone.calls = [c]
  policy : alone.policy = h.policy
  world : view alone.shared.world = view h.shared.world
  horizon : alone.shared.horizon = h.shared.horizon

theorem Rehearses.handle_other (hr : Rehearses view k h alone) (ha : Apart view k h) {i : Nat} (hik : i ≠ k) (now : Nat)
    (e : Event) : Rehearses view k (h.handle now i e) alone := by
  refine ⟨by rw [Hall.handle_other hik]; exact hr.calls, by rw [handle_policy]; exact hr.policy, hr.world.trans ?_,
    by rw [handle_horizon]; exact hr.horizon⟩
  cases hi : h.calls[i]? with
  | none => rw [handle_of_none hi]
  | some c =>
    rw [(handle_self hi now e).2]
    exact (Call.handle_view ha.blind (ha.others i c hik hi) h.policy now e h.shared).symm

theorem Rehearses.handle_self (hr : Rehearses view k h alone) (ha : Apart view k h) (now : Nat) (e : Event)
    (hgives : alone.shared.limiter.Gives (h.record k now k e).answers) :
    Rehearses view k (h.handle now k e) (alone.handle now 0 e) ∧
      alone.record 0 now 0 e = h.record k now k e ∧
      (alone.handle now 0 e).shared.limiter = alone.shared.limiter.after (h.record k now k e).answers.length := by
  obtain ⟨c, hc, hcalls⟩ := hr.calls
  have hc' : alone.calls[0]? = some c := by rw [hcalls]; rfl
  have hrecord : h.record k now k e = c.record h.policy now e h.shared := by simp [Hall.record, hc]
  have hrecord' : alone.record 0 now 0 e = c.record h.policy now e alone.shared := by
    simp [Hall.record, hc', hr.policy]
  rw [hrecord] at hgives ⊢
  have halike := Call.record_alike (ha.own c hc) hr.world hgives
  obtain ⟨hcall, hworld⟩ := Call.handle_alike
    (fun v w g hvw => by rw [ha.blind, ha.blind, hvw]) (ha.own c hc) hr.world hr.horizon hgives
  obtain ⟨hself, hshared⟩ := Hall.handle_self hc now e
  obtain ⟨-, hshared'⟩ := Hall.handle_self hc' now e
  refine ⟨⟨⟨_, hself, ?_⟩, ?_, ?_, ?_⟩, hrecord'.trans halike, ?_⟩
  · rw [handle_of_getElem? hc', hcalls, hr.policy, hcall]
    rfl
  · rw [handle_policy, handle_policy, hr.policy]
  · rw [hshared, hshared', hr.policy, hworld]
  · rw [handle_horizon, handle_horizon, hr.horizon]
  · rw [hshared', hr.policy, (Call.handle_limiter h.policy now e c alone.shared).2, halike]

theorem Rehearses.next? (hr : Rehearses view k h alone) {now : Nat} {e : Event} (hnext : h.next? = some (now, k, e)) :
    alone.next? = some (now, 0, e) := by
  obtain ⟨c, hc, hcalls⟩ := hr.calls
  obtain ⟨c', hc', hdue⟩ := next?_call hnext
  obtain rfl : c = c' := Option.some.inj (hc.symm.trans hc')
  rw [next?_alone hcalls, hr.policy, hdue]
  rfl

theorem Rehearses.play (hr : Rehearses view k h alone) (ha : Apart view k h) (es : List (Nat × Nat × Event))
    (hgives : alone.shared.limiter.Gives (h.history k es).answers) :
    Rehearses view k (h.play es) (alone.play (own k es)) ∧ alone.history 0 (own k es) = h.history k es ∧
      (Timely es h → Timely (own k es) alone) := by
  induction es generalizing h alone with
  | nil => exact ⟨hr, rfl, fun _ => trivial⟩
  | cons ev es ih =>
    obtain ⟨now, i, e⟩ := ev
    have ha' := ha.handle now i e
    rw [play_cons]
    by_cases hik : i = k
    · subst hik
      rw [history] at hgives ⊢
      obtain ⟨hheard, hlater⟩ := Limiter.gives_append.1 hgives
      obtain ⟨hr', hrecord, hlimiter⟩ := hr.handle_self ha now e hheard
      obtain ⟨hplay, hhistory, htimely⟩ := ih hr' ha' (by rwa [hlimiter])
      rw [own_cons_self, play_cons, history, hrecord, hhistory]
      refine ⟨hplay, rfl, ?_⟩
      rintro ⟨hnext, hrest⟩
      exact ⟨hr.next? hnext, htimely hrest⟩
    · -- the call on its own does not go through what happens to others
      rw [history_cons_of_ne hik] at hgives ⊢
      rw [own_cons_of_ne hik]
      obtain ⟨hplay, hhistory, htimely⟩ := ih (hr.handle_other ha hik now e) ha' hgives
      exact ⟨hplay, hhistory, fun hes => htimely hes.2⟩

/-- One call of a hall comes out as it does alone, and goes through the same at the same times; and so it does by
the clock. -/
structure AsAlone (k : Nat) (es : List (Nat × Nat × Event)) (h alone : Hall σ α) : Prop where
  call : (alone.play (own k es)).calls[0]? = (h.play es).calls[k]?
  history : alone.history 0 (own k es) = h.history k es
  clock : Timely es h → Hall.run (own k es).length alone = alone.play (own k es)
  rests : (h.play es).next? = none → (alone.play (own k es)).next? = none

theorem Rehearses.asAlone (hr : Rehearses view k h alone) (ha : Apart view k h) {es : List (Nat × Nat × Event)}
    (hgives : alone.shared.limiter.Gives (h.history k es).answers) : AsAlone k es h alone := by
  obtain ⟨hplay, hhistory, htimely⟩ := hr.play ha es hgives
  obtain ⟨c, hc, hcalls⟩ := hplay.calls
  refine ⟨by rw [hcalls, hc]; rfl, hhistory, fun hes => ?_, fun hnone => ?_⟩
  · have hrun := run_of_timely (htimely hes) 0
    rwa [Nat.zero_add] at hrun
  rw [next?_alone hcalls, hplay.policy, next?_eq_none.1 hnone c (List.mem_of_getElem? hc)]
  rfl

theorem gives_unlimited (hl : h.shared.limiter = .unlimited) (k : Nat) (es : List (Nat × Nat × Event)) :
    Limiter.unlimited.Gives (h.history k es).answers := by
  induction es generalizing h with
  | nil => rfl
  | cons ev es ih =>
    obtain ⟨now, i, e⟩ := ev
    have hlater : (h.handle now i e).shared.limiter = .unlimited := by
      cases hi : h.calls[i]? with
      | none => rwa [handle_of_none hi]
      | some c => rw [(Hall.handle_self hi now e).2, (Call.handle_limiter _ _ _ _ _).2, hl, Limiter.after_unlimited]
    rw [history, History.answers_append, Limiter.gives_append, Limiter.after_unlimited]
    refine ⟨?_, ih hlater⟩
    unfold record
    cases h.calls[k]? with
    | none => rfl
    | some c =>
      by_cases hik : i = k
      · simp only [hik, if_true, ← hl]
        exact (Call.handle_limiter h.policy now e c h.shared).1
      · simp [hik]

theorem handle_drop (h : Hall σ α) (now i : Nat) :
    (h.handle now i .drop).shared = h.shared ∧ ∀ k, i ≠ k → (h.handle now i .drop).calls[k]? = h.calls[k]? := by
  refine ⟨?_, fun k hik => handle_other hik now .drop⟩
  cases hi : h.calls[i]? with
  | none => rw [handle_of_none hi]
  | some c =>
    rw [(Hall.handle_self hi now .drop).2]
    cases hph : c.phase <;> simp [Call.handle, hph]

/-- Hedged calls do not disturb each other. Each comes out as alone, and goes through the same at the same times,
where alone the limiter gives it the same answers. Under a limiter that grants everything it does so anyway, and a
caller who gives up changes no other call. -/
theorem calls_independent {h : Hall σ α} {k : Nat} {c : Call σ α} (hc : h.calls[k]? = some c)
    (es : List (Nat × Nat × Event)) :
    (∀ l : Limiter, l.Gives (h.history k es).answers →
      ∃ d, (h.play es).calls[k]? = some d ∧
        Call.alone h.policy h.shared.horizon (h.met k es) c l = (d, h.history k es)) ∧
    (∀ {ω : Type} (view : World σ → ω), Apart view k h → ∀ s : Shared σ, view s.world = view h.shared.world →
      s.horizon = h.shared.horizon → s.limiter.Gives (h.history k es).answers → AsAlone k es h ⟨h.policy, [c], s⟩) ∧
    (h.shared.limiter = .unlimited →
      Limiter.unlimited.Gives (h.history k es).answers ∧
      (∀ es', h.met k es' = h.met k es →
        (h.play es').calls[k]? = (h.play es).calls[k]? ∧ h.history k es' = h.history k es) ∧
      ∀ {ω : Type} (view : World σ → ω), Apart view k h →
        AsAlone k es h ⟨h.policy, [c], h.shared⟩ ∧
        ∀ es', own k es' = own k es →
          (h.play es').calls[k]? = (h.play es).calls[k]? ∧ h.history k es' = h.history k es) ∧
    ∀ now i, i ≠ k → ((h.play es).handle now i .drop).shared = (h.play es).shared ∧
      ((h.play es).handle now i .drop).calls[k]? = (h.play es).calls[k]? := by
  have hasAlone {ω : Type} (view : World σ → ω) (ha : Apart view k h) (s : Shared σ)
      (hs : view s.world = view h.shared.world) (hhorizon : s.horizon = h.shared.horizon)
      (es : List (Nat × Nat × Event))
      (hgives : s.limiter.Gives (h.history k es).answers) : AsAlone k es h ⟨h.policy, [c], s⟩ := by
    have hrehearses : Rehearses view k h ⟨h.policy, [c], s⟩ := ⟨⟨c, hc, rfl⟩, rfl, hs, hhorizon⟩
    exact hrehearses.asAlone ha hgives
  refine ⟨fun l hl => alone_met hc es hl,
    fun view ha s hs hhorizon hgives => hasAlone view ha s hs hhorizon es hgives, ?_, ?_⟩
  · intro hl
    have hgives := gives_unlimited hl k
    refine ⟨hgives es, ?_, ?_⟩
    · intro es' hmet
      obtain ⟨d, hd, halone⟩ := alone_met hc es (hgives es)
      obtain ⟨d', hd', halone'⟩ := alone_met hc es' (hgives es')
      rw [hmet, halone] at halone'
      obtain ⟨rfl, hhistory⟩ := Prod.mk.inj halone'
      exact ⟨hd'.trans hd.symm, hhistory.symm⟩
    · intro ω view ha
      have halone (es : List (Nat × Nat × Event)) : AsAlone k es h ⟨h.policy, [c], h.shared⟩ :=
        hasAlone view ha h.shared rfl rfl es (by rw [hl]; exact hgives es)
      refine ⟨halone es, fun es' hown => ?_⟩
      have hes := halone es
      have hes' := halone es'
      exact ⟨by rw [← hes'.call, hown, hes.call], by rw [← hes'.history, hown, hes.history]⟩
  · intro now i hik
    obtain ⟨hshared, hcalls⟩ := handle_drop (h.play es) now i
    exact ⟨hshared, hcalls k hik⟩

end Hall

def counting (own : Nat × Nat → Nat) (add : Nat × Nat → Nat × Nat) (wait : Nat) :
    Timed (World (Nat × Nat)) (Except StorageError Nat) :=
  .wait (.ofMillis wait) (.act (fun w => { w with store := add w.store }) fun w => .done (.ok (own w.store)))

/-- Two calls with numbers of their own; the limiter grants two hedges to both together. -/
def neighbours : Hall (Nat × Nat) Nat where
  policy := { after := .ofMillis 1, upTo := 2 }
  calls := [{ start := 0, attempt := fun _ => counting Prod.fst (fun (m, n) => (m + 1, n)) 10 },
    { start := 0, attempt := fun _ => counting Prod.snd (fun (m, n) => (m, n + 1)) 5 }]
  shared := { world := { store := (7, 0) }, limiter := .permits 2 }

def neighboursSchedule : List (Nat × Nat × Event) :=
  [(0, 0, .start), (0, 1, .start), (0, 0, .advance 0), (0, 1, .advance 0), (1, 1, .timer), (1, 0, .timer),
    (2, 0, .timer), (3, 1, .drop), (10, 0, .advance 0), (10, 0, .advance 0), (12, 0, .observe 0)]

theorem neighbours_apart : neighbours.Apart (fun w => w.store.1) 0 := by
  refine ⟨fun w g => rfl, ?_, ?_⟩
  · rintro c ⟨⟩
    refine ⟨fun n _ => ⟨?_, fun _ => trivial⟩, by rintro i started due rest ⟨⟩⟩
    intro v w hvw
    have hsame : v.store.1 = w.store.1 := hvw
    exact ⟨congrArg (· + 1) hsame, by simp only [hsame]⟩
  · intro i c hi hc
    obtain rfl : i = 1 := by
      have hlt : i < 2 := (List.getElem?_eq_some_iff.1 hc).1
      omega
    obtain rfl := Option.some.inj hc
    exact ⟨fun n => ⟨fun w => rfl, fun _ => trivial⟩, by rintro i started due rest ⟨⟩⟩

theorem neighbours_independent :
    (neighbours.history 0 neighboursSchedule).answers = [true, false] ∧
    ∃ d : Call (Nat × Nat) Nat, (neighbours.play neighboursSchedule).calls[0]? = some d ∧
      d.result? = some (12, some (.ok 7)) ∧
      (Hall.play ⟨neighbours.policy, neighbours.calls.take 1, { neighbours.shared with limiter := .permits 1 }⟩
        (Hall.own 0 neighboursSchedule)).calls[0]? = some d := by
  obtain ⟨hmet, hasAlone, -⟩ := Hall.calls_independent (h := neighbours) (k := 0) rfl neighboursSchedule
  have hgives : (Limiter.permits 1).Gives (neighbours.history 0 neighboursSchedule).answers := by decide
  obtain ⟨d, hd, -⟩ := hmet (.permits 1) hgives
  have hcall := (hasAlone _ neighbours_apart { neighbours.shared with limiter := .permits 1 } rfl rfl hgives).call
  have hresult : (neighbours.play neighboursSchedule).calls[0]?.bind Call.result? = some (12, some (.ok 7)) := rfl
  rw [hd] at hresult
  exact ⟨by decide, d, hd, hresult, hcall.trans hd⟩

end ObjectStorage.Hedging
