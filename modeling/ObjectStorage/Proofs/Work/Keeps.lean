import ObjectStorage.Client

/-! # Work that leaves a part of the world alone

What no act of a piece of work changes is the same after any stretch of it. The attempts of a read
never touch the counters of hedges. What no act looks at makes no difference to any stretch of it.
-/
namespace ObjectStorage

variable {σ τ α β ω : Type}

namespace Timed

def Keeps (view : σ → ω) : Timed σ α → Prop
  | done _ => True
  | act change next => (∀ s, view (change s) = view s) ∧ ∀ s, (next s).Keeps view
  | wait _ next => next.Keeps view

theorem Keeps.bind {view : σ → ω} {t : Timed σ α} {k : α → Timed σ β} (ht : t.Keeps view)
    (hk : ∀ a, (k a).Keeps view) : (t.bind k).Keeps view := by
  induction t with
  | done a => exact hk a
  | act change next ih => exact ⟨ht.1, fun s => ih s (ht.2 s)⟩
  | wait d next ih => exact ih ht

/-- A step of the work keeps the view, and what is left of the work keeps it too. -/
theorem Keeps.advance {view : σ → ω} {t : Timed σ α} (ht : t.Keeps view) (s : σ) :
    view (t.advance s).2 = view s ∧
      ∀ d next, (t.advance s).1 = .waiting d next → next.Keeps view := by
  cases t with
  | done a => exact ⟨rfl, fun d next h => by cases h⟩
  | act change next =>
    refine ⟨ht.1 s, ?_⟩
    rintro _ _ ⟨⟩
    exact ht.2 s
  | wait d next =>
    refine ⟨rfl, ?_⟩
    rintro d' next' ⟨⟩
    exact ht

theorem Keeps.run {view : σ → ω} {t : Timed σ α} (ht : t.Keeps view) (now : Nat) (s : σ) :
    view (t.run now s).2.2 = view s := by
  induction t generalizing now s with
  | done a => rfl
  | act change next ih => exact (ih s (ht.2 s) now (change s)).trans (ht.1 s)
  | wait d next ih => exact ih ht (now + d.ticks) s

theorem keeps_within {get : τ → σ} {put : σ → τ → τ} {view : τ → ω} (h : ∀ s t, view (put s t) = view t)
    (t : Timed σ α) : (t.within get put).Keeps view := by
  induction t with
  | done a => trivial
  | act change next ih => exact ⟨fun s => h _ s, fun s => ih (get s)⟩
  | wait d next ih => exact ih

/-- The work goes by what a view shows of the world: worlds that look the same make it do the same. -/
def Minds (view : σ → ω) : Timed σ α → Prop
  | done _ => True
  | act change next =>
    (∀ s t, view s = view t → view (change s) = view (change t) ∧ next s = next t) ∧ ∀ s, (next s).Minds view
  | wait _ next => next.Minds view

theorem minds_id (t : Timed σ α) : t.Minds id := by
  induction t with
  | done a => trivial
  | act change next ih =>
    refine ⟨?_, ih⟩
    rintro s _ rfl
    exact ⟨rfl, rfl⟩
  | wait d next ih => exact ih

theorem Minds.advance {view : σ → ω} {t : Timed σ α} (ht : t.Minds view) {r s : σ} (h : view r = view s) :
    (t.advance r).1 = (t.advance s).1 ∧ view (t.advance r).2 = view (t.advance s).2 := by
  cases t with
  | done a => exact ⟨rfl, h⟩
  | act change next =>
    obtain ⟨hchange, hnext⟩ := ht.1 r s h
    exact ⟨by simp only [Timed.advance, hnext], hchange⟩
  | wait d next => exact ⟨rfl, h⟩

theorem Minds.waiting {view : σ → ω} {t : Timed σ α} (ht : t.Minds view) {s : σ} {d : Duration} {next : Timed σ α}
    (h : (t.advance s).1 = .waiting d next) : next.Minds view := by
  cases t with
  | done a => cases h
  | act change later =>
    cases h
    exact ht.2 s
  | wait d later =>
    cases h
    exact ht

end Timed

def Series.ofAnswer (granted : Bool) : Series := if granted then .hedgesIssued else .hedgesSkipped

def World.hedgeCounts (w : World σ) (granted : Bool) : Nat := w.metrics.count (.ofAnswer granted)

theorem World.keeps_onStore (t : Timed σ α) : (World.onStore t).Keeps World.hedgeCounts := by
  refine Timed.keeps_within ?_ t
  intro store w
  rfl

theorem World.keeps_record {s : Series} (h : ∀ granted, s ≠ .ofAnswer granted) :
    (World.count (σ := σ) (·.record s)).Keeps World.hedgeCounts := by
  refine ⟨?_, fun _ => trivial⟩
  intro w
  funext granted
  simp [World.hedgeCounts, Metrics.count_record, Ne.symm (h granted)]

theorem World.keeps_draw : (World.draw (σ := σ)).Keeps World.hedgeCounts :=
  ⟨fun _ => rfl, fun _ => trivial⟩

theorem RetryPolicy.keeps_attempts (p : RetryPolicy) (name : String) (kind : OperationKind)
    {attempt : Timed (World σ) (Except StorageError α)} (h : attempt.Keeps World.hedgeCounts) (left : Nat) :
    (p.attempts name kind attempt left).Keeps World.hedgeCounts := by
  induction left with
  | zero => exact h
  | succ left ih =>
    refine h.bind ?_
    intro outcome
    cases outcome with
    | ok a => trivial
    | error e =>
      simp only
      split
      · refine Timed.Keeps.bind (World.keeps_record fun granted => ?_) fun _ => ?_
        · cases granted <;> simp [Series.ofAnswer]
        · exact Timed.Keeps.bind World.keeps_draw fun _ => ih
      · trivial

theorem Collector.keeps_collect {view : σ → ω} {fetch : Option String → Timed σ (Except StorageError Page)}
    (hfetch : ∀ token, (fetch token).Keeps view) (maxPages fuel : Nat) (token : Option String) (c : Collector) :
    (collect maxPages fetch fuel token c).Keeps view := by
  induction fuel generalizing token c with
  | zero => trivial
  | succ fuel ih =>
    simp only [collect]
    split
    · trivial
    · refine (hfetch token).bind fun outcome => ?_
      cases outcome with
      | error e => trivial
      | ok page =>
        simp only
        cases c.step page with
        | finished result => trivial
        | more c token => exact ih (some token) c

namespace Client

theorem keeps_request (c : Client σ) (name : String) (kind : OperationKind) (r : Request) :
    (c.request name kind r).Keeps World.hedgeCounts :=
  c.retry.keeps_attempts name kind (World.keeps_onStore _) c.retry.maxRetries

theorem keeps_readAttempt (c : Client σ) (key : String) : (c.readAttempt key).Keeps World.hedgeCounts :=
  c.keeps_request "get" .read (.get key)

theorem keeps_finish (name : String) (outcome : Except StorageError α) :
    (finish (σ := σ) name outcome).Keeps World.hedgeCounts := by
  refine ⟨fun w => ?_, fun _ => trivial⟩
  funext granted
  cases granted <;> simp [World.hedgeCounts, Metrics.recordOperation, Metrics.count_record, Series.ofAnswer]

end Client
end ObjectStorage
