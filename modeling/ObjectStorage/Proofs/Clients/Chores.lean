import ObjectStorage.Proofs.Clients.Effects
import ObjectStorage.Proofs.Work.Keeps

/-! # Writes and listings are not hedged

Writes and listings call the store one time after the other. What calls they make, when, and what comes of them
is the same under all hedging policies and limiters, and they leave the limiter alone.
-/
namespace ObjectStorage

variable {σ ν α β : Type}

/-! ## Logs -/

namespace Timed

/-- What is noted in the course of work that runs alone from a point in time, each note with its time. -/
def log (notes : σ → List ν) : Timed σ α → Nat → σ → List (Nat × ν)
  | done _, _, _ => []
  | act change next, now, s =>
    ((notes (change s)).drop (notes s).length).map (fun note => (now, note)) ++ (next s).log notes now (change s)
  | wait d next, now, s => next.log notes (now + d.ticks) s

end Timed

inductive CallEvent where
  | begun (r : Request)
  | answered (r : Request) (answer : Answer r)

namespace CallEvent

def isAnswer : CallEvent → Bool
  | begun _ => false
  | answered _ _ => true

/-- The call that is under way after an event. A call begins when none is, and it is answered before another begins.
-/
def next : Option Request → CallEvent → Option (Option Request)
  | none, begun r => some (some r)
  | some r, answered r' _ => if r' = r then some none else none
  | _, _ => none

theorem tally {g h : Option Request} {events : List CallEvent} (hrun : events.foldlM next g = some h) :
    events.countP (!isAnswer ·) + g.isSome.toNat = events.countP isAnswer + h.isSome.toNat := by
  induction events generalizing g with
  | nil =>
    cases hrun
    simp
  | cons event events ih =>
    obtain ⟨mid, hnext, hrest⟩ := Option.bind_eq_some_iff.1 hrun
    have hmid := ih hrest
    cases g <;> cases event <;> simp only [next] at hnext
    · cases hnext
      simp [isAnswer] at hmid ⊢
      omega
    · cases hnext
    · cases hnext
    · split at hnext
      · cases hnext
        simp [isAnswer, List.countP_cons] at hmid ⊢
        omega
      · cases hnext

/-- Work that makes one call after the other. Its stage is the call under way. -/
def oneByOne : Protocol (Recorded CallEvent σ) (Option Request) where
  valid _ := True
  step _ g m h m' := ∃ events, m'.notes = m.notes ++ events ∧ events.foldlM next g = some h
  refl _ _ _ := ⟨[], by simp, rfl⟩
  trans := by
    rintro n g s h t k u ⟨events, hnotes, hrun⟩ ⟨more, hmore, hgoes⟩
    refine ⟨events ++ more, by rw [hmore, hnotes, List.append_assoc], ?_⟩
    rw [List.foldlM_append, hrun]
    exact hgoes

end CallEvent

theorem Timed.Follows.log {t : Timed (World (Recorded CallEvent σ)) α} {n : Nat}
    {post : Option Request → α → Prop} {g : Option Request} (ht : t.Follows CallEvent.oneByOne.onStore n post g)
    (now : Nat) (w : World (Recorded CallEvent σ)) :
    ∃ h, ((t.log (·.store.notes) now w).map Prod.snd).foldlM CallEvent.next g = some h ∧
      (t.run now w).2.2.store.notes = w.store.notes ++ (t.log (·.store.notes) now w).map Prod.snd ∧
      post h (t.run now w).1 := by
  induction t generalizing g now w with
  | done a => exact ⟨g, rfl, by simp [Timed.log, Timed.run], ht⟩
  | act change next ih =>
    obtain ⟨-, h, ⟨events, hnotes, hrun⟩, hnext⟩ := ht w trivial
    obtain ⟨k, hrest, hlater, hpost⟩ := ih w hnext now (change w)
    have hlog : ((Timed.act change next).log (·.store.notes) now w).map Prod.snd =
        events ++ ((next w).log (·.store.notes) now (change w)).map Prod.snd := by
      simp [Timed.log, hnotes, Function.comp_def]
    refine ⟨k, ?_, ?_, hpost⟩
    · rw [hlog, List.foldlM_append, hrun]
      exact hrest
    · rw [hlog, ← List.append_assoc, ← hnotes]
      exact hlater
  | wait d next ih => exact ih ht (now + d.ticks) w

def Recorded.add (note : ν) (m : Recorded ν σ) : Recorded ν σ := { m with notes := m.notes ++ [note] }

namespace Backend

def observed (b : Backend σ) : Backend (Recorded CallEvent σ) where
  call r := do
    Timed.modify (Recorded.add (.begun r))
    let answer ← (b.call r).within Recorded.store fun s m => { m with store := s }
    Timed.modify (Recorded.add (.answered r answer))
    return answer
  steps := b.steps + 2

theorem run_observed (b : Backend σ) (r : Request) (now : Nat) (m : Recorded CallEvent σ) :
    (b.observed.call r).run now m =
      (((b.call r).run now m.store).1, ((b.call r).run now m.store).2.1,
        ⟨((b.call r).run now m.store).2.2,
          m.notes ++ [.begun r, .answered r ((b.call r).run now m.store).1]⟩) := by
  simp [observed, Timed.bind_eq, Timed.run_bind, Timed.modify, Timed.run, Recorded.run_within, Recorded.add]

theorem follows_add {n : Nat} {g h : Option Request} {event : CallEvent} (hnext : CallEvent.next g event = some h) :
    (Timed.modify (σ := Recorded CallEvent σ) (Recorded.add event)).Follows CallEvent.oneByOne n
      (fun k _ => k = h) g :=
  fun m _ => ⟨trivial, h, ⟨[event], rfl, by simp [hnext]⟩, rfl⟩

theorem follows_observed (b : Backend σ) (r : Request) {n : Nat} :
    (b.observed.call r).Follows CallEvent.oneByOne n (fun h _ => h = none) none := by
  refine (follows_add (h := some r) rfl).bind ?_
  rintro h _ rfl
  have hstill (s : σ) (m : Recorded CallEvent σ) :=
    CallEvent.oneByOne.refl n (some r) { m with store := s }
  refine (Timed.follows_within (fun s m _ => ⟨trivial, hstill s m⟩) (b.call r)).bind ?_
  rintro h answer rfl
  exact (follows_add (h := none) (by simp [CallEvent.next])).bind fun h _ hh => hh

end Backend

def Client.observed (p : HedgePolicy) (c : Client σ) : Client (Recorded CallEvent σ) :=
  { retry := c.retry, hedging := p, maxPages := c.maxPages, backend := c.backend.observed }

theorem Client.follows_observed (p : HedgePolicy) (c : Client σ) (name : String) (kind : OperationKind)
    (r : Request) (n : Nat) : ((c.observed p).request name kind r).Follows CallEvent.oneByOne.onStore n
      (fun h _ => h = none) none := by
  refine RetryPolicy.follows_attempts name (fun _ h => h = none) (fun _ h _ => h = none) ?_
    (fun _ _ _ hends => hends) (fun _ _ _ hends _ => hends) _ rfl
  rintro _ h rfl
  exact (c.backend.follows_observed r).onStore

/-! ## Chores -/

inductive Chore where
  | write (wr : Write)
  | list (first delimiter : String)

namespace Chore

abbrev Outcome : Chore → Type
  | write _ => Except StorageError Unit
  | list _ _ => Option (Except StorageError Listing)

def work (c : Client σ) : (chore : Chore) → Timed (World σ) chore.Outcome
  | write wr => wr.perform c
  | list first delimiter => c.list first delimiter

theorem keeps_work (c : Client σ) (chore : Chore) : (chore.work c).Keeps World.hedgeCounts := by
  cases chore with
  | write wr =>
    cases wr with
    | put key data => exact (c.keeps_request "put" .write _).bind (Client.keeps_finish "put")
    | delete key => exact (c.keeps_request "delete" .write _).bind (Client.keeps_finish "delete")
  | list first delimiter =>
    have hfetch (token : Option String) := c.keeps_request "list" .read (.page first delimiter token)
    refine (Collector.keeps_collect hfetch c.maxPages c.pageFuel none {}).bind fun outcome => ?_
    cases outcome with
    | none => trivial
    | some outcome => exact (Client.keeps_finish "list" outcome).bind fun _ => trivial

theorem follows_work (p : HedgePolicy) (c : Client σ) (chore : Chore) (n : Nat) :
    (chore.work (c.observed p)).Follows CallEvent.oneByOne.onStore n (fun h _ => h = none) none := by
  cases chore with
  | write wr =>
    cases wr with
    | put key data =>
      exact (c.follows_observed p "put" .write _ n).bind fun _ _ hends => Client.follows_finish "put" hends
    | delete key =>
      exact (c.follows_observed p "delete" .write _ n).bind fun _ _ hends => Client.follows_finish "delete" hends
  | list first delimiter =>
    have hfetch (token : Option String) := c.follows_observed p "list" .read (.page first delimiter token) n
    refine (Collector.follows_collect hfetch c.maxPages (c.observed p).pageFuel none {}).bind ?_
    rintro _ outcome rfl
    cases outcome with
    | none => rfl
    | some outcome =>
      have hfinish : (Client.finish "list" outcome).Follows (CallEvent.oneByOne (σ := σ)).onStore n
          (fun h _ => h = none) none := Client.follows_finish "list" rfl
      exact hfinish.bind fun _ _ hends => hends

end Chore

/-- What chores come to, one after the other, and what was noted of their calls and when. -/
structure Diary (σ : Type) where
  outcomes : List ((chore : Chore) × chore.Outcome) := []
  events : List (Nat × CallEvent) := []
  session : Session (Recorded CallEvent σ)

namespace Session

def runChores (c : Client (Recorded CallEvent σ)) : List Chore → Session (Recorded CallEvent σ) → Diary σ
  | [], s => { session := s }
  | chore :: chores, s =>
    let (outcome, after) := s.perform (chore.work c)
    let rest := runChores c chores after
    { outcomes := ⟨chore, outcome⟩ :: rest.outcomes
      events := (chore.work c).log (·.store.notes) s.now s.shared.world ++ rest.events
      session := rest.session }

theorem runChores_events (p : HedgePolicy) (c : Client σ) (chores : List Chore)
    (s : Session (Recorded CallEvent σ)) :
    let d := runChores (c.observed p) chores s
    d.session.shared.world.store.notes = s.shared.world.store.notes ++ d.events.map Prod.snd ∧
      (d.events.map Prod.snd).foldlM CallEvent.next none = some none := by
  induction chores generalizing s with
  | nil => exact ⟨by simp [runChores], rfl⟩
  | cons chore chores ih =>
    obtain ⟨_, hrun, hnotes, rfl⟩ := (chore.follows_work p c 0).log s.now s.shared.world
    obtain ⟨hlater, hrest⟩ := ih (s.perform (chore.work (c.observed p))).2
    refine ⟨?_, ?_⟩
    · simp only [runChores, List.map_append, ← List.append_assoc, ← hnotes]
      exact hlater
    · simp only [runChores, List.map_append, List.foldlM_append, hrun]
      exact hrest

theorem runChores_hedges (c : Client (Recorded CallEvent σ)) (chores : List Chore)
    (s : Session (Recorded CallEvent σ)) :
    let after := (runChores c chores s).session.shared
    after.limiter = s.shared.limiter ∧ after.asks = s.shared.asks ∧
      after.world.hedgeCounts = s.shared.world.hedgeCounts := by
  induction chores generalizing s with
  | nil => exact ⟨rfl, rfl, rfl⟩
  | cons chore chores ih =>
    obtain ⟨hlimiter, hasks, hcounts⟩ := ih (s.perform (chore.work c)).2
    exact ⟨hlimiter, hasks, hcounts.trans ((chore.keeps_work c).run s.now s.shared.world)⟩

theorem runChores_alike (c : Client σ) (p q : HedgePolicy) (chores : List Chore)
    {s t : Session (Recorded CallEvent σ)} (hnow : s.now = t.now) (hworld : s.shared.world = t.shared.world) :
    let d := runChores (c.observed p) chores s
    let e := runChores (c.observed q) chores t
    d.outcomes = e.outcomes ∧ d.events = e.events ∧ d.session.now = e.session.now ∧
      d.session.shared.world = e.session.shared.world := by
  induction chores generalizing s t with
  | nil => exact ⟨rfl, rfl, hnow, hworld⟩
  | cons chore chores ih =>
    have hwork : chore.work (c.observed p) = chore.work (c.observed q) := by
      cases chore with
      | write wr => cases wr <;> rfl
      | list first delimiter => rfl
    have hlog : (chore.work (c.observed p)).log (·.store.notes) s.now s.shared.world =
        (chore.work (c.observed q)).log (·.store.notes) t.now t.shared.world := by
      rw [hwork, hnow, hworld]
    have hrun : (chore.work (c.observed p)).run s.now s.shared.world =
        (chore.work (c.observed q)).run t.now t.shared.world := by
      rw [hwork, hnow, hworld]
    obtain ⟨houtcomes, hevents, hrest⟩ := ih (s := (s.perform (chore.work (c.observed p))).2)
      (t := (t.perform (chore.work (c.observed q))).2) (by simp only [perform, hrun]) (by simp only [perform, hrun])
    refine ⟨?_, ?_, hrest⟩
    · simp only [runChores, houtcomes]
      simp only [perform, hrun]
    · simp only [runChores, hevents, hlog]

/-- Whatever writes and listings a client makes: under all hedging policies and limiters the store gets the same
calls at the same times, and outcomes, counters and the end are the same. The limiter is not asked and no hedge is
counted, and there are never two calls that are not answered. -/
theorem runChores_unhedged (c : Client σ) (p q : HedgePolicy) (l m : Limiter)
    (asks others : List (Nat × Bool)) (horizon farther : Option Nat) (chores : List Chore)
    (w : World (Recorded CallEvent σ)) (now : Nat) :
    let d := runChores (c.observed p) chores ⟨⟨w, l, asks, horizon⟩, now⟩
    let e := runChores (c.observed q) chores ⟨⟨w, m, others, farther⟩, now⟩
    (d.outcomes = e.outcomes ∧ d.events = e.events ∧ d.session.now = e.session.now ∧
      d.session.shared.world = e.session.shared.world) ∧
    (d.session.shared.limiter = l ∧ d.session.shared.asks = asks ∧
      d.session.shared.world.hedgeCounts = w.hedgeCounts) ∧
    d.session.shared.world.store.notes = w.store.notes ++ d.events.map Prod.snd ∧
    (∀ n, (d.events.take n).countP (!·.2.isAnswer) ≤ (d.events.take n).countP (·.2.isAnswer) + 1) ∧
    d.events.countP (!·.2.isAnswer) = d.events.countP (·.2.isAnswer) := by
  intro d e
  obtain ⟨hnotes, hrun⟩ := runChores_events p c chores ⟨⟨w, l, asks, horizon⟩, now⟩
  have htally (seen : List (Nat × CallEvent)) (h : Option Request)
      (hseen : (seen.map Prod.snd).foldlM CallEvent.next none = some h) :
      seen.countP (!·.2.isAnswer) = seen.countP (·.2.isAnswer) + h.isSome.toNat := by
    have hcount := CallEvent.tally hseen
    rw [List.countP_map, List.countP_map] at hcount
    exact hcount
  refine ⟨runChores_alike c p q chores rfl rfl, runChores_hedges _ chores _, hnotes, ?_, htally d.events none hrun⟩
  intro n
  obtain ⟨h, hseen⟩ := exists_foldlM_of_isPrefix ((List.take_prefix n d.events).map Prod.snd) hrun
  have hcount := htally (d.events.take n) h hseen
  cases h <;> simp at hcount <;> omega

end Session
end ObjectStorage
