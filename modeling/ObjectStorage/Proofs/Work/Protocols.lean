import ObjectStorage.Client

/-! # Protocols of work

A protocol says what pieces of work may do to a world that they share. How far a piece has come is its
stage. Work that follows a protocol does so whatever others do to the world between its steps, as long as
they leave it valid.
-/
namespace ObjectStorage

variable {σ γ α β : Type}

/-- What pieces of work may do, by their numbers: the steps lead from stage to stage and from world to
world, and several of them make one. -/
structure Protocol (σ γ : Type) where
  valid : σ → Prop
  step : Nat → γ → σ → γ → σ → Prop
  refl : ∀ n g s, step n g s g s
  trans : ∀ {n g s h t k u}, step n g s h t → step n h t k u → step n g s k u

def Protocol.onStore (P : Protocol σ γ) : Protocol (World σ) γ where
  valid w := P.valid w.store
  step n g w h v := P.step n g w.store h v.store
  refl n g w := P.refl n g w.store
  trans := P.trans

/-- Stages that are gone through one by one are gone through up to any point. -/
theorem exists_foldlM_of_isPrefix {ε : Type} {next : γ → ε → Option γ} {g h : γ} {events more : List ε}
    (hpart : events <+: more) (hrun : more.foldlM next g = some h) : ∃ mid, events.foldlM next g = some mid := by
  obtain ⟨rest, rfl⟩ := hpart
  rw [List.foldlM_append] at hrun
  obtain ⟨mid, hmid, -⟩ := Option.bind_eq_some_iff.1 hrun
  exact ⟨mid, hmid⟩

namespace Timed

/-- From a stage on, the work follows a protocol under a number and ends in a stage with an outcome that
fits it. -/
def Follows (P : Protocol σ γ) (n : Nat) (post : γ → α → Prop) : Timed σ α → γ → Prop
  | done a, g => post g a
  | act change next, g =>
    ∀ s, P.valid s → P.valid (change s) ∧ ∃ h, P.step n g s h (change s) ∧ (next s).Follows P n post h
  | wait _ next, g => next.Follows P n post g

variable {P : Protocol σ γ} {n : Nat} {post : γ → α → Prop} {g : γ}

theorem Follows.bind {after : γ → β → Prop} {t : Timed σ α} {k : α → Timed σ β} (ht : t.Follows P n post g)
    (hk : ∀ h a, post h a → (k a).Follows P n after h) : (t.bind k).Follows P n after g := by
  induction t generalizing g with
  | done a => exact hk g a ht
  | act change next ih =>
    intro s hs
    obtain ⟨hvalid, h, hstep, hnext⟩ := ht s hs
    exact ⟨hvalid, h, hstep, ih s hnext⟩
  | wait d next ih => exact ih ht

theorem Follows.mono {weaker : γ → α → Prop} {t : Timed σ α} (ht : t.Follows P n post g)
    (hpost : ∀ h a, post h a → weaker h a) : t.Follows P n weaker g := by
  rw [← t.bind_done]
  exact ht.bind hpost

theorem Follows.advance {t : Timed σ α} (ht : t.Follows P n post g) {s : σ} (hs : P.valid s) :
    ∃ h, P.valid (t.advance s).2 ∧ P.step n g s h (t.advance s).2 ∧
      (∀ a, (t.advance s).1 = .finished a → post h a) ∧
      ∀ d next, (t.advance s).1 = .waiting d next → next.Follows P n post h := by
  cases t with
  | done a =>
    refine ⟨g, hs, P.refl n g s, ?_, fun d next h => by cases h⟩
    rintro b ⟨⟩
    exact ht
  | act change next =>
    obtain ⟨hvalid, h, hstep, hnext⟩ := ht s hs
    refine ⟨h, hvalid, hstep, (fun a h => by cases h), ?_⟩
    rintro _ _ ⟨⟩
    exact hnext
  | wait d next =>
    refine ⟨g, hs, P.refl n g s, (fun a h => by cases h), ?_⟩
    rintro d' next' ⟨⟩
    exact ht

theorem Follows.run {t : Timed σ α} (ht : t.Follows P n post g) (now : Nat) {s : σ} (hs : P.valid s) :
    ∃ h, P.valid (t.run now s).2.2 ∧ P.step n g s h (t.run now s).2.2 ∧ post h (t.run now s).1 := by
  induction t generalizing g now s with
  | done a => exact ⟨g, hs, P.refl n g s, ht⟩
  | act change next ih =>
    obtain ⟨hvalid, h, hstep, hnext⟩ := ht s hs
    obtain ⟨k, hvalid, hsteps, hpost⟩ := ih s hnext now hvalid
    exact ⟨k, hvalid, P.trans hstep hsteps, hpost⟩
  | wait d next ih => exact ih ht (now + d.ticks) hs

theorem follows_within {τ : Type} {get : σ → τ} {put : τ → σ → σ}
    (hput : ∀ r s, P.valid s → P.valid (put r s) ∧ P.step n g s g (put r s)) (t : Timed τ α) :
    (t.within get put).Follows P n (fun h _ => h = g) g := by
  induction t with
  | done a => rfl
  | act change next ih =>
    intro s hs
    obtain ⟨hvalid, hstep⟩ := hput (change (get s)) s hs
    exact ⟨hvalid, g, hstep, ih (get s)⟩
  | wait d next ih => exact ih

theorem follows_modifyGet {f : σ → α × σ}
    (hf : ∀ s, P.valid s → P.valid (f s).2 ∧ ∃ h, P.step n g s h (f s).2 ∧ post h (f s).1) :
    (modifyGet f).Follows P n post g := hf

theorem Follows.onStore {t : Timed σ α} (ht : t.Follows P n post g) :
    (World.onStore t).Follows P.onStore n post g := by
  induction t generalizing g with
  | done a => exact ht
  | act change next ih =>
    intro w hw
    obtain ⟨hvalid, h, hstep, hnext⟩ := ht w.store hw
    exact ⟨hvalid, h, hstep, ih w.store hnext⟩
  | wait d next ih => exact ih ht

end Timed

variable {P : Protocol σ γ} {n : Nat} {g : γ}

theorem World.follows_count (f : Metrics → Metrics) :
    (World.count (σ := σ) f).Follows P.onStore n (fun h _ => h = g) g :=
  fun w hw => ⟨hw, g, P.refl n g w.store, rfl⟩

theorem World.follows_draw : (World.draw (σ := σ)).Follows P.onStore n (fun h _ => h = g) g :=
  fun w hw => ⟨hw, g, P.refl n g w.store, rfl⟩

/-- The attempts of an operation follow a protocol if a single attempt does from every stage that is ready
for so many retries, and if every failure that is retried leaves a stage that is ready for the rest. -/
theorem RetryPolicy.follows_attempts {p : RetryPolicy} (name : String) {kind : OperationKind}
    {attempt : Timed (World σ) (Except StorageError α)} (ready : Nat → γ → Prop)
    (ends : Nat → γ → Except StorageError α → Prop) {post : γ → Except StorageError α → Prop}
    (hattempt : ∀ left h, ready left h → attempt.Follows P.onStore n (ends left) h)
    (hpost : ∀ left h outcome, ends left h outcome → post h outcome)
    (hretry : ∀ left h e, ends (left + 1) h (.error e) → p.retries kind e = true → ready left h)
    (left : Nat) (hg : ready left g) : (p.attempts name kind attempt left).Follows P.onStore n post g := by
  induction left generalizing g with
  | zero => exact (hattempt 0 g hg).mono (hpost 0)
  | succ left ih =>
    refine (hattempt (left + 1) g hg).bind ?_
    intro h outcome hends
    cases outcome with
    | ok a => exact hpost (left + 1) h (.ok a) hends
    | error e =>
      simp only
      split
      · rename_i hagain
        refine (World.follows_count _).bind ?_
        rintro h _ rfl
        refine World.follows_draw.bind ?_
        rintro h _ rfl
        exact ih (hretry left h e hends hagain)
      · exact hpost (left + 1) h (.error e) hends

theorem Client.follows_finish (name : String) {post : γ → Except StorageError α → Prop}
    {outcome : Except StorageError α} (h : post g outcome) :
    (Client.finish (σ := σ) name outcome).Follows P.onStore n post g := by
  refine (World.follows_count _).bind ?_
  rintro k _ rfl
  exact h

end ObjectStorage
