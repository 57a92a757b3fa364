import ObjectStorage.Proofs.Hedging.Budget
import ObjectStorage.Proofs.Hedging.Conduct

/-! # What calls return

If the attempts of a call follow a protocol, then each attempt that came to its end did so as the
protocol says, and what the call returns is the outcome of one of them.
-/
namespace ObjectStorage.Hedging
open Race (History)

variable {σ γ α : Type}

namespace Call

/-- A call keeps to its policy and its attempts to their protocol: each attempt that came to its end is at the
stage in which it ended. -/
structure Accords (p : HedgePolicy) (P : Protocol σ γ) (post : γ → Except StorageError α → Prop) (c : Call σ α)
    (stages : Nat → γ) (x : History α) : Prop where
  obeys : c.Obeys P post stages
  fits : c.Fits x
  finishes : ∀ y ∈ x.finishes, post (stages y.attempt) y.outcome
  hedged : p.enabled = true → c.Stands p x
  single : p.enabled = false → c.Single x ∧ c.Returns x

variable {p : HedgePolicy} {P : Protocol σ γ} {post : γ → Except StorageError α → Prop}
variable {c : Call σ α} {stages : Nat → γ} {x : History α}

theorem Accords.of_fresh (p : HedgePolicy) {start : γ} (h : c.Fresh)
    (hfollows : ∀ n, (c.attempt n).Follows P.onStore n post start) :
    c.Accords p P post (fun _ => start) {} where
  obeys := .of_fresh h hfollows
  fits := ⟨fun i a ha => by simp [h.attempts] at ha, fun i hi => (by cases hi), fun y hy => by cases hy⟩
  finishes := fun y hy => by cases hy
  hedged := fun _ => h.stands p
  single := fun _ => ⟨⟨rfl, fun _ => h.attempts, fun hne => absurd h.phase hne⟩,
    fun time o hr => by cases h.phase.symm.trans (result?_eq_returned.1 hr)⟩

theorem Stepped.finishes {store after : σ} {later : Nat → γ} {y : History α} (hfits : c.Fits x)
    (hx : ∀ z ∈ x.finishes, post (stages z.attempt) z.outcome)
    (h : Stepped P post c stages store later after y) :
    ∀ z ∈ (x ++ y).finishes, post (later z.attempt) z.outcome := by
  intro z hz
  rw [History.finishes_append, List.mem_append] at hz
  cases h with
  | quiet hquiet =>
    rw [hquiet] at hz
    exact hx z (hz.resolve_right List.not_mem_nil)
  | @moved i g after y _ running _ _ hends =>
    rcases hz with hz | hz
    · have hne : z.attempt ≠ i := by
        rintro rfl
        obtain ⟨started, due, rest, hat⟩ := running
        exact hfits.attempts _ _ hat (List.mem_map_of_mem hz)
      rw [Function.update_of_ne hne]
      exact hx z hz
    · obtain ⟨rfl, hpost⟩ := hends z hz
      rwa [Function.update_self]

theorem Accords.handle (h : c.Accords p P post stages x) (now : Nat) (e : Event) {s : Shared σ}
    (hs : P.valid s.world.store) : ∃ later,
      (c.handle p now e s).1.Accords p P post later (x ++ c.record p now e s) ∧
      Stepped P post c stages s.world.store later (c.handle p now e s).2.world.store (c.record p now e s) := by
  obtain ⟨later, hobeys, hstep⟩ := h.obeys.handle p now e hs
  exact ⟨later,
    { obeys := hobeys
      fits := h.fits.handle p now e s
      finishes := hstep.finishes h.fits h.finishes
      hedged := fun hp => handle_stands hp (h.hedged hp) now e s
      single := fun hp => ⟨handle_single hp (h.single hp).1 now e s, (h.single hp).2.handle hp now e s⟩ },
    hstep⟩

/-- What a call returns is what one of its attempts ended with. -/
theorem Accords.exists_of_result (h : c.Accords p P post stages x) {time : Nat} {o : Except StorageError α}
    (hr : c.result? = some (time, some o)) : ∃ i < c.attempts.length, post (stages i) o := by
  have hreturns : c.Returns x := by
    cases hp : p.enabled with
    | true => exact (h.hedged hp).returns
    | false => exact (h.single hp).2
  obtain ⟨y, hy, rfl⟩ := hreturns time o hr
  obtain ⟨z, hz, -, houtcome⟩ := h.fits.seen y hy
  exact ⟨z.attempt, h.fits.finished _ (List.mem_map_of_mem hz), houtcome ▸ h.finishes z hz⟩

theorem Accords.length_le_one (h : c.Accords p P post stages x) (hp : p.enabled = false) : c.attempts.length ≤ 1 :=
  (h.single hp).1.length_le_one

end Call

namespace Hall
variable {P : Protocol σ γ} {post : γ → Except StorageError α → Prop}

theorem handle_accords {h : Hall σ α} (hvalid : P.valid h.shared.world.store)
    (hcalls : ∀ (k : Nat) (d : Call σ α), h.calls[k]? = some d → ∃ stages x, d.Accords h.policy P post stages x)
    (now i : Nat) (e : Event) : P.valid (h.handle now i e).shared.world.store ∧
      ∀ (k : Nat) (d : Call σ α), (h.handle now i e).calls[k]? = some d →
        ∃ stages x, d.Accords h.policy P post stages x := by
  cases hi : h.calls[i]? with
  | none =>
    rw [handle_of_none hi]
    exact ⟨hvalid, hcalls⟩
  | some c =>
    obtain ⟨stages, x, haccords⟩ := hcalls i c hi
    obtain ⟨later, hlater, hstep⟩ := haccords.handle now e hvalid
    rw [handle_of_getElem? hi]
    refine ⟨?_, fun k d hd => ?_⟩
    · generalize (c.handle h.policy now e h.shared).2.world.store = after at hstep ⊢
      cases hstep with
      | quiet _ => exact hvalid
      | moved _ _ valid _ _ => exact valid
    · by_cases hik : i = k
      · subst hik
        obtain ⟨hlt, -⟩ := List.getElem?_eq_some_iff.1 hi
        obtain rfl : (c.handle h.policy now e h.shared).1 = d := by simpa [hlt] using hd
        exact ⟨later, _, hlater⟩
      · exact hcalls k d (by rwa [List.getElem?_set_ne hik] at hd)

theorem play_accords {h : Hall σ α} (hvalid : P.valid h.shared.world.store)
    (hcalls : ∀ (k : Nat) (d : Call σ α), h.calls[k]? = some d → ∃ stages x, d.Accords h.policy P post stages x)
    (es : List (Nat × Nat × Event)) : P.valid (h.play es).shared.world.store ∧
      ∀ (k : Nat) (d : Call σ α), (h.play es).calls[k]? = some d →
        ∃ stages x, d.Accords h.policy P post stages x := by
  induction es generalizing h with
  | nil => exact ⟨hvalid, hcalls⟩
  | cons ev es ih =>
    obtain ⟨now, i, e⟩ := ev
    obtain ⟨hvalid, hcalls⟩ := handle_accords hvalid hcalls now i e
    rw [play_cons]
    rw [← handle_policy h now i e] at hcalls ⊢
    exact ih hvalid hcalls

end Hall

/-- A call that runs alone keeps the store valid and returns what an attempt can end with. -/
theorem dispatch_follows {P : Protocol σ γ} {post : γ → Except StorageError α → Prop} {start : γ} (p : HedgePolicy)
    (steps now : Nat) {attempt : Timed (World σ) (Except StorageError α)} {s : Shared σ}
    (hattempt : ∀ n, attempt.Follows P.onStore n post start) (hs : P.valid s.world.store) :
    P.valid (dispatch p steps now attempt s).2.world.store ∧
      ∀ time o, (dispatch p steps now attempt s).1 = some (time, o) → ∃ g, post g o := by
  obtain ⟨es, hdispatch⟩ := dispatch_eq_play p steps now attempt s
  have hstart : ∀ (k : Nat) (d : Call σ α),
      (Hall.mk p [{ start := now, attempt := fun _ => attempt }] s).calls[k]? = some d →
        ∃ stages x, d.Accords p P post stages x := by
    intro k d hd
    obtain rfl := List.mem_singleton.1 (List.mem_of_getElem? hd)
    exact ⟨_, _, .of_fresh p ⟨rfl, rfl⟩ hattempt⟩
  obtain ⟨hvalid, hcalls⟩ := Hall.play_accords hs hstart es
  rw [hdispatch]
  refine ⟨hvalid, fun time o ho => ?_⟩
  obtain ⟨⟨time', outcome⟩, hhead, houtcome⟩ := Option.bind_eq_some_iff.1 ho
  obtain ⟨d, hd, hresult⟩ := Option.bind_eq_some_iff.1 hhead
  obtain ⟨o', rfl, heq⟩ := Option.bind_eq_some_iff.1 houtcome
  cases heq
  obtain ⟨stages, x, haccords⟩ := hcalls 0 d (by rwa [← List.head?_eq_getElem?])
  obtain ⟨i, -, hpost⟩ := haccords.exists_of_result hresult
  exact ⟨_, hpost⟩

end ObjectStorage.Hedging
