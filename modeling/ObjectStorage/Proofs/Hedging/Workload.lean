import ObjectStorage.Proofs.Hedging.Budget
import ObjectStorage.Proofs.Hedging.Conduct
import ObjectStorage.Proofs.Work.Recorded
import ObjectStorage.Store.Faults

/-! # The work of reads

Every call to the store that a read makes is marked where it begins and where it ends. An attempt makes one
call at a time and no more of them than its retries allow, and it does nothing any more once its read is
over.
-/
namespace ObjectStorage

variable {σ α : Type}

/-- A mark at the beginning or the end of a call: for which attempt of which read it was made. -/
structure Mark where
  reader : Nat
  attempt : Nat
  ended : Bool
deriving DecidableEq

namespace Mark

def track (reader attempt : Nat) (marks : List Mark) : List Bool :=
  (marks.filter fun m => m.reader = reader && m.attempt = attempt).map Mark.ended

def count (reader : Nat) (ended : Bool) (marks : List Mark) : Nat :=
  marks.countP fun m => m.reader = reader && m.ended == ended

theorem count_append_new {reader k : Nat} (hk : k ≠ reader) (attempt : Nat) (ended : Bool) (marks : List Mark)
    (ends : List Bool) : count k ended (marks ++ ends.map (Mark.mk reader attempt)) = count k ended marks := by
  simp [count, List.countP_map, Function.comp_def, Ne.symm hk]

theorem track_append (reader attempt : Nat) (marks more : List Mark) :
    track reader attempt (marks ++ more) = track reader attempt marks ++ track reader attempt more := by
  simp [track]

theorem track_new (reader attempt : Nat) (ends : List Bool) :
    track reader attempt (ends.map (Mark.mk reader attempt)) = ends := by
  simp [track, List.filter_map, Function.comp_def]

theorem track_new_of_ne {reader attempt k i : Nat} (h : k ≠ reader ∨ i ≠ attempt) (ends : List Bool) :
    track k i (ends.map (Mark.mk reader attempt)) = [] := by
  have hne : (decide (reader = k) && decide (attempt = i)) = false := by
    simp only [Bool.and_eq_false_iff, decide_eq_false_iff_not]
    omega
  simp [track, List.filter_map, Function.comp_def, hne]

theorem track_of_isPart {marks more : List Mark} (h : marks <+: more) (reader attempt : Nat) :
    track reader attempt marks <+: track reader attempt more :=
  (h.filter _).map _

theorem count_eq_sum {reader n : Nat} {marks : List Mark} (h : ∀ m ∈ marks, m.reader = reader → m.attempt < n)
    (ended : Bool) :
    count reader ended marks = ∑ i ∈ Finset.range n, (track reader i marks).count ended := by
  induction marks with
  | nil => simp [count, track]
  | cons m marks ih =>
    have htrack (i : Nat) : (track reader i (m :: marks)).count ended = (track reader i marks).count ended +
        if i = m.attempt then (if m.reader = reader && m.ended == ended then 1 else 0) else 0 := by
      by_cases hreader : m.reader = reader <;> by_cases hi : i = m.attempt <;>
        simp [track, hreader, hi, Ne.symm, List.count_cons]
    have hcons : count reader ended (m :: marks) =
        count reader ended marks + if m.reader = reader && m.ended == ended then 1 else 0 := List.countP_cons
    simp only [hcons, htrack, Finset.sum_add_distrib, Finset.sum_ite_eq', Finset.mem_range]
    rw [ih fun m' hm' => h m' (List.mem_cons_of_mem m hm')]
    by_cases hreader : m.reader = reader
    · simp [h m List.mem_cons_self hreader]
    · simp [hreader]

end Mark

/-- What an attempt may still do: how many calls it may begin, and whether it is in one. -/
structure Allowance where
  left : Nat
  busy : Bool

namespace Allowance

def next (g : Allowance) (ended : Bool) : Option Allowance :=
  match g.busy, ended, g.left with
  | false, false, left + 1 => some ⟨left, true⟩
  | true, true, left => some ⟨left, false⟩
  | _, _, _ => none

theorem tally {g h : Allowance} {ends : List Bool} (hrun : ends.foldlM next g = some h) :
    ends.count false + h.left = g.left ∧
      ends.count false + g.busy.toNat = ends.count true + h.busy.toNat := by
  induction ends generalizing g with
  | nil =>
    cases hrun
    simp
  | cons ended ends ih =>
    obtain ⟨mid, hnext, hrest⟩ := Option.bind_eq_some_iff.1 hrun
    obtain ⟨hleft, hbusy⟩ := ih hrest
    obtain ⟨left, busy⟩ := g
    simp only [next] at hnext
    split at hnext <;> cases hnext <;> simp at hleft hbusy ⊢ <;> omega

end Allowance

/-- The attempts of a read begin the calls that they are allowed, each after the end of the one before it,
and mark nothing else. -/
def Mark.protocol (reader : Nat) : Protocol (Recorded Mark σ) Allowance where
  valid _ := True
  step n g m h m' :=
    ∃ ends, m'.notes = m.notes ++ ends.map (Mark.mk reader n) ∧ ends.foldlM Allowance.next g = some h
  refl _ _ _ := ⟨[], by simp, rfl⟩
  trans := by
    rintro n g s h t k u ⟨ends, hnotes, hrun⟩ ⟨more, hmore, hgoes⟩
    refine ⟨ends ++ more, by rw [hmore, hnotes, List.map_append, List.append_assoc], ?_⟩
    rw [List.foldlM_append, hrun]
    exact hgoes

def Recorded.mark (mark : Mark) (m : Recorded Mark σ) : Recorded Mark σ := { m with notes := m.notes ++ [mark] }

def Backend.marked (reader attempt : Nat) (b : Backend σ) : Backend (Recorded Mark σ) where
  call r := do
    Timed.modify (Recorded.mark ⟨reader, attempt, false⟩)
    let answer ← (b.call r).within Recorded.store fun s m => { m with store := s }
    Timed.modify (Recorded.mark ⟨reader, attempt, true⟩)
    return answer
  steps := b.steps + 2

def Client.marked (reader attempt : Nat) (c : Client σ) : Client (Recorded Mark σ) :=
  { retry := c.retry, hedging := c.hedging, maxPages := c.maxPages, backend := c.backend.marked reader attempt }

theorem Backend.run_marked (b : Backend σ) (r : Request) (reader n now : Nat) (m : Recorded Mark σ) :
    ((b.marked reader n).call r).run now m =
      (((b.call r).run now m.store).1, ((b.call r).run now m.store).2.1,
        ⟨((b.call r).run now m.store).2.2, m.notes ++ [⟨reader, n, false⟩, ⟨reader, n, true⟩]⟩) := by
  simp [marked, Timed.bind_eq, Timed.run_bind, Timed.modify, Timed.run, Recorded.run_within, Recorded.mark]

theorem Mark.follows_within {reader n : Nat} {g : Allowance} (t : Timed σ α) :
    (t.within Recorded.store fun s (m : Recorded Mark σ) => { m with store := s }).Follows (Mark.protocol reader) n
      (fun h _ => h = g) g := by
  refine Timed.follows_within (fun s m _ => ⟨trivial, ?_⟩) t
  exact (Mark.protocol reader).refl n g { m with store := s }

theorem Mark.follows_mark {reader n : Nat} {g h : Allowance} {ended : Bool} (hnext : g.next ended = some h) :
    (Timed.modify (σ := Recorded Mark σ) (Recorded.mark ⟨reader, n, ended⟩)).Follows (Mark.protocol reader) n
      (fun k _ => k = h) g :=
  fun m _ => ⟨trivial, h, ⟨[ended], rfl, by simp [hnext]⟩, rfl⟩

theorem Backend.follows_marked (b : Backend σ) (r : Request) {reader n left : Nat} :
    ((b.marked reader n).call r).Follows (Mark.protocol reader) n (fun h _ => h = ⟨left, false⟩)
      ⟨left + 1, false⟩ := by
  refine (Mark.follows_mark (h := ⟨left, true⟩) rfl).bind ?_
  rintro h _ rfl
  refine (Mark.follows_within (b.call r)).bind ?_
  rintro h _ rfl
  exact (Mark.follows_mark rfl).bind fun h _ hh => hh

/-- An attempt begins no more calls than its retries allow and is in none when it ends. -/
theorem Client.follows_readAttempt (c : Client σ) (key : String) (reader n : Nat) :
    ((c.marked reader n).readAttempt key).Follows (Mark.protocol reader).onStore n (fun h _ => h.busy = false)
      ⟨1 + c.retry.maxRetries, false⟩ := by
  refine RetryPolicy.follows_attempts "get" (fun left h => h.busy = false ∧ left < h.left)
    (fun left h _ => h.busy = false ∧ left ≤ h.left) ?_ ?_ ?_ c.retry.maxRetries ⟨rfl, ?_⟩
  · rintro left ⟨allowed, busy⟩ ⟨rfl, hlt⟩
    obtain ⟨rest, rfl⟩ : ∃ rest, allowed = rest + 1 := ⟨allowed - 1, by dsimp only at hlt; omega⟩
    refine (c.backend.follows_marked (.get key)).onStore.mono ?_
    rintro h _ rfl
    exact ⟨rfl, by dsimp only at hlt ⊢; omega⟩
  · exact fun left h outcome hends => hends.1
  · exact fun left h e hends _ => ⟨hends.1, hends.2⟩
  · change c.retry.maxRetries < 1 + c.retry.maxRetries
    omega

/-- So many hedges can join the first attempt of a read. -/
def HedgePolicy.hedges (p : HedgePolicy) : Nat := if p.enabled then p.upTo else 0

structure ReadCall where
  key : String
  start : Nat := 0
  patience : Option Nat := none

namespace Hedging
open Race (History)

namespace Call
variable {c : Call (Recorded Mark σ) α}

/-- The marks of a read are those of its attempts, and each attempt is at the stage that its marks tell. -/
structure Tracked (reader : Nat) (given : Allowance) (stages : Nat → Allowance) (c : Call (Recorded Mark σ) α)
    (marks : List Mark) : Prop where
  tracks : ∀ i, (Mark.track reader i marks).foldlM Allowance.next given = some (stages i)
  launched : ∀ m ∈ marks, m.reader = reader → m.attempt < c.attempts.length

variable {reader : Nat} {given : Allowance} {stages later : Nat → Allowance} {m after : Recorded Mark σ}
variable {x : History α} {post : Allowance → Except StorageError α → Prop}

theorem Tracked.stepped (h : Tracked reader given stages c m.notes)
    (hstep : Stepped (Mark.protocol reader) post c stages m later after x) {d : Call (Recorded Mark σ) α}
    (hlength : c.attempts.length ≤ d.attempts.length) : Tracked reader given later d after.notes := by
  cases hstep with
  | quiet _ => exact ⟨h.tracks, fun mark hmark hreader => (h.launched mark hmark hreader).trans_le hlength⟩
  | @moved i g after x _ running _ step _ =>
    obtain ⟨ends, hnotes, hrun⟩ := step
    rw [hnotes]
    refine ⟨?_, ?_⟩
    · intro j
      rw [Mark.track_append, List.foldlM_append, h.tracks j]
      by_cases hji : j = i
      · subst hji
        rw [Mark.track_new, Function.update_self]
        exact hrun
      · rw [Mark.track_new_of_ne (.inr hji), Function.update_of_ne hji]
        rfl
    · intro mark hmark hreader
      rcases List.mem_append.1 hmark with hmark | hmark
      · exact (h.launched mark hmark hreader).trans_le hlength
      · obtain ⟨ended, -, rfl⟩ := List.mem_map.1 hmark
        exact running.lt.trans_le hlength

theorem Tracked.undisturbed {k : Nat} (hk : k ≠ reader) {d : Call (Recorded Mark σ) α}
    (hstep : Stepped (Mark.protocol reader) post c stages m later after x) {own : Nat → Allowance}
    (h : Tracked k given own d m.notes) : Tracked k given own d after.notes := by
  cases hstep with
  | quiet _ => exact h
  | moved _ _ _ step _ =>
    obtain ⟨ends, hnotes, -⟩ := step
    rw [hnotes]
    refine ⟨?_, ?_⟩
    · intro i
      rw [Mark.track_append, Mark.track_new_of_ne (.inl hk), List.append_nil]
      exact h.tracks i
    · intro mark hmark hreader
      rcases List.mem_append.1 hmark with hmark | hmark
      · exact h.launched mark hmark hreader
      · obtain ⟨ended, -, rfl⟩ := List.mem_map.1 hmark
        exact absurd hreader.symm hk

/-- Each of its attempts makes at most the calls it was given, one at a time, whatever part of the marks is looked
at. -/
theorem Tracked.count_le {most : Nat} (h : Tracked reader ⟨most, false⟩ stages c m.notes) {marks : List Mark}
    (hmarks : marks <+: m.notes) :
    Mark.count reader false marks ≤ c.attempts.length * most ∧
      Mark.count reader false marks ≤ Mark.count reader true marks + c.attempts.length := by
  have htally (i : Nat) : (Mark.track reader i marks).count false ≤ most ∧
      (Mark.track reader i marks).count false ≤ (Mark.track reader i marks).count true + 1 := by
    obtain ⟨mid, hmid⟩ := exists_foldlM_of_isPrefix (Mark.track_of_isPart hmarks reader i) (h.tracks i)
    obtain ⟨hleft, hbusy⟩ := Allowance.tally hmid
    have hone := Bool.toNat_le mid.busy
    simp only [Bool.toNat_false] at hleft hbusy
    omega
  have hlaunched : ∀ mark ∈ marks, mark.reader = reader → mark.attempt < c.attempts.length :=
    fun mark hmark => h.launched mark (hmarks.subset hmark)
  rw [Mark.count_eq_sum hlaunched, Mark.count_eq_sum hlaunched]
  constructor
  · calc ∑ i ∈ Finset.range c.attempts.length, (Mark.track reader i marks).count false
      _ ≤ ∑ _i ∈ Finset.range c.attempts.length, most := Finset.sum_le_sum fun i _ => (htally i).1
      _ = c.attempts.length * most := by simp
  · calc ∑ i ∈ Finset.range c.attempts.length, (Mark.track reader i marks).count false
      _ ≤ ∑ i ∈ Finset.range c.attempts.length, ((Mark.track reader i marks).count true + 1) :=
        Finset.sum_le_sum fun i _ => (htally i).2
      _ = ∑ i ∈ Finset.range c.attempts.length, (Mark.track reader i marks).count true + c.attempts.length := by
        simp [Finset.sum_add_distrib]

end Call

def Hall.marks (h : Hall (Recorded Mark σ) α) : List Mark := h.shared.world.store.notes

/-- Every call of a hall makes its calls to the store as its marks tell, and rests when it is over. -/
def Hall.Marked (most : Nat) (h : Hall (Recorded Mark σ) α) : Prop :=
  ∀ (k : Nat) (d : Call (Recorded Mark σ) α), h.calls[k]? = some d → d.Rests ∧ ∃ stages,
    d.Obeys (Mark.protocol k) (fun g _ => g.busy = false) stages ∧
      d.Tracked k ⟨most, false⟩ stages h.marks

namespace Hall

theorem Marked.handle {most : Nat} {h : Hall (Recorded Mark σ) α} (hm : h.Marked most) (now i : Nat) (e : Event) :
    (h.handle now i e).Marked most := by
  cases hi : h.calls[i]? with
  | none =>
    rw [handle_of_none hi]
    exact hm
  | some c =>
    obtain ⟨hrests, stages, hobeys, htracked⟩ := hm i c hi
    obtain ⟨later, hlater, hstep⟩ := hobeys.handle h.policy now e (s := h.shared) trivial
    rw [handle_of_getElem? hi]
    intro k d hd
    by_cases hik : i = k
    · subst hik
      obtain ⟨hlt, -⟩ := List.getElem?_eq_some_iff.1 hi
      obtain rfl : (c.handle h.policy now e h.shared).1 = d := by simpa [hlt] using hd
      exact ⟨hrests.handle h.policy now e h.shared, later, hlater,
        htracked.stepped hstep (Call.length_le_handle h.policy now e c h.shared)⟩
    · rw [List.getElem?_set_ne hik] at hd
      obtain ⟨hdrests, own, hdobeys, hdtracked⟩ := hm k d hd
      exact ⟨hdrests, own, hdobeys, hdtracked.undisturbed (Ne.symm hik) hstep⟩

theorem Marked.play {most : Nat} {h : Hall (Recorded Mark σ) α} (hm : h.Marked most)
    (es : List (Nat × Nat × Event)) : (h.play es).Marked most := by
  induction es generalizing h with
  | nil => exact hm
  | cons ev es ih =>
    obtain ⟨now, i, e⟩ := ev
    exact ih (hm.handle now i e)

theorem play_of_ended {h : Hall σ α} {k : Nat} {d : Call σ α} (hd : h.calls[k]? = some d) {time : Nat}
    {closing : Closing α} (hover : d.phase = .ended time closing)
    (es : List (Nat × Nat × Event)) : (h.play es).calls[k]? = some d ∧ h.history k es = {} := by
  have hstep (c : Call σ α) (x : History α) (now : Nat) (e : Event) (s : Shared σ) (hc : c = d ∧ x = {}) :
      (c.handle h.policy now e s).1 = d ∧ x ++ c.record h.policy now e s = {} := by
    obtain ⟨rfl, rfl⟩ := hc
    obtain ⟨hhandle, hrecord⟩ := Call.handle_of_ended hover h.policy now e s
    rw [hhandle, hrecord]
    exact ⟨rfl, rfl⟩
  obtain ⟨_, hd', rfl, hx⟩ := play_induction hstep hd ⟨rfl, rfl⟩ es
  exact ⟨hd', by simpa using hx⟩

theorem handle_of_ended {h : Hall σ α} {k : Nat} {d : Call σ α} (hd : h.calls[k]? = some d) {time : Nat}
    {closing : Closing α} (hover : d.phase = .ended time closing) (now : Nat) (e : Event) :
    h.handle now k e = h := by
  obtain ⟨hlt, rfl⟩ := List.getElem?_eq_some_iff.1 hd
  rw [handle_of_getElem? hd, (Call.handle_of_ended hover h.policy now e h.shared).1, List.set_getElem_self]

theorem Marked.count_handle {most : Nat} {h : Hall (Recorded Mark σ) α} (hm : h.Marked most) (now : Nat)
    {i k : Nat} (hk : k ≠ i) (e : Event) (ended : Bool) :
    Mark.count k ended (h.handle now i e).marks = Mark.count k ended h.marks := by
  cases hi : h.calls[i]? with
  | none => rw [handle_of_none hi]
  | some c =>
    obtain ⟨-, stages, hobeys, -⟩ := hm i c hi
    obtain ⟨later, -, hstep⟩ := hobeys.handle h.policy now e (s := h.shared) trivial
    rw [handle_of_getElem? hi]
    simp only [marks]
    generalize (c.handle h.policy now e h.shared).2.world.store = after at hstep ⊢
    cases hstep with
    | quiet _ => rfl
    | moved _ _ _ step _ =>
      obtain ⟨ends, hnotes, -⟩ := step
      rw [hnotes, Mark.count_append_new hk]

theorem Marked.count_play {most : Nat} {h : Hall (Recorded Mark σ) α} (hm : h.Marked most) {k : Nat}
    {d : Call (Recorded Mark σ) α} (hd : h.calls[k]? = some d) {time : Nat}
    {closing : Closing α} (hover : d.phase = .ended time closing)
    (es : List (Nat × Nat × Event)) (ended : Bool) :
    Mark.count k ended (h.play es).marks = Mark.count k ended h.marks := by
  induction es generalizing h with
  | nil => rfl
  | cons ev es ih =>
    obtain ⟨now, i, e⟩ := ev
    rw [play_cons]
    by_cases hik : i = k
    · subst hik
      rw [handle_of_ended hd hover, ih hm hd]
    · have hd' : (h.handle now i e).calls[k]? = some d := (play_of_ended hd hover [(now, i, e)]).1
      rw [ih (hm.handle now i e) hd', hm.count_handle now (Ne.symm hik) e ended]

theorem play_fits {h : Hall σ α} (hfresh : ∀ c ∈ h.calls, c.Fresh) (es : List (Nat × Nat × Event)) {k : Nat}
    {d : Call σ α} (hd : (h.play es).calls[k]? = some d) : d.Fits (h.history k es) := by
  obtain ⟨hlt, -⟩ := List.getElem?_eq_some_iff.1 hd
  rw [length_play] at hlt
  have hck := hfresh h.calls[k] (List.getElem_mem hlt)
  have hstart : h.calls[k].Fits ({} : History α) :=
    ⟨fun i a ha => by simp [hck.attempts] at ha, fun i hi => (by cases hi), fun y hy => by cases hy⟩
  obtain ⟨d', hd', hfits⟩ := play_induction (P := fun c x => c.Fits x)
    (fun c x now e s hx => hx.handle h.policy now e s) (List.getElem?_eq_getElem hlt) hstart es
  rw [hd] at hd'
  cases hd'
  simpa using hfits

theorem length_attempts_le_hedges {h : Hall σ α} (hfresh : ∀ c ∈ h.calls, c.Fresh) (es : List (Nat × Nat × Event))
    {k : Nat} {d : Call σ α} (hd : (h.play es).calls[k]? = some d) :
    d.attempts.length ≤ 1 + h.policy.hedges := by
  obtain ⟨hon, hoff⟩ := play_budget hfresh es hd
  unfold HedgePolicy.hedges
  cases hp : h.policy.enabled with
  | true => exact (hon hp).issued_le
  | false => exact (hoff hp).length_le_one

def ofReads (c : Client σ) (rs : List ReadCall) (s : Shared σ) : Hall (Recorded Mark σ) Fetched where
  policy := c.hedging
  calls := rs.zipIdx.map fun (r, k) =>
    { start := r.start, patience := r.patience, attempt := fun n => (c.marked k n).readAttempt r.key }
  shared := s.mapStore fun store => { store := store }

theorem ofReads_fresh {c : Client σ} {rs : List ReadCall} {s : Shared σ} {k : Nat}
    {d : Call (Recorded Mark σ) Fetched} (hd : (ofReads c rs s).calls[k]? = some d) :
    d.Fresh ∧ ∃ r ∈ rs, d.attempt = fun n => (c.marked k n).readAttempt r.key := by
  simp only [ofReads, List.getElem?_map, Option.map_eq_some_iff, List.getElem?_zipIdx] at hd
  obtain ⟨-, ⟨r, hr, rfl⟩, rfl⟩ := hd
  exact ⟨⟨rfl, rfl⟩, r, List.mem_of_getElem? hr, by simp⟩

theorem ofReads_marked (c : Client σ) (rs : List ReadCall) (s : Shared σ) :
    (ofReads c rs s).Marked (1 + c.retry.maxRetries) := by
  intro k d hd
  obtain ⟨hfresh, r, -, hattempt⟩ := ofReads_fresh hd
  refine ⟨?_, fun _ => ⟨1 + c.retry.maxRetries, false⟩, Call.Obeys.of_fresh hfresh fun n => ?_, ?_⟩
  · intro time closing hover
    cases hfresh.phase.symm.trans hover
  · rw [hattempt]
    exact c.follows_readAttempt r.key k n
  · exact ⟨fun i => rfl, fun m hm => by cases hm⟩

/-- The work of the reads of a client, for every schedule of their events. A read begins at most as many calls as
all its attempts together may make, with no more under way than it can have attempts. Once it is over nothing of it
goes on, and each attempt completed, panicked or was aborted. -/
theorem read_work (c : Client σ) (rs : List ReadCall) (s : Shared σ) (es : List (Nat × Nat × Event)) {k : Nat}
    {d : Call (Recorded Mark σ) Fetched} (hd : ((ofReads c rs s).play es).calls[k]? = some d) :
    let h := (ofReads c rs s).play es
    Mark.count k false h.marks ≤ (1 + c.hedging.hedges) * (1 + c.retry.maxRetries) ∧
    (∀ marks, marks <+: h.marks →
      Mark.count k false marks ≤ Mark.count k true marks + (1 + c.hedging.hedges)) ∧
    ∀ time outcome, d.result? = some (time, outcome) →
      (∀ now e, h.handle now k e = h) ∧
      (∀ later, (h.play later).calls[k]? = some d ∧ h.history k later = {} ∧
        Mark.count k false (h.play later).marks = Mark.count k false h.marks) ∧
      ∀ (i : Nat) (a : Attempt (Recorded Mark σ) Fetched), d.attempts[i]? = some a →
        a.due? = none ∧ a.Fits ((ofReads c rs s).history k es) i := by
  intro h
  have hfresh : ∀ call ∈ (ofReads c rs s).calls, call.Fresh := by
    intro call hcall
    obtain ⟨i, hi⟩ := List.getElem?_of_mem hcall
    exact (ofReads_fresh hi).1
  have hmarked : h.Marked (1 + c.retry.maxRetries) := (ofReads_marked c rs s).play es
  have hattempts : d.attempts.length ≤ 1 + c.hedging.hedges := length_attempts_le_hedges hfresh es hd
  obtain ⟨hrests, stages, -, htracked⟩ := hmarked k d hd
  refine ⟨?_, ?_, ?_⟩
  · exact (htracked.count_le List.prefix_rfl).1.trans (Nat.mul_le_mul_right _ hattempts)
  · intro marks hmarks
    have hle := (htracked.count_le hmarks).2
    omega
  · intro time outcome hresult
    obtain ⟨closing, hover, -⟩ := Call.result?_eq_some.1 hresult
    refine ⟨handle_of_ended hd hover, ?_, ?_⟩
    · intro later
      obtain ⟨hstays, hquiet⟩ := play_of_ended hd hover later
      exact ⟨hstays, hquiet, hmarked.count_play hd hover later false⟩
    · intro i a ha
      refine ⟨?_, (play_fits hfresh es hd).attempts i a ha⟩
      have hidle := hrests time closing hover i
      rcases a with ⟨started, standing⟩
      cases standing with
      | running due rest => exact absurd ⟨_, ha, trivial⟩ hidle
      | unseen time outcome => exact absurd ⟨_, ha, trivial⟩ hidle
      | completed time => rfl
      | panicked => rfl
      | aborted => rfl

end Hall

/-- A read whose first attempt waits long for the store and whose first hedge fails and waits to be retried. -/
def straggling : Hall (Recorded Mark FaultyMemory) Fetched :=
  Hall.ofReads
    { retry := { maxRetries := 1 }, hedging := { after := .ofMillis 1 }, backend := FaultyMemory.backend }
    [{ key := "k" }]
    { world := { store := { faults := [{ delay := .ofMillis 10 }, { error := some (.timeout "slow") }] } }
      limiter := .unlimited }

def stragglingSchedule : List (Nat × Nat × Event) :=
  [(0, 0, .start), (0, 0, .advance 0), (0, 0, .advance 0), (0, 0, .advance 0), (1, 0, .timer), (1, 0, .advance 1),
    (1, 0, .advance 1), (1, 0, .advance 1), (1, 0, .advance 1), (5, 0, .drop)]

theorem straggling_work : ∃ d, (straggling.play stragglingSchedule).calls[0]? = some d ∧
    d.result? = some (5, none) ∧ Mark.count 0 false (straggling.play stragglingSchedule).marks = 2 ∧
    ∀ later, ((straggling.play stragglingSchedule).play later).calls[0]? = some d ∧
      Mark.count 0 false ((straggling.play stragglingSchedule).play later).marks = 2 := by
  have hlt : 0 < (straggling.play stragglingSchedule).calls.length := by
    rw [Hall.length_play]
    decide
  have hd := List.getElem?_eq_getElem hlt
  have hresult : (straggling.play stragglingSchedule).calls[0].result? = some (5, none) := rfl
  have hcount : Mark.count 0 false (straggling.play stragglingSchedule).marks = 2 := by decide
  obtain ⟨-, -, hover⟩ := Hall.read_work _ _ _ stragglingSchedule hd
  refine ⟨_, hd, hresult, hcount, fun later => ?_⟩
  obtain ⟨hstays, -, hlater⟩ := (hover 5 none hresult).2.1 later
  exact ⟨hstays, hlater.trans hcount⟩

end Hedging
end ObjectStorage
