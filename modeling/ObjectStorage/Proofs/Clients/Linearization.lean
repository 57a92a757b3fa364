import ObjectStorage.Proofs.Clients.Traffic

/-! # Linearization

The accesses of all clients, in the order of the moments at which they took effect, are a history of single
accesses to registers: each read gives what the accesses before it left, and each write changes its key once.
-/
namespace ObjectStorage.Traffic
open Hedging (Call Shared Event)

variable {t : Traffic} {es : Nat → Nat × Nat × Event} {k n : Nat} {op : Operation}

/-- What became of an operation, and the moment at which it took effect, if it did. What the caller got is what the
store answered then, or a failure by a fault; of what took effect only a put fails so. -/
structure Settled (t : Traffic) (es : Nat → Nat × Nat × Event) (k n : Nat) (op : Operation) (moment : Option Nat) :
    Prop where
  quiet : ∀ j < n, (es j).2.1 = k → moment ≠ some j → t.contents es (j + 1) = t.contents es j
  effect : ∀ j, moment = some j → j < n ∧ t.Active es k j ∧
    t.contents es (j + 1) = (t.contents es j).after op.order.access
  outcome : ∀ o, op.outcome? = some o →
    (∃ j, moment = some j ∧ o = (t.contents es j).reply op.order.access) ∨
    ∃ e, o = .error e ∧ t.Failed es k n e ∧ (moment = none ∨ op.order.access.IsPut ∧ e.isAmbiguous = true)

theorem Traced.outcome {stages : Nat → Stage op.order.access.Result} {x : Race.History op.order.access.Result}
    {moments : Nat → Option Nat}
    (haccords : op.call.Accords op.order.policy op.order.access.protocol op.order.access.Ends stages x)
    (htraced : t.Traced es k n op.order.access stages moments) {o : Except StorageError op.order.access.Result}
    (ho : op.outcome? = some o) : ∃ i < op.call.attempts.length,
      (∃ j, moments i = some j ∧ o = (t.contents es j).reply op.order.access) ∨
      ∃ e, o = .error e ∧ t.Failed es k n e ∧ (moments i = none ∨ op.order.access.IsPut ∧ e.isAmbiguous = true) := by
  obtain ⟨⟨time, outcome⟩, hresult, rfl⟩ := Option.bind_eq_some_iff.1 ho
  obtain ⟨i, hi, hends⟩ := haccords.exists_of_result hresult
  refine ⟨i, hi, ?_⟩
  rcases hends with ⟨hanswer, -⟩ | ⟨e, rfl, ⟨f, hf, hfault⟩, hlossy⟩
  · left
    cases hm : moments i with
    | none =>
      rw [htraced.unanswered i hm] at hanswer
      cases hanswer
    | some j =>
      have hreply := (htraced.answered i j hm).2.2.1
      rw [hanswer] at hreply
      exact ⟨j, rfl, Option.some.inj hreply⟩
  · refine .inr ⟨e, rfl, ⟨f, htraced.taken i f hf, hfault⟩, ?_⟩
    cases hm : moments i with
    | none => exact .inl rfl
    | some j => exact .inr (hlossy (by simp [(htraced.answered i j hm).2.2.1]))

theorem Sound.settled_read (h : t.Sound es k n op) {key : String} (hread : op.order.access = .read key) :
    ∃ moment, t.Settled es k n op moment := by
  obtain ⟨stages, x, moments, haccords, htraced, -⟩ := h
  have hafter (f : Contents) : f.after op.order.access = f := by rw [hread, Contents.after_read]
  have hquiet (j : Nat) (hj : j < n) (hk : (es j).2.1 = k) : t.contents es (j + 1) = t.contents es j := by
    by_cases hm : ∃ i, moments i = some j
    · obtain ⟨i, hi⟩ := hm
      rw [(htraced.answered i j hi).2.2.2, hafter]
    · exact htraced.quiet j hj hk fun i hi => hm ⟨i, hi⟩
  cases ho : op.outcome? with
  | none =>
    exact ⟨none, fun j hj hk _ => hquiet j hj hk, fun j hj => (by cases hj), fun o h => (by cases ho.symm.trans h)⟩
  | some o =>
    obtain ⟨i, -, ⟨j, hj, hreply⟩ | ⟨e, rfl, hfailed, -⟩⟩ := htraced.outcome haccords ho
    · obtain ⟨hlt, hactive, -, hchange⟩ := htraced.answered i j hj
      refine ⟨some j, fun j hj hk _ => hquiet j hj hk, ?_, ?_⟩
      · rintro _ ⟨⟩
        exact ⟨hlt, hactive, hchange⟩
      · intro o' ho'
        cases ho.symm.trans ho'
        exact .inl ⟨j, rfl, hreply⟩
    · refine ⟨none, fun j hj hk _ => hquiet j hj hk, fun j hj => (by cases hj), ?_⟩
      intro o' ho'
      cases ho.symm.trans ho'
      exact .inr ⟨e, rfl, hfailed, .inl rfl⟩

theorem Sound.settled_write (h : t.Sound es k n op) {wr : Write} (hwrite : op.order.access = .write wr) :
    ∃ moment, t.Settled es k n op moment := by
  obtain ⟨stages, x, moments, haccords, htraced, hlate⟩ := h
  have hpolicy : op.order.policy.enabled = false := by
    simp only [Order.policy, hwrite]
    rfl
  have hone : op.call.attempts.length ≤ 1 := haccords.length_le_one hpolicy
  have hother (i j : Nat) (hi : moments i = some j) : i = 0 := by
    by_contra hne
    rw [hlate i (by omega)] at hi
    cases hi
  refine ⟨moments 0, ?_, ?_, ?_⟩
  · intro j hj hk hne
    refine htraced.quiet j hj hk fun i hi => ?_
    rw [hother i j hi] at hi
    exact hne hi
  · intro j hj
    obtain ⟨hlt, hactive, -, hchange⟩ := htraced.answered 0 j hj
    exact ⟨hlt, hactive, hchange⟩
  · intro o ho
    obtain ⟨i, hi, houtcome⟩ := htraced.outcome haccords ho
    obtain rfl : i = 0 := by omega
    exact houtcome

theorem Sound.settled (h : t.Sound es k n op) : ∃ moment, t.Settled es k n op moment := by
  cases haccess : op.order.access with
  | read key => exact h.settled_read haccess
  | write wr => exact h.settled_write haccess

/-! ## The phases of an operation -/

/-- An operation is over before another one starts. -/
def Precedes (t : Traffic) (es : Nat → Nat × Nat × Event) (n k l : Nat) : Prop :=
  ∃ j ≤ n, (∃ op, (t.play es j).operations[k]? = some op ∧ op.call.result?.isSome) ∧
    ∃ op, (t.play es j).operations[l]? = some op ∧ op.call.phase = .upcoming

theorem getElem?_play_succ (t : Traffic) (es : Nat → Nat × Nat × Event) (n k : Nat) :
    (t.play es (n + 1)).operations[k]? = (t.play es n).operations[k]? ∨
      ∃ op s, (t.play es n).operations[k]? = some op ∧
        (t.play es (n + 1)).operations[k]? = some (op.handle (es n).1 (es n).2.2 s).1 := by
  cases hev : (t.play es n).operations[(es n).2.1]? with
  | none => exact .inl (congrArg (fun u => u.operations[k]?) (handle_of_none hev))
  | some op =>
    obtain ⟨s, -, hoperations, -⟩ := handle_of_getElem? hev
    by_cases hk : (es n).2.1 = k
    · subst hk
      obtain ⟨hlt, -⟩ := List.getElem?_eq_some_iff.1 hev
      refine .inr ⟨op, s, hev, ?_⟩
      rw [play, hoperations]
      simp [hlt]
    · left
      rw [play, hoperations, List.getElem?_set_ne hk]

theorem getElem?_play_of_result {j : Nat} (hop : (t.play es j).operations[k]? = some op)
    (hover : op.call.result?.isSome) (hle : j ≤ n) : (t.play es n).operations[k]? = some op := by
  obtain ⟨⟨time, outcome⟩, hresult⟩ := Option.isSome_iff_exists.1 hover
  induction n, hle using Nat.le_induction with
  | base => exact hop
  | succ n _ ih =>
    rcases getElem?_play_succ t es n k with hsame | ⟨op', s, hop', hnext⟩
    · exact hsame.trans ih
    · obtain rfl : op = op' := Option.some.inj (ih.symm.trans hop')
      obtain ⟨closing, hphase, -⟩ := Call.result?_eq_some.1 hresult
      have hstays := (Call.handle_of_ended hphase op.order.policy (es n).1 (es n).2.2 s).1
      rw [hnext, Operation.handle, hstays]

theorem exists_upcoming_of_le {j : Nat} (hop : (t.play es n).operations[k]? = some op)
    (hupcoming : op.call.phase = .upcoming) (hle : j ≤ n) :
    ∃ op, (t.play es j).operations[k]? = some op ∧ op.call.phase = .upcoming := by
  induction n, hle using Nat.le_induction generalizing op with
  | base => exact ⟨op, hop, hupcoming⟩
  | succ n _ ih =>
    rcases getElem?_play_succ t es n k with hsame | ⟨op', s, hop', hnext⟩
    · exact ih (hsame.symm.trans hop) hupcoming
    · obtain rfl : (op'.handle (es n).1 (es n).2.2 s).1 = op := Option.some.inj (hnext.symm.trans hop)
      exact ih hop' (Call.upcoming_of_handle hupcoming)

/-- Of two operations the one that is over before the other one starts takes effect first. -/
theorem Precedes.lt {l i j : Nat} (h : t.Precedes es n k l) (hk : t.Active es k i) (hl : t.Active es l j) : i < j := by
  obtain ⟨m, -, ⟨op, hop, hover⟩, op', hop', hupcoming⟩ := h
  have hbefore : i < m := by
    by_contra hge
    obtain ⟨-, now, hnow, race, timer, hracing⟩ := hk
    have hstays := getElem?_play_of_result hop hover (Nat.le_of_not_lt hge)
    obtain rfl : op = now := Option.some.inj (hstays.symm.trans hnow)
    simp [Call.result?, hracing] at hover
  have hafter : m < j := by
    by_contra hge
    obtain ⟨-, now, hnow, race, timer, hracing⟩ := hl
    obtain ⟨op'', hop'', hstill⟩ := exists_upcoming_of_le hop' hupcoming (Nat.le_of_not_lt hge)
    obtain rfl : op'' = now := Option.some.inj (hop''.symm.trans hnow)
    cases hracing.symm.trans hstill
  exact hbefore.trans hafter

/-! ## The sequence of accesses -/

def sequence (es : Nat → Nat × Nat × Event) (moment : Nat → Option Nat) : Nat → List Nat
  | 0 => []
  | n + 1 => sequence es moment n ++ if moment (es n).2.1 = some n then [(es n).2.1] else []

def replay (t : Traffic) (order : List Nat) : Contents :=
  order.foldl (fun f k => (t.operations[k]?.map fun op => f.after op.order.access).getD f) t.store.contents

/-- An order of operations in which single accesses to registers could have come. Each one that returned, if it was
not failed by a fault, comes where a register answers what it returned. -/
structure Linearizes (t : Traffic) (es : Nat → Nat × Nat × Event) (n : Nat) (order : List Nat) : Prop where
  unique : order.Nodup
  legal : ∀ k op o, (t.play es n).operations[k]? = some op → op.outcome? = some o →
    (∀ e, o = .error e → ¬t.Failed es k n e) →
    ∃ before rest, order = before ++ k :: rest ∧ o = (t.replay before).reply op.order.access
  final : t.replay order = t.contents es n
  realTime : order.Pairwise fun k l => ¬t.Precedes es n l k

theorem map_order_play (t : Traffic) (es : Nat → Nat × Nat × Event) (n k : Nat) :
    (t.play es n).operations[k]?.map Operation.order = t.operations[k]?.map Operation.order := by
  induction n with
  | zero => rfl
  | succ n ih =>
    rcases getElem?_play_succ t es n k with hsame | ⟨op, s, hop, hnext⟩
    · rw [hsame, ih]
    · rw [hnext, ← ih, hop]
      rfl

section Sequence
variable {moment : Nat → Option Nat}

theorem mem_sequence {m : Nat} : k ∈ sequence es moment m ↔ ∃ j < m, moment k = some j ∧ (es j).2.1 = k := by
  induction m with
  | zero => simp [sequence]
  | succ m ih =>
    rw [sequence, List.mem_append, ih]
    constructor
    · rintro (⟨j, hj, hmoment⟩ | hk)
      · exact ⟨j, Nat.lt_succ_of_lt hj, hmoment⟩
      · split at hk
        · rename_i hmoment
          obtain rfl := List.mem_singleton.1 hk
          exact ⟨m, Nat.lt_succ_self m, hmoment, rfl⟩
        · cases hk
    · rintro ⟨j, hj, hmoment, hk⟩
      rcases Nat.lt_succ_iff_lt_or_eq.1 hj with hlt | rfl
      · exact .inl ⟨j, hlt, hmoment, hk⟩
      · right
        subst hk
        rw [if_pos hmoment]
        exact List.mem_singleton_self _

theorem sequence_pairwise (es : Nat → Nat × Nat × Event) (moment : Nat → Option Nat) (m : Nat) :
    (sequence es moment m).Pairwise fun k l => ∃ i j, moment k = some i ∧ moment l = some j ∧ i < j := by
  induction m with
  | zero => exact List.Pairwise.nil
  | succ m ih =>
    rw [sequence]
    split
    · rename_i hmoment
      refine List.pairwise_append.2 ⟨ih, List.pairwise_singleton _ _, ?_⟩
      intro k hk l hl
      obtain rfl := List.mem_singleton.1 hl
      obtain ⟨i, hi, hki, -⟩ := mem_sequence.1 hk
      exact ⟨i, m, hki, hmoment, hi⟩
    · rwa [List.append_nil]

theorem sequence_nodup (es : Nat → Nat × Nat × Event) (moment : Nat → Option Nat) (m : Nat) :
    (sequence es moment m).Nodup := by
  refine (sequence_pairwise es moment m).imp ?_
  rintro k l ⟨i, j, hi, hj, hlt⟩ rfl
  rw [hi] at hj
  cases hj
  exact absurd hlt (Nat.lt_irrefl i)

theorem exists_sequence_eq {j m : Nat} (hmoment : moment k = some j) (hk : (es j).2.1 = k) (hj : j < m) :
    ∃ rest, sequence es moment m = sequence es moment j ++ k :: rest := by
  induction m, hj using Nat.le_induction with
  | base =>
    subst hk
    exact ⟨[], by rw [sequence, if_pos hmoment]⟩
  | succ m _ ih =>
    obtain ⟨rest, hrest⟩ := ih
    rw [sequence, hrest, List.append_assoc, List.cons_append]
    exact ⟨_, rfl⟩

end Sequence

theorem replay_sequence {moment : Nat → Option Nat}
    (hsettled : ∀ k op, (t.play es n).operations[k]? = some op → t.Settled es k n op (moment k))
    (habsent : ∀ k, (t.play es n).operations[k]? = none → moment k = none) {m : Nat} (hm : m ≤ n) :
    t.replay (sequence es moment m) = t.contents es m := by
  induction m with
  | zero => rfl
  | succ m ih =>
    have ih := ih (Nat.le_of_succ_le hm)
    have horder := (map_order_play t es n (es m).2.1)
    cases hop : (t.play es n).operations[(es m).2.1]? with
    | none =>
      have hnone : (t.play es m).operations[(es m).2.1]? = none := by
        have hmap := (map_order_play t es m (es m).2.1).trans horder.symm
        simpa [hop] using hmap
      have hsame : t.play es (m + 1) = t.play es m := handle_of_none hnone
      rw [sequence, if_neg (by simp [habsent _ hop]), List.append_nil, ih]
      exact (congrArg (fun u => u.store.contents) hsame).symm
    | some op =>
      have hs := hsettled _ op hop
      rw [sequence]
      split
      · rename_i hmoment
        obtain ⟨-, -, hchange⟩ := hs.effect m hmoment
        rw [hop] at horder
        have haccess : t.operations[(es m).2.1]?.map Operation.order = some op.order := horder.symm
        obtain ⟨op₀, hop₀, horder₀⟩ := Option.map_eq_some_iff.1 haccess
        have hreplay : t.replay (sequence es moment m ++ [(es m).2.1]) =
            (t.replay (sequence es moment m)).after op₀.order.access := by
          simp [replay, hop₀]
        rw [hreplay, ih, hchange, horder₀]
      · rename_i hmoment
        rw [List.append_nil, ih]
        exact (hs.quiet m hm rfl hmoment).symm

/-- Clients that share a store, none of which always repeats writes. Under every schedule each access takes effect
at one moment at most, while it is under way, and returns what the store answered then, or a failure by a fault. So
the accesses in the order of their moments are a history of registers. -/
theorem linearizable (orders : List Order) (desks : Nat → Shared Unit) {store : FaultyMemory}
    (hfair : ∀ f ∈ store.faults, f.Fair) (es : Nat → Nat × Nat × Event) (n : Nat) :
    let t := opening orders desks store
    ∃ moment : Nat → Option Nat,
      (∀ k op, (t.play es n).operations[k]? = some op → t.Settled es k n op (moment k)) ∧
      (∀ j < n, t.contents es (j + 1) ≠ t.contents es j → moment (es j).2.1 = some j) ∧
      t.Linearizes es n (sequence es moment n) := by
  intro t
  obtain ⟨-, hsound⟩ := opening_sound orders desks hfair es n
  -- Each operation has its moment; what is no operation has none.
  have hmoment (k : Nat) : ∃ moment : Option Nat,
      (∀ op, (t.play es n).operations[k]? = some op → t.Settled es k n op moment) ∧
      ((t.play es n).operations[k]? = none → moment = none) := by
    cases hop : (t.play es n).operations[k]? with
    | none => exact ⟨none, by simp, fun _ => rfl⟩
    | some op =>
      obtain ⟨moment, hsettled⟩ := (hsound k op hop).settled
      refine ⟨moment, ?_, by simp⟩
      rintro _ ⟨⟩
      exact hsettled
  choose moment hsettled habsent using hmoment
  have hreplay {m : Nat} (hm : m ≤ n) := replay_sequence hsettled habsent hm
  have hactive {k j : Nat} (hk : moment k = some j) : j < n ∧ t.Active es k j := by
    cases hop : (t.play es n).operations[k]? with
    | none => simp [habsent k hop] at hk
    | some op =>
      obtain ⟨hlt, hactive, -⟩ := (hsettled k op hop).effect j hk
      exact ⟨hlt, hactive⟩
  refine ⟨moment, hsettled, ?_, sequence_nodup es moment n, ?_, hreplay (Nat.le_refl n), ?_⟩
  · intro j hj hchange
    by_contra hne
    have hsame : sequence es moment (j + 1) = sequence es moment j := by rw [sequence, if_neg hne, List.append_nil]
    exact hchange (by rw [← hreplay hj, hsame, hreplay (Nat.le_of_lt hj)])
  · intro k op o hop ho hclean
    rcases (hsettled k op hop).outcome o ho with ⟨j, hj, hreply⟩ | ⟨e, he, hfailed, -⟩
    · obtain ⟨hlt, hk, -⟩ := hactive hj
      obtain ⟨rest, hrest⟩ := exists_sequence_eq hj hk hlt
      exact ⟨sequence es moment j, rest, hrest, by rw [hreplay (Nat.le_of_lt hlt), hreply]⟩
    · exact absurd hfailed (hclean e he)
  · refine (sequence_pairwise es moment n).imp ?_
    rintro k l ⟨i, j, hi, hj, hlt⟩ hprecedes
    exact absurd (hprecedes.lt (hactive hj).2 (hactive hi).2) (Nat.lt_asymm hlt)

def hedgedRead : Order :=
  { patron := { hedging := { after := .ofMillis 1 }, desk := 1 }, access := .read "k" }

/-- A put that is carried out and then fails, a read meanwhile, and another put before the end of the read is seen. -/
def lostPut : Traffic :=
  opening
    [{ patron := {}, access := .write (.put "k" [1]) }, hedgedRead,
      { patron := { desk := 2 }, access := .write (.put "k" [2]), start := 1 }]
    (fun _ => { world := { store := () }, limiter := .unlimited })
    { faults := [{ delay := .ofMillis 5, error := some (.timeout "lost"), applied := true },
        { delay := .ofMillis 10 }] }

def lostPutSchedule (n : Nat) : Nat × Nat × Event :=
  [(0, 0, .start), (0, 1, .start), (0, 0, .advance 0), (0, 1, .advance 0), (0, 1, .advance 0), (1, 1, .timer),
    (1, 1, .advance 1), (1, 1, .advance 1), (1, 2, .start), (1, 2, .advance 0), (1, 2, .advance 0),
    (1, 1, .advance 1), (1, 1, .observe 1)].getD n (5, 0, .advance 0)

/-- The read returns what the first put left when the store holds what the second one did. -/
theorem lostPut_linearizable : (∀ f ∈ lostPut.store.faults, f.Fair) ∧
    (∃ call : Call FaultyMemory Fetched, (lostPut.play lostPutSchedule 17).operations[1]? = some ⟨hedgedRead, call⟩ ∧
      call.result? = some (1, some (.ok ⟨[1], 1⟩))) ∧
    ∃ moment, sequence lostPutSchedule moment 17 = [0, 1, 2] ∧ lostPut.Linearizes lostPutSchedule 17 [0, 1, 2] ∧
      lostPut.replay [0, 1, 2] "k" = some [2] := by
  have hfair : ∀ f ∈ lostPut.store.faults, f.Fair := by
    intro f hf happlied
    simp only [lostPut, opening, List.mem_cons, List.not_mem_nil, or_false] at hf
    rcases hf with rfl | rfl
    · exact ⟨_, rfl, rfl⟩
    · cases happlied
  obtain ⟨call, hcall, hresult⟩ : ∃ call : Call FaultyMemory Fetched,
      (lostPut.play lostPutSchedule 17).operations[1]? = some ⟨hedgedRead, call⟩ ∧
        call.result? = some (1, some (.ok ⟨[1], 1⟩)) := ⟨_, rfl, rfl⟩
  obtain ⟨moment, hsettled, hchanges, hlinearizes⟩ := linearizable _ _ hfair lostPutSchedule 17
  have hfirst : moment 0 = some 2 := by
    refine hchanges 2 (by decide) fun hsame => ?_
    have hnone : lostPut.contents lostPutSchedule 3 "k" = none := by
      rw [show lostPut.contents lostPutSchedule 3 = _ from hsame]
      rfl
    cases hnone
  have hlast : moment 2 = some 10 := by
    refine hchanges 10 (by decide) fun hsame => ?_
    have hold : lostPut.contents lostPutSchedule 11 "k" = some [1] := by
      rw [show lostPut.contents lostPutSchedule 11 = _ from hsame]
      rfl
    cases hold
  have houtcome : Operation.outcome? ⟨hedgedRead, call⟩ = some (.ok ⟨[1], 1⟩) := congrArg (·.bind Prod.snd) hresult
  obtain ⟨j, hj, hreply⟩ : ∃ j, moment 1 = some j ∧
      .ok ⟨[1], 1⟩ = (lostPut.contents lostPutSchedule j).reply (.read "k") := by
    rcases (hsettled 1 _ hcall).outcome _ houtcome with h | ⟨e, he, -⟩
    · exact h
    · cases he
  obtain ⟨hlt, ⟨hone, -⟩, -⟩ := (hsettled 1 _ hcall).effect j hj
  have hheld : lostPut.contents lostPutSchedule j "k" = some [1] := Contents.eq_of_reply_read hreply.symm
  -- The store holds what the read returns only between the two puts.
  have hbetween : ∀ j < 17, (lostPutSchedule j).2.1 = 1 → lostPut.contents lostPutSchedule j "k" = some [1] →
      j ∈ [3, 4, 5, 6, 7] := by decide +kernel
  have hsequence : sequence lostPutSchedule moment 17 = [0, 1, 2] := by
    have hmem := hbetween j hlt hone hheld
    simp only [List.mem_cons, List.not_mem_nil, or_false] at hmem
    rcases hmem with rfl | rfl | rfl | rfl | rfl <;> simp [sequence, lostPutSchedule, hfirst, hj, hlast]
  rw [hsequence] at hlinearizes
  have hend : lostPut.contents lostPutSchedule 17 "k" = some [2] := rfl
  exact ⟨hfair, ⟨call, hcall, hresult⟩, moment, hsequence, hlinearizes, (congrFun hlinearizes.final "k").trans hend⟩

end ObjectStorage.Traffic
