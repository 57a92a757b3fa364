import ObjectStorage.Proofs.Listing.Trails
import ObjectStorage.Proofs.Work.Recorded

/-! # Listings by the answers of their source

How often a source is asked, with which tokens, and what the listing comes to is told by the sequence of
the answers alone, which may go on for ever.
-/
namespace ObjectStorage

abbrev Answers : Type := Nat → Except StorageError Page

namespace Answers

def token? : Except StorageError Page → Option String
  | .ok p => p.next
  | .error _ => none

/-- What the source is asked with, the time after so many answers. -/
def asks (a : Answers) : Nat → Option String
  | 0 => none
  | k + 1 => token? (a k)

/-- The answer is a truncated page with a token that is not empty and that no answer named before. -/
def Continues (a : Answers) (k : Nat) : Prop :=
  ∃ p, a k = .ok p ∧ p.truncated = true ∧
    ∃ token, p.next = some token ∧ token ≠ "" ∧ ∀ j < k, token? (a j) ≠ some token

/-- Whether there is an answer to so many others: all of them continue, and one page more is allowed. -/
def Asked (a : Answers) (maxPages k : Nat) : Prop :=
  (∀ j < k, a.Continues j) ∧ (maxPages = 0 ∨ k < maxPages)

def pages (a : Answers) (n : Nat) : List Page := (List.range n).filterMap fun k => (a k).toOption

/-- How a listing ends, and after how many answers. -/
inductive Ends (a : Answers) (maxPages : Nat) : Nat → Except StorageError Listing → Prop
  | failed {k : Nat} {e : StorageError} (asked : a.Asked maxPages k) (answer : a k = .error e) :
      Ends a maxPages (k + 1) (.error e)
  | repeated {k : Nat} {p : Page} {token : String} (asked : a.Asked maxPages k) (answer : a k = .ok p)
      (truncated : p.truncated = true) (next : p.next = some token) (nonempty : token ≠ "")
      (known : ∃ j < k, token? (a j) = some token) :
      Ends a maxPages (k + 1) (.error (Collector.repeated token))
  | capped (limited : maxPages ≠ 0) (continues : ∀ j < maxPages, a.Continues j) :
      Ends a maxPages maxPages (.error (.tooManyPages maxPages))
  | complete {k : Nat} {p : Page} (asked : a.Asked maxPages k) (answer : a k = .ok p)
      (last : p.truncated = false ∨ p.next = none ∨ p.next = some "") :
      Ends a maxPages (k + 1) (.ok (.ofPages (a.pages (k + 1))))

/-! ## The answers along a trail -/

def Gives (a : Answers) (pages : List Page) : Prop := (List.range pages.length).map a = pages.map .ok

variable {a : Answers} {pages : List Page} {p : Page}

theorem gives_append : a.Gives (pages ++ [p]) ↔ a.Gives pages ∧ a pages.length = .ok p := by
  unfold Gives
  rw [List.length_append, List.length_singleton, List.range_succ, List.map_append, List.map_append]
  constructor
  · intro h
    obtain ⟨hbefore, hlast⟩ := List.append_inj' h rfl
    exact ⟨hbefore, by simpa using hlast⟩
  · rintro ⟨hbefore, hlast⟩
    rw [hbefore, List.map_singleton, hlast, List.map_singleton]

theorem Gives.eq_ok (h : a.Gives pages) {k : Nat} (hk : k < pages.length) : a k = .ok pages[k] := by
  have heq := congrArg (fun l => l[k]?) h
  simpa [hk] using heq

theorem Gives.pages_eq (h : a.Gives pages) : a.pages pages.length = pages := by
  have hmap : a.pages pages.length = ((List.range pages.length).map a).filterMap Except.toOption := by
    rw [List.filterMap_map]
    rfl
  rw [hmap, h, List.filterMap_map]
  exact List.filterMap_some

theorem Gives.tokenAfter_eq (h : a.Gives pages) : Trail.tokenAfter pages = a.asks pages.length := by
  rcases List.eq_nil_or_concat pages with rfl | ⟨before, p, rfl⟩
  · rfl
  · rw [List.concat_eq_append] at h ⊢
    obtain ⟨-, hlast⟩ := gives_append.1 h
    simp [asks, hlast, token?]

theorem Gives.exists_next_iff (h : a.Gives pages) (token : String) :
    (∃ q ∈ pages, q.next = some token) ↔ ∃ j < pages.length, token? (a j) = some token := by
  constructor
  · rintro ⟨q, hq, hnext⟩
    obtain ⟨j, hj, rfl⟩ := List.getElem_of_mem hq
    exact ⟨j, hj, by rw [h.eq_ok hj]; exact hnext⟩
  · rintro ⟨j, hj, htoken⟩
    rw [h.eq_ok hj] at htoken
    exact ⟨pages[j], List.getElem_mem hj, htoken⟩

theorem Gives.leadsOn_iff (h : a.Gives pages) (hp : a pages.length = .ok p) :
    p.LeadsOn pages ↔ a.Continues pages.length := by
  have hnew (token : String) : (∀ q ∈ pages, q.next ≠ some token) ↔
      ∀ j < pages.length, token? (a j) ≠ some token := by
    have hiff := not_congr (h.exists_next_iff token)
    simpa only [not_exists, not_and] using hiff
  constructor
  · rintro ⟨htruncated, token, hnext, hne, hfresh⟩
    exact ⟨p, hp, htruncated, token, hnext, hne, (hnew token).1 hfresh⟩
  · rintro ⟨q, hq, htruncated, token, hnext, hne, hfresh⟩
    obtain rfl : p = q := by simpa [hp] using hq
    exact ⟨htruncated, token, hnext, hne, (hnew token).2 hfresh⟩

theorem Gives.continues (h : a.Gives pages) (htrail : Trail pages) : ∀ j < pages.length, a.Continues j := by
  induction htrail with
  | start => simp
  | @step pages p before leads ih =>
    obtain ⟨hbefore, hlast⟩ := gives_append.1 h
    intro j hj
    rw [List.length_append, List.length_singleton] at hj
    rcases Nat.lt_succ_iff_lt_or_eq.1 hj with hj | rfl
    · exact ih hbefore j hj
    · exact (hbefore.leadsOn_iff hlast).1 leads

/-! ## The end of a listing is determined by the answers -/

def verdict (a : Answers) (k : Nat) : Except StorageError Listing :=
  match a k with
  | .error e => .error e
  | .ok p => Collector.conclude (a.pages k) p

theorem pages_succ {k : Nat} (hp : a k = .ok p) : a.pages (k + 1) = a.pages k ++ [p] := by
  simp [Answers.pages, List.range_succ, hp, Except.toOption]

theorem ends_verdict {maxPages k : Nat} (hasked : a.Asked maxPages k) (hstop : ¬a.Continues k) :
    a.Ends maxPages (k + 1) (a.verdict k) := by
  unfold verdict
  cases hanswer : a k with
  | error e => exact .failed hasked hanswer
  | ok p =>
    cases hnext : p.next with
    | none =>
      have hend := Ends.complete hasked hanswer (.inr (.inl hnext))
      simpa [Collector.conclude, hnext, pages_succ hanswer] using hend
    | some token =>
      by_cases hgo : p.truncated = true ∧ token ≠ ""
      · have hknown : ∃ j < k, token? (a j) = some token := by
          refine Decidable.byContradiction fun hnew => hstop ⟨p, hanswer, hgo.1, token, hnext, hgo.2, ?_⟩
          intro j hj hsame
          exact hnew ⟨j, hj, hsame⟩
        have hend := Ends.repeated hasked hanswer hgo.1 hnext hgo.2 hknown
        simpa [Collector.conclude, hnext, hgo] using hend
      · have hlast : p.truncated = false ∨ p.next = none ∨ p.next = some "" := by
          rw [Decidable.not_and_iff_or_not, Bool.not_eq_true, Decidable.not_not] at hgo
          rcases hgo with hgo | rfl
          · exact .inl hgo
          · exact .inr (.inr hnext)
        have hend := Ends.complete hasked hanswer hlast
        simpa only [Collector.conclude, hnext, if_neg hgo, pages_succ hanswer] using hend

theorem Ends.cases_verdict {maxPages n : Nat} {result : Except StorageError Listing}
    (h : a.Ends maxPages n result) :
    (n = maxPages ∧ maxPages ≠ 0 ∧ (∀ j < n, a.Continues j) ∧ result = .error (.tooManyPages maxPages)) ∨
      ∃ k, n = k + 1 ∧ a.Asked maxPages k ∧ ¬a.Continues k ∧ result = a.verdict k := by
  cases h with
  | @failed k e asked answer =>
    refine .inr ⟨k, rfl, asked, ?_, by simp [verdict, answer]⟩
    rintro ⟨p, hp, -⟩
    rw [answer] at hp
    cases hp
  | @repeated k p token asked answer truncated next nonempty known =>
    refine .inr ⟨k, rfl, asked, ?_, by simp [verdict, answer, Collector.conclude, next, truncated, nonempty]⟩
    rintro ⟨q, hq, -, other, hother, -, hnew⟩
    obtain rfl : p = q := by simpa [answer] using hq
    obtain rfl : token = other := by simpa [next] using hother
    obtain ⟨j, hj, hsame⟩ := known
    exact hnew j hj hsame
  | capped limited continues => exact .inl ⟨rfl, limited, continues, rfl⟩
  | @complete k p asked answer last =>
    refine .inr ⟨k, rfl, asked, ?_, ?_⟩
    · rintro ⟨q, hq, htruncated, other, hother, hne, -⟩
      obtain rfl : p = q := by simpa [answer] using hq
      rcases last with hlast | hlast | hlast
      · simp [hlast] at htruncated
      · simp [hlast] at hother
      · simp [hlast, hne.symm] at hother
    · rcases last with hlast | hlast | hlast
      · cases hnext : p.next <;> simp [verdict, answer, Collector.conclude, hlast, hnext, pages_succ answer]
      · simp [verdict, answer, Collector.conclude, hlast, pages_succ answer]
      · simp [verdict, answer, Collector.conclude, hlast, pages_succ answer]

/-- A listing that is followed for so many pages, the number of times the source is asked, and how it comes
out, if it ends. -/
structure Settles (a : Answers) (maxPages fuel n : Nat) (outcome : Option (Except StorageError Listing)) :
    Prop where
  asked : ∀ k, k < n ↔ k < fuel ∧ a.Asked maxPages k
  ended : ∀ result, outcome = some result ↔ a.Ends maxPages n result
  endless : outcome = none ↔ a.Asked maxPages fuel

theorem settles_going {maxPages fuel : Nat} (h : a.Asked maxPages fuel) : a.Settles maxPages fuel fuel none where
  asked k := by
    refine ⟨fun hk => ⟨hk, fun j hj => h.1 j (Nat.lt_trans hj hk), ?_⟩, And.left⟩
    have hroom := h.2
    omega
  ended result := by
    refine ⟨fun hsome => by simp at hsome, fun hend => ?_⟩
    rcases hend.cases_verdict with ⟨hlimit, hne, -, -⟩ | ⟨k, rfl, -, hstop, -⟩
    · have hroom := h.2
      omega
    · exact absurd (h.1 k (Nat.lt_succ_self k)) hstop
  endless := ⟨fun _ => h, fun _ => rfl⟩

theorem settles_capped {maxPages fuel : Nat} (hne : maxPages ≠ 0) (hle : maxPages ≤ fuel)
    (h : ∀ j < maxPages, a.Continues j) :
    a.Settles maxPages fuel maxPages (some (.error (.tooManyPages maxPages))) where
  asked k := by
    constructor
    · intro hk
      exact ⟨Nat.lt_of_lt_of_le hk hle, fun j hj => h j (Nat.lt_trans hj hk), .inr hk⟩
    · rintro ⟨-, -, hroom⟩
      omega
  ended result := by
    constructor
    · rintro ⟨⟩
      exact .capped hne h
    · intro hend
      rcases hend.cases_verdict with ⟨-, -, -, rfl⟩ | ⟨k, rfl, -, hstop, -⟩
      · rfl
      · exact absurd (h k (Nat.lt_succ_self k)) hstop
  endless := by
    refine ⟨fun hnone => by simp at hnone, fun hasked => ?_⟩
    have hroom := hasked.2
    omega

theorem settles_verdict {maxPages fuel k : Nat} (hk : k < fuel) (hasked : a.Asked maxPages k)
    (hstop : ¬a.Continues k) : a.Settles maxPages fuel (k + 1) (some (a.verdict k)) where
  asked j := by
    constructor
    · intro hj
      refine ⟨by omega, fun i hi => hasked.1 i (by omega), ?_⟩
      have hroom := hasked.2
      omega
    · rintro ⟨-, hcontinues, -⟩
      exact Nat.lt_succ_of_le (Nat.le_of_not_lt fun hlt => hstop (hcontinues k hlt))
  ended result := by
    constructor
    · rintro ⟨⟩
      exact ends_verdict hasked hstop
    · intro hend
      rcases hend.cases_verdict with ⟨-, -, hcontinues, -⟩ | ⟨i, hi, -, -, rfl⟩
      · exact absurd (hcontinues k (Nat.lt_succ_self k)) hstop
      · rw [Nat.succ.inj hi]
  endless := by
    refine ⟨fun hnone => by simp at hnone, fun hall => ?_⟩
    exact absurd (hall.1 k hk) hstop

end Answers

/-! ## Any source, asked page by page -/

namespace Source
variable {σ : Type} (fetch : Option String → Timed σ (Except StorageError Page)) (now : Nat) (s : σ)

def reply : Nat → Except StorageError Page × Nat × σ
  | 0 => (fetch none).run now s
  | k + 1 => (fetch (Answers.token? (reply k).1)).run (reply k).2.1 (reply k).2.2

def answers : Answers := fun k => (reply fetch now s k).1

def after : Nat → Nat × σ
  | 0 => (now, s)
  | k + 1 => (reply fetch now s k).2

def noted (token : Option String) : Timed (Recorded (Option String) σ) (Except StorageError Page) := do
  Timed.modify fun m => { m with notes := m.notes ++ [token] }
  (fetch token).within Recorded.store fun s m => { m with store := s }

theorem run_noted (token : Option String) (time : Nat) (m : Recorded (Option String) σ) :
    (noted fetch token).run time m =
      (((fetch token).run time m.store).1, ((fetch token).run time m.store).2.1,
        ⟨((fetch token).run time m.store).2.2, m.notes ++ [token]⟩) := by
  simp only [noted, Timed.bind_eq, Timed.run_bind]
  refine Timed.run_within ?_ ?_ ?_ (fetch token) time _
  · intro s m
    rfl
  · intro r s m
    rfl
  · intro m
    rfl

theorem reply_eq (k : Nat) : reply fetch now s k =
    (fetch ((answers fetch now s).asks k)).run (after fetch now s k).1 (after fetch now s k).2 := by
  cases k <;> rfl

def script (a : Answers) (_ : Option String) : Timed Nat (Except StorageError Page) :=
  .modifyGet fun k => (a k, k + 1)

theorem answers_script (a : Answers) (now : Nat) : answers (script a) now 0 = a := by
  have hreply (k : Nat) : reply (script a) now 0 k = (a k, now, k + 1) := by
    induction k with
    | zero => rfl
    | succ k ih => rw [reply, ih]; rfl
  funext k
  rw [answers, hreply]

variable {fetch now s}

def Noted (fetch : Option String → Timed σ (Except StorageError Page)) (now : Nat) (s : σ) (pages : List Page)
    (time : Nat) (m : Recorded (Option String) σ) : Prop :=
  (answers fetch now s).Gives pages ∧ (time, m.store) = after fetch now s pages.length ∧
    m.notes = (List.range pages.length).map (answers fetch now s).asks

theorem Noted.run {pages : List Page} {time : Nat} {m : Recorded (Option String) σ}
    (h : Noted fetch now s pages time m) :
    (noted fetch (Trail.tokenAfter pages)).run time m =
      (answers fetch now s pages.length, (after fetch now s (pages.length + 1)).1,
        ⟨(after fetch now s (pages.length + 1)).2,
          (List.range (pages.length + 1)).map (answers fetch now s).asks⟩) := by
  obtain ⟨hgives, hmoment, hnotes⟩ := h
  have hreply := reply_eq fetch now s pages.length
  rw [← hmoment] at hreply
  rw [run_noted, hgives.tokenAfter_eq, hnotes, List.range_succ, List.map_append, List.map_singleton]
  simp only [answers, after, hreply]

theorem Noted.eq_after {pages : List Page} {time : Nat} {m : Recorded (Option String) σ}
    (h : Noted fetch now s pages time m) :
    (time, m) = ((after fetch now s pages.length).1,
      ⟨(after fetch now s pages.length).2, (List.range pages.length).map (answers fetch now s).asks⟩) := by
  obtain ⟨-, hmoment, hnotes⟩ := h
  rw [← hmoment, ← hnotes]

theorem kept_noted : Collector.KeptBy (noted fetch) (Noted fetch now s) := by
  intro pages p time time' m t _ hnoted hfetch _
  rw [hnoted.run] at hfetch
  obtain ⟨hanswer, rfl, rfl⟩ : _ ∧ _ ∧ _ := by simpa only [Prod.mk.injEq] using hfetch
  refine ⟨Answers.gives_append.2 ⟨hnoted.1, hanswer⟩, ?_, ?_⟩
  · rw [List.length_append, List.length_singleton]
  · rw [List.length_append, List.length_singleton]

end Source

/-- A source of which is noted what it is asked with is followed as it is without the notes. -/
theorem Collector.run_collect_noted {σ : Type} (fetch : Option String → Timed σ (Except StorageError Page))
    (maxPages fuel : Nat) (token : Option String) (c : Collector) (now : Nat) (m : Recorded (Option String) σ) : ∃ notes,
      (collect maxPages (Source.noted fetch) fuel token c).run now m =
        (((collect maxPages fetch fuel token c).run now m.store).1,
          ((collect maxPages fetch fuel token c).run now m.store).2.1,
          ⟨((collect maxPages fetch fuel token c).run now m.store).2.2, notes⟩) := by
  induction fuel generalizing token c now m with
  | zero => exact ⟨m.notes, rfl⟩
  | succ fuel ih =>
    simp only [collect]
    split
    · exact ⟨m.notes, rfl⟩
    · simp only [Timed.bind_eq, Timed.run_bind, Source.run_noted]
      rcases (fetch token).run now m.store with ⟨outcome, time, s⟩
      cases outcome with
      | error e => exact ⟨_, rfl⟩
      | ok page =>
        simp only
        cases c.step page with
        | finished result => exact ⟨_, rfl⟩
        | more c token => exact ih (some token) c time _

/-- A listing of any source by the answers of the source. It is asked for one more page exactly if all answers
before continue and the limit allows it, with the token of the answer before. A token that comes back counts more
than the limit, and a failure comes with nothing of the listing. -/
theorem Collector.collect_answers {σ : Type} (fetch : Option String → Timed σ (Except StorageError Page))
    (maxPages fuel now : Nat) (s : σ) :
    let a := Source.answers fetch now s
    ∃ n outcome, (collect maxPages (Source.noted fetch) fuel none {}).run now { store := s } =
        (outcome, (Source.after fetch now s n).1,
          ⟨(Source.after fetch now s n).2, (List.range n).map a.asks⟩) ∧
      a.Settles maxPages fuel n outcome := by
  intro a
  have hstart : Source.Noted fetch now s [] now { store := s } := ⟨rfl, rfl, rfl⟩
  generalize hrun : (collect maxPages (Source.noted fetch) fuel none {}).run now
    ({ store := s } : Recorded (Option String) σ) = r
  have hended := hrun ▸ ended_collect Source.kept_noted maxPages fuel hstart
  cases hended with
  | @going pages time m trail all room fetched =>
    rw [fetched.eq_after, all]
    exact ⟨fuel, none, rfl, Answers.settles_going ⟨all ▸ fetched.1.continues trail, all ▸ room⟩⟩
  | @full pages time m trail le limit fetched =>
    obtain ⟨hne, hlength⟩ := limit
    rw [fetched.eq_after, hlength]
    exact ⟨maxPages, _, rfl,
      Answers.settles_capped hne (hlength ▸ le) (hlength ▸ fetched.1.continues trail)⟩
  | @failed pages time time' m t e trail lt room fetched answer =>
    rw [fetched.run] at answer
    obtain ⟨hanswer, rfl, rfl⟩ : _ ∧ _ ∧ _ := by simpa only [Prod.mk.injEq] using answer
    have hstop : ¬a.Continues pages.length := by
      rintro ⟨p, hp, -⟩
      cases hanswer.symm.trans hp
    have hverdict : a.verdict pages.length = .error e := by simp only [Answers.verdict, a, hanswer]
    rw [← hverdict]
    exact ⟨pages.length + 1, _, rfl,
      Answers.settles_verdict lt ⟨fetched.1.continues trail, room⟩ hstop⟩
  | @concluded pages time time' m t p trail lt room fetched answer last =>
    rw [fetched.run] at answer
    obtain ⟨hanswer, rfl, rfl⟩ : _ ∧ _ ∧ _ := by simpa only [Prod.mk.injEq] using answer
    have hstop : ¬a.Continues pages.length := fun h => last ((fetched.1.leadsOn_iff hanswer).2 h)
    have hverdict : a.verdict pages.length = conclude pages p := by
      simp only [Answers.verdict, a, hanswer, fetched.1.pages_eq]
    rw [← hverdict]
    exact ⟨pages.length + 1, _, rfl,
      Answers.settles_verdict lt ⟨fetched.1.continues trail, room⟩ hstop⟩

end ObjectStorage
