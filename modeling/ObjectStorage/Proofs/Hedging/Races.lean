import ObjectStorage.Hedging.Race
import Mathlib.Data.List.Perm.Basic
import Mathlib.Data.List.Range

/-! # Races and what was seen of them

A race is compared with the history of its call: which attempts were seen to end and how, the rounds
used and the answers of the limiter. Each rule of the race keeps the two in step, and a race that
settles does so by the outcome that its history calls for.
-/
namespace ObjectStorage.Race
open scoped List

variable {α : Type}

structure Ending (α : Type) where
  time : Nat
  attempt : Nat
  outcome : Except StorageError α

/-- What a call went through: the ends of attempts that it saw, the rounds it used, the answers that the limiter
gave it, and the ends of attempts whether it saw them or not. -/
@[ext] structure History (α : Type) where
  endings : List (Ending α) := []
  rounds : Nat := 0
  answers : List Bool := []
  finishes : List (Ending α) := []

namespace History

instance : Append (History α) :=
  ⟨fun x y =>
    ⟨x.endings ++ y.endings, x.rounds + y.rounds, x.answers ++ y.answers, x.finishes ++ y.finishes⟩⟩

@[simp] theorem endings_append (x y : History α) : (x ++ y).endings = x.endings ++ y.endings := rfl
@[simp] theorem rounds_append (x y : History α) : (x ++ y).rounds = x.rounds + y.rounds := rfl
@[simp] theorem answers_append (x y : History α) : (x ++ y).answers = x.answers ++ y.answers := rfl
@[simp] theorem finishes_append (x y : History α) : (x ++ y).finishes = x.finishes ++ y.finishes := rfl

@[simp] theorem append_empty (x : History α) : x ++ {} = x := by
  ext1 <;> simp

@[simp] theorem empty_append (x : History α) : {} ++ x = x := by
  ext1 <;> simp

theorem append_assoc (x y z : History α) : x ++ y ++ z = x ++ (y ++ z) := by
  ext1 <;> simp [Nat.add_assoc]

def ended (x : History α) : List Nat := x.endings.map Ending.attempt

def finished (x : History α) : List Nat := x.finishes.map Ending.attempt

/-- How many attempts a call has issued that went through this: the first one, and one for each hedge
that was granted. -/
def issued (x : History α) : Nat := 1 + x.answers.count true

@[simp] theorem ended_append (x y : History α) : (x ++ y).ended = x.ended ++ y.ended := by
  simp [ended]

@[simp] theorem finished_append (x y : History α) : (x ++ y).finished = x.finished ++ y.finished := by
  simp [finished]

end History

/-- Whether an outcome settles a call at once. A success does, and so does any failure that is not transient. -/
def Decisive : Except StorageError α → Prop
  | .ok _ => True
  | .error e => e.errorClass ≠ .transient

def Undecided (xs : List (Ending α)) : Prop := ∀ y ∈ xs, ¬Decisive y.outcome

/-- A race agrees with a history as to the attempts, the rounds used and the last failure. -/
structure Tallies (p : HedgePolicy) (r : Race) (x : History α) : Prop where
  rounds : r.rounds = x.rounds
  rounds_le : r.rounds ≤ p.upTo
  issued : r.issued = x.issued
  undecided : Undecided x.endings
  lastFailure : r.lastFailure.map Except.error = x.endings.getLast?.map Ending.outcome
  /-- Each attempt issued is under way or was seen to end, and never both. -/
  numbers : (r.pending ++ x.ended).Perm (List.range r.issued)

/-- Between two events every round has its answer, and with nothing under way there are rounds left. -/
structure Stands (p : HedgePolicy) (r : Race) (x : History α) : Prop where
  tallies : r.Tallies p x
  answered : x.rounds = x.answers.length
  lively : r.pending = [] → r.rounds < p.upTo

/-- The outcome that a history calls for: the first decisive one, or the last failure, once all attempts issued were
seen to fail and all rounds are used. -/
inductive Settled (p : HedgePolicy) (now : Nat) (x : History α) : Except StorageError α → Prop where
  | decisive {before : List (Ending α)} {i : Nat} {outcome : Except StorageError α}
      (decisive : Decisive outcome) (undecided : Undecided before)
      (endings : x.endings = before ++ [⟨now, i, outcome⟩]) : Settled p now x outcome
  | exhausted {outcome : Except StorageError α} (undecided : Undecided x.endings)
      (last : x.endings.getLast?.map Ending.outcome = some outcome) (rounds : x.rounds = p.upTo)
      (all : x.ended.Perm (List.range x.issued)) : Settled p now x outcome

namespace Step

def rounds : Step α → Nat
  | .asking _ => 1
  | _ => 0

def race? : Step α → Option Race
  | .settled _ => none
  | .asking r | .running r => some r

/-- A step agrees with a history that includes it. A step that asks has used a round whose answer is
still to come. -/
def Sound (p : HedgePolicy) (now : Nat) (x : History α) : Step α → Prop
  | .settled outcome => Settled p now x outcome ∧ x.rounds = x.answers.length ∧ x.rounds ≤ p.upTo
  | .asking r => r.Tallies p x ∧ x.rounds = x.answers.length + 1
  | .running r => r.Stands p x

end Step

theorem Stands.rounds_le {p : HedgePolicy} {r : Race} {x : History α} (h : r.Stands p x) :
    x.rounds ≤ p.upTo := h.tallies.rounds ▸ h.tallies.rounds_le

theorem stands_start (p : HedgePolicy) : ({} : Race).Stands p ({} : History α) where
  tallies := ⟨rfl, Nat.zero_le _, rfl, by simp [Undecided], rfl, by simp [History.ended, List.range_succ]⟩
  answered := rfl
  lively := by simp

/-- That attempts come to their end is nothing to a race as long as it is not seen. -/
theorem Stands.finish {p : HedgePolicy} {r : Race} {x : History α} (h : r.Stands p x) (finishes : List (Ending α)) :
    r.Stands p (x ++ { finishes := finishes }) where
  tallies :=
    { rounds := h.tallies.rounds
      rounds_le := h.tallies.rounds_le
      issued := by simpa [History.issued] using h.tallies.issued
      undecided := by simpa using h.tallies.undecided
      lastFailure := by simpa using h.tallies.lastFailure
      numbers := by simpa [History.ended] using h.tallies.numbers }
  answered := by simpa using h.answered
  lively := h.lively

theorem Tallies.nodup {p : HedgePolicy} {r : Race} {x : History α} (h : r.Tallies p x) :
    r.pending.Nodup := by
  have hall : (r.pending ++ x.ended).Nodup := h.numbers.nodup_iff.2 List.nodup_range
  exact (List.nodup_append.1 hall).1

theorem Tallies.exists_lastFailure {p : HedgePolicy} {r : Race} {x : History α} (h : r.Tallies p x)
    (hp : r.pending = []) : ∃ e, r.lastFailure = some e := by
  have hlen := h.numbers.length_eq
  simp only [hp, List.nil_append, List.length_range, h.issued, History.issued, History.ended,
    List.length_map] at hlen
  have hne : x.endings ≠ [] := List.ne_nil_of_length_pos (by omega)
  have hl := h.lastFailure
  rw [List.getLast?_eq_some_getLast hne] at hl
  cases he : r.lastFailure with
  | none => simp [he] at hl
  | some e => exact ⟨e, rfl⟩

theorem goOn_rounds (p : HedgePolicy) (r : Race) : (goOn p r : Step α).rounds = 0 := by
  unfold goOn
  split <;> rfl

theorem goOn_sound {p : HedgePolicy} {r : Race} {x : History α} (h : r.Tallies p x)
    (ha : x.rounds = x.answers.length) (now : Nat) : (goOn p r : Step α).Sound p now x := by
  unfold goOn
  split
  · rename_i hdone
    simp only [Bool.and_eq_true, List.isEmpty_iff, decide_eq_true_eq] at hdone
    obtain ⟨hpend, hrounds⟩ := hdone
    obtain ⟨e, he⟩ := h.exists_lastFailure hpend
    have hlast : x.endings.getLast?.map Ending.outcome = some (.error e) := by
      rw [← h.lastFailure, he]
      rfl
    have hall : x.ended.Perm (List.range x.issued) := by
      simpa [hpend, h.issued] using h.numbers
    have hr := h.rounds
    have hle := h.rounds_le
    rw [he]
    exact ⟨.exhausted h.undecided hlast (by omega) hall, ha, by omega⟩
  · rename_i hmore
    refine ⟨h, ha, ?_⟩
    intro hpend
    simp only [hpend, List.isEmpty_nil, Bool.true_and, decide_eq_true_eq] at hmore
    omega

theorem Tallies.fail {p : HedgePolicy} {r : Race} {x : History α} (h : r.Tallies p x) {i : Nat}
    (hi : i ∈ r.pending) {e : StorageError} (he : e.errorClass = .transient) (now : Nat) :
    Tallies p { r with pending := r.pending.erase i, lastFailure := some e }
      (x ++ { endings := [⟨now, i, .error e⟩] }) where
  rounds := h.rounds
  rounds_le := h.rounds_le
  issued := by simpa [History.issued] using h.issued
  undecided := by
    intro y hy
    rcases List.mem_append.1 hy with hy | hy
    · exact h.undecided y hy
    · rw [List.mem_singleton.1 hy]
      exact fun hd => hd he
  lastFailure := by simp
  numbers := by
    rw [History.ended_append]
    refine List.Perm.trans ?_ h.numbers
    calc r.pending.erase i ++ (x.ended ++ [i])
        _ ~ i :: (r.pending.erase i ++ x.ended) := by
          rw [← List.append_assoc]
          exact List.perm_append_singleton _ _
        _ ~ r.pending ++ x.ended := (List.perm_cons_erase hi).symm.append_right x.ended

theorem Tallies.useRound {p : HedgePolicy} {r : Race} {x : History α} (h : r.Tallies p x)
    (hlt : r.rounds < p.upTo) : Tallies p { r with rounds := r.rounds + 1 } (x ++ { rounds := 1 }) where
  rounds := by simp [h.rounds]
  rounds_le := hlt
  issued := by simpa [History.issued] using h.issued
  undecided := by simpa using h.undecided
  lastFailure := by simpa using h.lastFailure
  numbers := by simpa [History.ended] using h.numbers

theorem Tallies.deny {p : HedgePolicy} {r : Race} {x : History α} (h : r.Tallies p x) :
    Tallies p r (x ++ { answers := [false] }) where
  rounds := h.rounds
  rounds_le := h.rounds_le
  issued := by simpa [History.issued] using h.issued
  undecided := by simpa using h.undecided
  lastFailure := by simpa using h.lastFailure
  numbers := by simpa [History.ended] using h.numbers

theorem Tallies.grant {p : HedgePolicy} {r : Race} {x : History α} (h : r.Tallies p x) :
    Tallies p { r with pending := r.pending ++ [r.issued], issued := r.issued + 1 }
      (x ++ { answers := [true] }) where
  rounds := h.rounds
  rounds_le := h.rounds_le
  issued := by simp [History.issued, h.issued, Nat.add_assoc]
  undecided := by simpa using h.undecided
  lastFailure := by simpa using h.lastFailure
  numbers := by
    have hnum : r.pending ++ [r.issued] ++ x.ended ~ List.range (r.issued + 1) := by
      rw [List.range_succ]
      calc r.pending ++ [r.issued] ++ x.ended
          _ ~ r.pending ++ x.ended ++ [r.issued] := by
            rw [List.append_assoc, List.append_assoc]
            exact List.perm_append_comm.append_left r.pending
          _ ~ List.range r.issued ++ [r.issued] := h.numbers.append_right _
    simpa [History.ended] using hnum

theorem finished_sound {p : HedgePolicy} {r : Race} {x : History α} (h : r.Stands p x) {i : Nat}
    (hi : i ∈ r.pending) (outcome : Except StorageError α) (now : Nat) :
    (r.finished p i outcome).Sound p now
      (x ++ { endings := [⟨now, i, outcome⟩] } ++ { rounds := (r.finished p i outcome).rounds }) := by
  have ht := h.tallies
  -- A decisive outcome settles the race as the history has it.
  have hdecisive (hd : Decisive outcome) : (Step.settled outcome).Sound p now
      (x ++ { endings := [⟨now, i, outcome⟩] } ++ { rounds := 0 }) := by
    refine ⟨.decisive (i := i) hd ht.undecided (by simp), ?_, ?_⟩
    · simpa using h.answered
    · simpa using h.rounds_le
  cases outcome with
  | ok a => exact hdecisive trivial
  | error e =>
    by_cases he : e.errorClass = .transient
    · have hfail := ht.fail hi he now
      simp only [finished, he, ↓reduceIte]
      split
      · rename_i hask
        simp only [Bool.and_eq_true, decide_eq_true_eq] at hask
        refine ⟨hfail.useRound hask.2, ?_⟩
        simpa [Step.rounds] using h.answered
      · rw [goOn_rounds]
        refine goOn_sound (by simpa using hfail) ?_ now
        simpa using h.answered
    · have hs : r.finished p i (.error e : Except StorageError α) = .settled (.error e) := by
        simp [finished, he]
      rw [hs]
      exact hdecisive he

theorem timerFired_sound {p : HedgePolicy} {r : Race} {x : History α} (h : r.Stands p x) (now : Nat) :
    (r.timerFired p : Step α).Sound p now (x ++ { rounds := (r.timerFired p : Step α).rounds }) := by
  unfold timerFired
  split
  · rename_i hmore
    refine ⟨h.tallies.useRound hmore, ?_⟩
    simpa [Step.rounds] using h.answered
  · rw [goOn_rounds]
    simpa using goOn_sound h.tallies h.answered now

theorem answered_sound {p : HedgePolicy} {r : Race} {x : History α} (h : r.Tallies p x)
    (ha : x.rounds = x.answers.length + 1) (granted : Bool) (now : Nat) :
    (r.answered p granted : Step α).Sound p now (x ++ { answers := [granted] }) := by
  have hx : (x ++ { answers := [granted] }).rounds = (x ++ { answers := [granted] }).answers.length := by
    simpa using ha
  cases granted with
  | false => exact goOn_sound h.deny hx now
  | true => exact goOn_sound h.grant hx now

/-! ## Which attempts are under way after a step -/

theorem goOn_race {p : HedgePolicy} {r t : Race} (h : (goOn p r : Step α).race? = some t) : t = r := by
  unfold goOn at h
  split at h
  · cases h
  · cases h
    rfl

theorem finished_race {p : HedgePolicy} {r t : Race} {i : Nat} {outcome : Except StorageError α}
    (h : (r.finished p i outcome).race? = some t) :
    t.pending = r.pending.erase i ∧ t.issued = r.issued := by
  cases outcome with
  | ok a => cases h
  | error e =>
    simp only [finished] at h
    split at h
    · split at h
      · cases h
        exact ⟨rfl, rfl⟩
      · rw [goOn_race h]
        exact ⟨rfl, rfl⟩
    · cases h

theorem timerFired_race {p : HedgePolicy} {r t : Race} (h : (r.timerFired p : Step α).race? = some t) :
    t.pending = r.pending ∧ t.issued = r.issued := by
  unfold timerFired at h
  split at h
  · cases h
    exact ⟨rfl, rfl⟩
  · rw [goOn_race h]
    exact ⟨rfl, rfl⟩

theorem answered_race {p : HedgePolicy} {r t : Race} {granted : Bool}
    (h : (r.answered p granted : Step α).race? = some t) :
    t = if granted then { r with pending := r.pending ++ [r.issued], issued := r.issued + 1 } else r :=
  goOn_race h

end ObjectStorage.Race
