import ObjectStorage.Proofs.Work.Protocols
import ObjectStorage.Proofs.Work.Recorded
import Mathlib.Algebra.GroupWithZero.Nat
import Mathlib.Algebra.Group.Pi.Lemmas

/-! # The books of a client

Every call of a store is due before it is made: to the operation, the page or the hedge that asks for it, or
to a retry, which is counted before its pause. The calls made and those still due are then the calls asked
for and the retries counted, whatever becomes of the calls.
-/
namespace ObjectStorage

variable {σ α : Type}

def Request.operation : Request → String
  | .get _ => "get"
  | .put _ _ => "put"
  | .delete _ => "delete"
  | .page _ _ _ => "list"

namespace Backend

def counted (b : Backend σ) : Backend (Recorded Request σ) where
  call r := do
    Timed.modify fun m => { m with notes := m.notes ++ [r] }
    (b.call r).within Recorded.store fun s m => { m with store := s }
  steps := b.steps + 1

theorem run_counted (b : Backend σ) (r : Request) (now : Nat) (m : Recorded Request σ) :
    (b.counted.call r).run now m =
      (((b.call r).run now m.store).1, ((b.call r).run now m.store).2.1,
        ⟨((b.call r).run now m.store).2.2, m.notes ++ [r]⟩) := by
  simp only [counted, Timed.bind_eq, Timed.run_bind, Recorded.run_within]
  rfl

end Backend

def Client.counted (c : Client σ) : Client (Recorded Request σ) :=
  { retry := c.retry, hedging := c.hedging, maxPages := c.maxPages, backend := c.backend.counted }

/-- Calls that are due, by operation. -/
abbrev Dues : Type := String → Nat

namespace World

def calls (w : World (Recorded Request σ)) : Dues := fun operation =>
  w.store.notes.countP (·.operation = operation)

def retried (w : World σ) : Dues := fun operation => w.metrics.count (.retries operation)

/-- What the books of a client say of two moments: every call that was due at first and every retry counted
since is a call made since or is still due, and beside retries certain series were counted. -/
structure Booked (counted : List Series) (due : Dues) (w : World (Recorded Request σ)) (left : Dues)
    (v : World (Recorded Request σ)) : Prop where
  calls : v.calls + w.retried + left = w.calls + v.retried + due
  series : ∀ s, (∀ operation, s ≠ .retries operation) → v.metrics.count s = w.metrics.count s + counted.count s

variable {u v w : World (Recorded Request σ)} {counted more : List Series} {due left due' left' : Dues}

theorem booked_of_eq (hnotes : v.store.notes = w.store.notes) (hmetrics : v.metrics = w.metrics) (due : Dues) :
    Booked [] due w due v where
  calls := by
    have hcalls : v.calls = w.calls := by
      funext operation
      rw [World.calls, World.calls, hnotes]
    have hretried : v.retried = w.retried := by
      funext operation
      rw [retried, retried, hmetrics]
    rw [hcalls, hretried]
  series s _ := by simp [hmetrics]

theorem Booked.append (h : Booked counted due w left v) (hmore : Booked more due' v left' u) :
    Booked (counted ++ more) (due + due') w (left + left') u where
  calls := by
    funext operation
    have hfirst := congrFun h.calls operation
    have hsecond := congrFun hmore.calls operation
    simp only [Pi.add_apply] at hfirst hsecond ⊢
    omega
  series s hs := by rw [hmore.series s hs, h.series s hs, List.count_append, Nat.add_assoc]

/-- Only by how much more is due than left matters. -/
theorem Booked.balance (h : Booked counted due w left v) (heq : due + left' = due' + left) :
    Booked counted due' w left' v where
  calls := by
    funext operation
    have hcalls := congrFun h.calls operation
    have hdues := congrFun heq operation
    simp only [Pi.add_apply] at hcalls hdues ⊢
    omega
  series := h.series

theorem Booked.trans (h : Booked counted due w left v) (hmore : Booked more left v left' u) :
    Booked (counted ++ more) due w left' u :=
  (h.append hmore).balance (by rw [add_assoc])

theorem Booked.of_perm (h : Booked counted due w left v) (hperm : counted.Perm more) : Booked more due w left v :=
  ⟨h.calls, fun s hs => by rw [h.series s hs, hperm.count_eq]⟩

section Single
variable {operation : String} {a b c d : Nat}

theorem Booked.balance_single (h : Booked counted (Pi.single operation a) w (Pi.single operation b) v)
    (heq : a + d = c + b) : Booked counted (Pi.single operation c) w (Pi.single operation d) v :=
  h.balance (by rw [← Pi.single_add, ← Pi.single_add, heq])

theorem Booked.append_single (h : Booked counted (Pi.single operation a) w (Pi.single operation b) v)
    (hmore : Booked more (Pi.single operation c) v (Pi.single operation d) u) :
    Booked (counted ++ more) (Pi.single operation (a + c)) w (Pi.single operation (b + d)) u := by
  rw [Pi.single_add, Pi.single_add]
  exact h.append hmore

end Single

theorem booked_note (r : Request) (w : World (Recorded Request σ)) :
    Booked [] (Pi.single r.operation 1) w 0
      { w with store := { w.store with notes := w.store.notes ++ [r] } } where
  calls := by
    funext operation
    by_cases h : r.operation = operation
    · subst h
      simp [World.calls, retried, Nat.add_right_comm]
    · simp [World.calls, retried, h]
  series s _ := by simp

theorem booked_retry (operation : String) (w : World (Recorded Request σ)) :
    Booked [] 0 w (Pi.single operation 1) { w with metrics := w.metrics.record (.retries operation) } where
  calls := by
    funext other
    by_cases h : other = operation
    · subst h
      simp [World.calls, retried, Metrics.count_record, Nat.add_assoc]
    · simp [World.calls, retried, Metrics.count_record, h]
  series s hs := by simp [Metrics.count_record, hs operation]

theorem booked_record {s : Series} (hs : ∀ operation, s ≠ .retries operation) (due : Dues)
    (w : World (Recorded Request σ)) : Booked [s] due w due { w with metrics := w.metrics.record s } where
  calls := by
    have hretried : World.retried { w with metrics := w.metrics.record s } = w.retried := by
      funext operation
      simp [retried, Metrics.count_record, Ne.symm (hs operation)]
    rw [hretried]
    rfl
  series t _ := by
    rw [Metrics.count_record, List.count_singleton]
    rcases eq_or_ne t s with rfl | h
    · simp
    · simp [h, Ne.symm h]

end World

/-! ## Work by the book -/

/-- Work of an operation that counts nothing but its retries, and makes no call that is not due. The stage of a
piece of work is the number of calls due to it. -/
def account (operation : String) : Protocol (World (Recorded Request σ)) Nat where
  valid _ := True
  step _ due w left v := World.Booked [] (Pi.single operation due) w (Pi.single operation left) v
  refl _ _ _ := World.booked_of_eq rfl rfl _
  trans h hmore := h.trans hmore

/-- What work ends with whose calls were all made. -/
def Cleared (left : Nat) (_ : α) : Prop := left = 0

variable {operation : String} {n due : Nat}

theorem account_of_eq {w v : World (Recorded Request σ)} (hnotes : v.store.notes = w.store.notes)
    (hmetrics : v.metrics = w.metrics) : (account operation).step n due w due v :=
  World.booked_of_eq hnotes hmetrics _

theorem World.follows_within (t : Timed σ α) :
    (World.onStore (t.within Recorded.store fun s (m : Recorded Request σ) => { m with store := s })).Follows
      (account operation) n (fun left _ => left = due) due := by
  induction t with
  | done a => rfl
  | act change next ih =>
    intro w _
    exact ⟨trivial, due, account_of_eq rfl rfl, ih w.store.store⟩
  | wait d next ih => exact ih

theorem Backend.follows_counted (b : Backend σ) (r : Request) :
    (World.onStore (b.counted.call r)).Follows (account r.operation) n Cleared 1 := by
  intro w _
  refine ⟨trivial, 0, ?_, World.follows_within (b.call r)⟩
  simpa [account] using World.booked_note r w

theorem RetryPolicy.follows_account (p : RetryPolicy) (kind : OperationKind)
    {attempt : Timed (World (Recorded Request σ)) (Except StorageError α)}
    (h : attempt.Follows (account operation) n Cleared 1) (left : Nat) :
    (p.attempts operation kind attempt left).Follows (account operation) n Cleared 1 := by
  have hcount : (World.count (σ := Recorded Request σ) (·.record (.retries operation))).Follows
      (account operation) n (fun due _ => due = 1) 0 :=
    fun w _ => ⟨trivial, 1, by simpa [account] using World.booked_retry operation w, rfl⟩
  have hdraw : (World.draw (σ := Recorded Request σ)).Follows (account operation) n (fun due _ => due = 1) 1 :=
    fun _ _ => ⟨trivial, 1, account_of_eq rfl rfl, rfl⟩
  induction left with
  | zero => exact h
  | succ left ih =>
    refine h.bind ?_
    rintro _ outcome rfl
    cases outcome with
    | ok a => rfl
    | error e =>
      simp only
      split
      · refine hcount.bind ?_
        rintro _ _ rfl
        refine hdraw.bind ?_
        rintro _ _ rfl
        exact ih
      · rfl

theorem Client.follows_counted (c : Client σ) (r : Request) (kind : OperationKind) :
    (c.counted.request r.operation kind r).Follows (account r.operation) n Cleared 1 :=
  c.retry.follows_account kind (c.backend.follows_counted r) c.retry.maxRetries

end ObjectStorage
