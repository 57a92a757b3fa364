import ObjectStorage.Proofs.Clients.Effects
import ObjectStorage.Proofs.Listing.Answers
import ObjectStorage.Proofs.Work.Accounts

/-! # The books of a listing

A listing asks for one page position after the other. Each of them makes one call due, and its retries do the
rest.
-/
namespace ObjectStorage

variable {σ α : Type} {operation : String} {n : Nat}

/-- Work of an operation that makes a call for each position that it notes, beside its retries. -/
def positioned (operation : String) : Protocol (Recorded (Option String) (World (Recorded Request σ))) Nat where
  valid _ := True
  step _ due m left m' := World.Booked [] (Pi.single operation (due + m'.notes.length)) m.store
    (Pi.single operation (left + m.notes.length)) m'.store
  refl _ _ _ := World.booked_of_eq rfl rfl _
  trans := by
    intro n due m left m' least m'' h hmore
    exact (h.append_single hmore).balance_single (by omega)

theorem Timed.Follows.positioned {post : Nat → α → Prop} {t : Timed (World (Recorded Request σ)) α} {due : Nat}
    (h : t.Follows (account operation) n post due) :
    (t.within Recorded.store fun w (m : Recorded (Option String) _) => { m with store := w }).Follows
      (positioned operation) n post due := by
  induction t generalizing due with
  | done a => exact h
  | act change next ih =>
    intro m _
    obtain ⟨-, left, hbooked, hnext⟩ := h m.store trivial
    have hsame : World.Booked [] (Pi.single operation (due + m.notes.length)) m.store
        (Pi.single operation (left + m.notes.length)) (change m.store) :=
      hbooked.balance_single (by omega)
    exact ⟨trivial, left, hsame, ih m.store hnext⟩
  | wait d next ih => exact ih h

theorem Source.follows_noted {fetch : Option String → Timed (World (Recorded Request σ)) (Except StorageError Page)}
    (hfetch : ∀ token, (fetch token).Follows (account operation) n Cleared 1) (token : Option String) :
    (Source.noted fetch token).Follows (positioned operation) n (fun left _ => left = 0) 0 := by
  intro m _
  refine ⟨trivial, 1, ?_, (hfetch token).positioned⟩
  simpa [positioned, Nat.add_comm] using World.booked_of_eq (w := m.store) rfl rfl _

/-- The positions that a listing asks for, each by the token that leads to it. -/
def Client.positions (c : Client σ) (first delimiter : String) (now : Nat) (w : World σ) : List (Option String) :=
  ((Collector.collect c.maxPages (Source.noted fun token => c.request "list" .read (.page first delimiter token))
    c.pageFuel none {}).run now { store := w }).2.2.notes

theorem Client.follows_positions (c : Client σ) (first delimiter : String) (now : Nat)
    (w : World (Recorded Request σ)) :
    let collected := (Collector.collect c.counted.maxPages
      (fun token => c.counted.request "list" .read (.page first delimiter token)) c.counted.pageFuel none {}).run now w
    World.Booked [] (Pi.single "list" (c.counted.positions first delimiter now w).length) w 0 collected.2.2 := by
  intro collected
  have hfetch (token : Option String) := c.follows_counted (n := 0) (.page first delimiter token) .read
  obtain ⟨left, -, hbooked, rfl⟩ := (Collector.follows_collect (Source.follows_noted hfetch) c.counted.maxPages
    c.counted.pageFuel none {}).run now (s := { store := w }) trivial
  obtain ⟨notes, hrun⟩ := Collector.run_collect_noted
    (fun token => c.counted.request "list" .read (.page first delimiter token)) c.counted.maxPages
    c.counted.pageFuel none {} now { store := w }
  have hpositions : c.counted.positions first delimiter now w = notes := congrArg (fun r => r.2.2.notes) hrun
  simp only [Request.operation] at hbooked
  rw [hrun] at hbooked
  simpa [positioned, hpositions] using hbooked

end ObjectStorage
